import PowerGuru.Devices.Onewire
import PowerGuru.Lib.Hex

/-!
# The ids of 1-wire sensors

`Onewire::getTemperature` stores a sensor under its id with the bytes the other way round.
-/
namespace PowerGuru.Devices.OnewireId

open Lib.Bytes Lib.Strtol Lib.Hex Onewire

/-- Twelve hexadecimal digits, in either case. -/
structure SensorId where
  digits : List Byte
  length_eq : digits.length = 12
  hex : ∀ b ∈ digits, digitValue b < 16

def SensorId.number (s : SensorId) : Nat := digitsFrom 16 0 s.digits

def SensorId.upper (s : SensorId) : List Byte := s.digits.map toUpper

theorem SensorId.number_lt (s : SensorId) : s.number < 2^48 := by
  have h : digitsFrom 16 0 s.digits < (0 + 1) * 16^s.digits.length :=
    digitsFrom_lt (by decide) 0 s.digits
  rw [s.length_eq] at h
  exact lt_of_lt_of_eq h (by norm_num)

/-! ## `stoll` -/

theorem hex_plain : ∀ n < 256, digitValue (UInt8.ofNat n) < 16 →
    isSpace (UInt8.ofNat n) = false ∧ UInt8.ofNat n ≠ 45 ∧ UInt8.ofNat n ≠ 43 ∧
      UInt8.ofNat n ≠ 120 ∧ UInt8.ofNat n ≠ 88 := by decide +kernel

theorem plain_of_hex {b : Byte} (h : digitValue b < 16) :
    isSpace b = false ∧ b ≠ 45 ∧ b ≠ 43 ∧ b ≠ 120 ∧ b ≠ 88 := by
  have hb := hex_plain b.toNat b.toNat_lt
  rw [UInt8.ofNat_toNat] at hb
  exact hb h

theorem stoll_digits (s : SensorId) : stoll s.digits 16 = some (s.number : Int) := by
  have hlt := s.number_lt
  rw [SensorId.number] at hlt ⊢
  obtain ⟨ds, hlen, hhex⟩ := s
  match ds, hlen with
  | a :: b :: rest, hlen =>
    have ha := hhex a List.mem_cons_self
    obtain ⟨hspace, hminus, hplus, -, -⟩ := plain_of_hex ha
    obtain ⟨-, -, -, hx, hX⟩ := plain_of_hex (hhex b (List.mem_cons_of_mem _ List.mem_cons_self))
    have hmag : magnitude 16 (a :: b :: rest) = digitsFrom 16 0 (a :: b :: rest) := by
      simp [magnitude, hexPrefixed, hx, hX]
    have hclamp : (digitsFrom 16 0 (a :: b :: rest) : Int) =
        clampLong (digitsFrom 16 0 (a :: b :: rest)) := by
      dsimp only at hlt
      unfold clampLong
      omega
    have hdrop : (a :: b :: rest).dropWhile isSpace = a :: b :: rest := by simp [hspace]
    simp only [stoll, hdrop, List.head?_cons, Option.some.injEq, hminus, hplus, or_self, if_false,
      hmag]
    rw [if_pos ⟨by simpa using ha, hclamp⟩]

/-! ## The bytes the other way round -/

theorem toNat_append {w k : Nat} (x : BitVec w) (y : BitVec k) :
    (x ++ y).toNat = x.toNat * 2^k + y.toNat := by
  rw [BitVec.toNat_append, Nat.shiftLeft_eq, ← Nat.shiftLeft_eq,
    ← Nat.shiftLeft_add_eq_or_of_lt y.isLt, Nat.shiftLeft_eq]

theorem endianReverse_toNat (x : BitVec 64) :
    (endianReverse x).toNat = Nat.ofDigits 256
      [x.toNat / 2^56 % 256, x.toNat / 2^48 % 256, x.toNat / 2^40 % 256, x.toNat / 2^32 % 256,
        x.toNat / 2^24 % 256, x.toNat / 2^16 % 256, x.toNat / 2^8 % 256, x.toNat % 256] := by
  simp only [endianReverse, toNat_append, BitVec.extractLsb'_toNat, Nat.shiftRight_eq_div_pow,
    Nat.ofDigits_cons, Nat.ofDigits_nil, pow_zero, Nat.div_one]
  ring

theorem shifted_toNat {n : Nat} (h : n < 2^48) :
    (BitVec.ofInt 64 n <<< 16).toNat = n * 2^16 := by
  rw [BitVec.ofInt_natCast, BitVec.toNat_shiftLeft, BitVec.toNat_ofNat, Nat.shiftLeft_eq]
  omega

/-- The two zero bytes that were shifted in come to the front. -/
theorem endianReverse_shift {n : Nat} (h : n < 2^48) :
    (endianReverse (BitVec.ofInt 64 n <<< 16)).toNat = Nat.ofDigits 256 (bytesOf 6 n).reverse := by
  have h5 : n * 2^16 / 2^56 % 256 = n / 256 / 256 / 256 / 256 / 256 % 256 := by omega
  have h4 : n * 2^16 / 2^48 % 256 = n / 256 / 256 / 256 / 256 % 256 := by omega
  have h3 : n * 2^16 / 2^40 % 256 = n / 256 / 256 / 256 % 256 := by omega
  have h2 : n * 2^16 / 2^32 % 256 = n / 256 / 256 % 256 := by omega
  have h1 : n * 2^16 / 2^24 % 256 = n / 256 % 256 := by omega
  have h0 : n * 2^16 / 2^16 % 256 = n % 256 := by omega
  have hz1 : n * 2^16 / 2^8 % 256 = 0 := by omega
  have hz0 : n * 2^16 % 256 = 0 := by omega
  rw [endianReverse_toNat, shifted_toNat h, h5, h4, h3, h2, h1, h0, hz1, hz0]
  simp [bytesOf, Nat.ofDigits_cons]

/-! ## The id -/

theorem hexId_ofDigits {x : BitVec 64} {bs : List Nat} (hlen : bs.length = 6)
    (hb : ∀ b ∈ bs, b < 256) (hx : x.toNat = Nat.ofDigits 256 bs) :
    hexId x = bs.reverse.flatMap pair := by
  have hlt := ofDigits_lt hb
  have hfixed := fixed_ofDigits hb
  rw [hlen] at hlt hfixed
  rw [hexId, leftpad_toDigits (by decide) (by rw [hx]; exact lt_of_lt_of_eq hlt (by norm_num)), hx]
  exact hfixed

/-- Whatever the number is, what was shifted in leaves twelve digits. -/
theorem endianReverse_shift_lt (idnum : Int) :
    (endianReverse (BitVec.ofInt 64 idnum <<< 16)).toNat < 16^12 := by
  have hshift : (BitVec.ofInt 64 idnum <<< 16).toNat % 2^16 = 0 := by
    rw [BitVec.toNat_shiftLeft, Nat.shiftLeft_eq]
    omega
  have hz1 : (BitVec.ofInt 64 idnum <<< 16).toNat / 2^8 % 256 = 0 := by omega
  have hz0 : (BitVec.ofInt 64 idnum <<< 16).toNat % 256 = 0 := by omega
  rw [endianReverse_toNat, hz1, hz0]
  simp only [Nat.ofDigits_cons, Nat.ofDigits_nil]
  omega

/-- The id that is stored consists of digits, whatever stood in its place. -/
theorem mem_temperatureId {id out : List Byte} (h : temperatureId id = some out) {b : Byte}
    (hb : b ∈ out) : ∃ d < 16, b = upperDigit d := by
  obtain ⟨idnum, -, rfl⟩ := Option.map_eq_some_iff.mp h
  rw [hexId, leftpad_toDigits (by decide) (endianReverse_shift_lt idnum)] at hb
  exact mem_fixed hb

/-- The id in upper case, by its bytes. -/
theorem SensorId.upper_eq (s : SensorId) : s.upper = (bytesOf 6 s.number).reverse.flatMap pair := by
  have hlt : s.number < 256^6 := lt_of_lt_of_eq s.number_lt (by norm_num)
  have hfixed := fixed_ofDigits (bytesOf_lt 6 s.number)
  rw [length_bytesOf, ofDigits_bytesOf hlt] at hfixed
  rw [← hfixed, SensorId.upper, ← fixed_digitsFrom s.hex, s.length_eq]
  rfl

theorem SensorId.upper_plain (s : SensorId) :
    ∀ b ∈ s.upper, digitValue b < 16 ∧ toUpper b = b := by
  intro b hb
  obtain ⟨c, hc, rfl⟩ := List.mem_map.mp hb
  exact digitValue_toUpper (s.hex c hc)

theorem SensorId.byteReversed_upper (s : SensorId) :
    byteReversed s.upper = (bytesOf 6 s.number).flatMap pair := by
  rw [s.upper_eq, byteReversed_pairs, List.reverse_reverse]

theorem SensorId.mem_byteReversed (s : SensorId) {b : Byte} :
    b ∈ byteReversed s.upper ↔ b ∈ s.upper := by
  rw [s.byteReversed_upper, s.upper_eq]
  simp only [List.mem_flatMap, List.mem_reverse]

/-- The bytes the other way round, in upper case. -/
def SensorId.reversed (s : SensorId) : SensorId where
  digits := byteReversed s.upper
  length_eq := by
    rw [s.byteReversed_upper]
    rfl
  hex b hb := (s.upper_plain b (s.mem_byteReversed.mp hb)).1

theorem SensorId.upper_reversed (s : SensorId) : s.reversed.upper = s.reversed.digits := by
  have hmap : s.reversed.digits.map toUpper = s.reversed.digits.map id :=
    List.map_congr_left fun b hb => (s.upper_plain b (s.mem_byteReversed.mp hb)).2
  rw [SensorId.upper, hmap, List.map_id]

theorem SensorId.reversed_twice (s : SensorId) : s.reversed.reversed.digits = s.upper := by
  calc s.reversed.reversed.digits = byteReversed s.reversed.upper := rfl
    _ = byteReversed (byteReversed s.upper) := by rw [s.upper_reversed]; rfl
    _ = s.upper := by rw [s.byteReversed_upper, byteReversed_pairs, ← s.upper_eq]

theorem temperatureId_eq (s : SensorId) :
    temperatureId s.digits = some (byteReversed s.upper) := by
  have hb : ∀ b ∈ (bytesOf 6 s.number).reverse, b < 256 := by
    intro b hb
    exact bytesOf_lt 6 s.number b (List.mem_reverse.mp hb)
  rw [temperatureId, stoll_digits, Option.map_some,
    hexId_ofDigits (by simp) hb (endianReverse_shift s.number_lt), List.reverse_reverse,
    s.byteReversed_upper]

/-- The id that is stored: its bytes, its width and its case, the way back, and which ids it
tells apart. -/
theorem temperatureId_reversed (s : SensorId) :
    temperatureId s.digits = some (byteReversed s.upper) ∧
      (byteReversed s.upper).length = 12 ∧
      (∀ b ∈ byteReversed s.upper, digitValue b < 16 ∧ toUpper b = b) ∧
      (temperatureId s.digits).bind temperatureId = some s.upper ∧
      ∀ t : SensorId, temperatureId s.digits = temperatureId t.digits ↔ s.upper = t.upper := by
  have hback : ∀ t : SensorId, (temperatureId t.digits).bind temperatureId = some t.upper := by
    intro t
    rw [temperatureId_eq t, Option.bind_some]
    exact (temperatureId_eq t.reversed).trans (congrArg some t.reversed_twice)
  refine ⟨temperatureId_eq s, s.reversed.length_eq, ?_, hback s,
    fun t => ⟨fun h => ?_, fun h => ?_⟩⟩
  · intro b hb
    exact s.upper_plain b (s.mem_byteReversed.mp hb)
  · have hs := hback s
    rw [h, hback t] at hs
    exact (Option.some.inj hs).symm
  · rw [temperatureId_eq, temperatureId_eq, h]

end PowerGuru.Devices.OnewireId
