import PowerGuru.Devices.Onewire
import PowerGuru.Lib.Binary32

/-!
# The kernel's `w1_slave`

Two lines with the sensor's nine bytes, the first ending in the verdict on the checksum and
the second in the temperature. `Onewire::getTemperature` looks at neither: it takes what
stands behind the 69th character.
-/
namespace PowerGuru.Devices.OnewireBus

open Lib.Bytes Lib.Strtol Lib.Numeral Lib.Strtod Lib.Binary32 Sensors Onewire

/-- `std::stof(result.substr(69, result.size()))`. -/
def busValue {F : Type} (R : FloatReader F) (result : List Byte) : Except Thrown F :=
  if result.length < 69 then .error .outOfRange
  else
    match R.stof (result.drop 69) with
    | none => .error .badNumber
    | some x => .ok x

/-- The temperature is that value, scaled. -/
theorem busTemperature_eq {F : Type} [Zero F] (R : Thermometer F) (m : Mount)
    (result : List Byte) :
    busTemperature R m result = (busValue R.toFloatReader result).map fun x =>
      if m.scale = 70 then R.convertScale (R.thousandth x) else R.thousandth x := by
  unfold busTemperature busValue
  split
  · rfl
  · cases R.stof (result.drop 69) <;> rfl

def floatReader : FloatReader CFloat := ⟨stof, stof_nil⟩

/-! ## What the kernel writes -/

/-- A byte in two hexadecimal digits. -/
structure HexByte where
  high : Byte
  low : Byte
  high_hex : digitValue high < 16
  low_hex : digitValue low < 16

def HexByte.text (b : HexByte) : List Byte := [b.high, b.low]

/-- What is on the two lines: the bytes, the checksum and its verdict, and a number in
thousandths of a degree. -/
structure W1Slave where
  rom : List HexByte
  rom_length : rom.length = 9
  crc : HexByte
  yes : Bool
  negative : Bool
  digits : List Byte
  digits_ne_nil : digits ≠ []
  isDigit : ∀ b ∈ digits, isDigit b = true
  newline : Bool

section
variable (t : W1Slave)

def W1Slave.pad : List Byte := t.rom.flatMap fun b => b.text ++ bytes " "

def W1Slave.verdict : List Byte := if t.yes then bytes " YES\n" else bytes " NO\n"

def W1Slave.head : List Byte :=
  t.pad ++ bytes ": crc=" ++ t.crc.text ++ t.verdict ++ t.pad ++ bytes "t="

def W1Slave.ending : List Byte := if t.newline then [LF] else []

def W1Slave.text : List Byte := t.head ++ signed t.negative (t.digits ++ t.ending)

def W1Slave.magnitude : Nat := digitsFrom 10 0 t.digits

/-- The number behind `t=`. -/
def W1Slave.integer : Int := if t.negative then -t.magnitude else t.magnitude

/-- Where the first digit stands. -/
def W1Slave.start : Nat := t.head.length + if t.negative then 1 else 0

/-- What is left of the number without its first character. -/
def W1Slave.left : List Byte := if t.negative then t.digits else t.digits.tail

end

/-- What a read delivers: a whole text, or one that ends before the first digit. -/
inductive Delivered where
  | whole (t : W1Slave)
  | cut (t : W1Slave) (k : Nat) (h : k ≤ t.start)

/-- The value of a good reading is the number, there is none of a bad one, and a text that was
cut is turned away without an exception. -/
def Decodes : Delivered → Prop
  | .whole t =>
      if t.yes then ∃ x, busValue floatReader t.text = .ok x ∧ x.number = some (t.integer : Rat)
      else ∀ x, busValue floatReader t.text ≠ .ok x
  | .cut t k _ =>
      (∀ x, busValue floatReader (t.text.take k) ≠ .ok x) ∧
        ∀ e, busValue floatReader (t.text.take k) ≠ .error e

/-- A float holds the number; of a bad reading, nothing is left or it is too large. -/
def Fits : Delivered → Prop
  | .whole t =>
      if t.yes then t.magnitude < limit ∧ Places24 t.magnitude
      else t.left = [] ∨ limit ≤ digitsFrom 10 0 t.left
  | .cut _ _ _ => False

theorem pad_length (t : W1Slave) : t.pad.length = 27 := by
  rw [W1Slave.pad, List.length_flatMap]
  have hmap : t.rom.map (fun b => (b.text ++ bytes " ").length) = t.rom.map fun _ => 3 := rfl
  rw [hmap, List.map_const', t.rom_length]
  rfl

theorem head_length (t : W1Slave) : t.head.length = if t.yes then 69 else 68 := by
  have hcrc : (bytes ": crc=").length = 6 := by decide
  have ht : (bytes "t=").length = 2 := by decide
  have hverdict : t.verdict.length = if t.yes then 5 else 4 := by
    cases h : t.yes <;> simp only [W1Slave.verdict, h] <;> decide
  simp only [W1Slave.head, List.length_append, pad_length, hcrc, ht, hverdict, HexByte.text,
    List.length_cons, List.length_nil]
  split <;> rfl

/-! ## A whole text -/

/-- Texts without a digit. -/
theorem stof_nothing : ∀ s ∈ [[], [LF], [minus]], stof s = none := by
  intro s hs
  have hconverts : converts (cstr s) = false := by
    simp only [List.mem_cons, List.not_mem_nil, or_false] at hs
    rcases hs with rfl | rfl | rfl <;> decide
  simp only [stof, hconverts]
  rfl

theorem ending_plain (t : W1Slave) : Ends t.ending ∧ NUL ∉ t.ending ∧ stof t.ending = none := by
  cases h : t.newline with
  | false =>
    rw [W1Slave.ending, h]
    exact ⟨ends_nil, List.not_mem_nil, stof_nothing _ (by simp)⟩
  | true =>
    rw [W1Slave.ending, h]
    refine ⟨?_, by decide, stof_nothing _ (by simp)⟩
    intro b hb
    obtain rfl : LF = b := by simpa using hb
    decide

theorem busValue_of_drop {s rest : List Byte} (hlen : 69 ≤ s.length) (hdrop : s.drop 69 = rest) :
    busValue floatReader s =
      match stof rest with
      | none => .error .badNumber
      | some x => .ok x := by
  have hreader : floatReader.stof rest = stof rest := rfl
  rw [busValue, if_neg (Nat.not_lt.mpr hlen), hdrop, hreader]
  cases stof rest <;> rfl

/-- A good reading is the number as a float. -/
theorem busValue_good {t : W1Slave} (h : t.yes = true) :
    busValue floatReader t.text =
      if t.magnitude < limit then
        .ok (.finite t.negative (nearest t.magnitude) (nearest_nonneg _))
      else .error .badNumber := by
  have hhead : t.head.length = 69 := by rw [head_length, if_pos h]
  obtain ⟨hends, hnul, -⟩ := ending_plain t
  rw [busValue_of_drop (by rw [W1Slave.text, List.length_append]; omega)
    (by rw [W1Slave.text, ← hhead, List.drop_left]),
    stof_signed t.negative t.isDigit t.digits_ne_nil hends hnul, ← W1Slave.magnitude]
  split_ifs <;> rfl

theorem text_drop_bad {t : W1Slave} (h : t.yes = false) :
    69 ≤ t.text.length ∧ t.text.drop 69 = t.left ++ t.ending := by
  have hhead : t.head.length = 68 := by rw [head_length, if_neg (by rw [h]; decide)]
  have hsplit : t.text.drop 69 = (signed t.negative (t.digits ++ t.ending)).drop 1 := by
    rw [W1Slave.text, show 69 = t.head.length + 1 by omega, ← List.drop_drop, List.drop_left]
  obtain ⟨d, w, hd⟩ := List.exists_cons_of_ne_nil t.digits_ne_nil
  have hlen : 69 ≤ t.text.length := by
    rw [W1Slave.text, List.length_append, hhead, signed, hd]
    simp only [List.length_append, List.length_cons]
    omega
  refine ⟨hlen, ?_⟩
  rw [hsplit, W1Slave.left, hd]
  cases t.negative <;> rfl

/-- A bad reading is read from its second character on. -/
theorem busValue_bad {t : W1Slave} (h : t.yes = false) :
    busValue floatReader t.text =
      if t.left ≠ [] ∧ digitsFrom 10 0 t.left < limit then
        .ok (.finite false (nearest (digitsFrom 10 0 t.left : Nat)) (nearest_nonneg _))
      else .error .badNumber := by
  obtain ⟨hlen, hdrop⟩ := text_drop_bad h
  obtain ⟨hends, hnul, hending⟩ := ending_plain t
  rw [busValue_of_drop hlen hdrop]
  by_cases hleft : t.left = []
  · rw [hleft, List.nil_append, hending, if_neg (by simp)]
  · have hdigits : ∀ b ∈ t.left, isDigit b = true := by
      intro b hb
      rw [W1Slave.left] at hb
      split at hb
      · exact t.isDigit b hb
      · exact t.isDigit b (List.mem_of_mem_tail hb)
    have hstof := stof_signed false hdigits hleft hends hnul
    rw [signed, if_neg (by decide), List.nil_append] at hstof
    rw [hstof]
    by_cases hlt : digitsFrom 10 0 t.left < limit
    · rw [if_pos hlt, if_pos ⟨hleft, hlt⟩]
    · rw [if_neg hlt, if_neg (fun h => hlt h.2)]

/-! ## A text that was cut -/

/-- Nothing or a sign stands behind the 69th character. -/
theorem take_drop_cut (t : W1Slave) {k : Nat} (h : k ≤ t.start) :
    (t.text.take k).drop 69 = [] ∨ (t.text.take k).drop 69 = [minus] := by
  have hhead := head_length t
  rw [W1Slave.start, hhead] at h
  rw [List.drop_take]
  by_cases hk : k ≤ 69
  · exact .inl (by rw [Nat.sub_eq_zero_of_le hk, List.take_zero])
  · have hyes : t.yes = true := by
      by_contra hno
      rw [if_neg hno] at h
      split at h <;> omega
    have hneg : t.negative = true := by
      by_contra hpos
      rw [if_pos hyes, if_neg hpos] at h
      omega
    rw [if_pos hyes] at hhead h
    rw [if_pos hneg] at h
    obtain rfl : k = 70 := by omega
    have hdrop : t.text.drop 69 = signed true (t.digits ++ t.ending) := by
      rw [W1Slave.text, ← hhead, List.drop_left, hneg]
    exact .inr (by rw [hdrop]; rfl)

/-- Without a digit there is no number. -/
theorem busValue_cut (t : W1Slave) {k : Nat} (h : k ≤ t.start) :
    ∃ e, busValue floatReader (t.text.take k) = .error e := by
  by_cases hlen : 69 ≤ (t.text.take k).length
  · refine ⟨.badNumber, ?_⟩
    rw [busValue_of_drop hlen rfl]
    rcases take_drop_cut t h with hnil | hminus
    · rw [hnil, stof_nothing [] (by simp)]
    · rw [hminus, stof_nothing [minus] (by simp)]
  · exact ⟨.outOfRange, if_pos (Nat.not_le.mp hlen)⟩

/-! ## What is decoded -/

theorem number_eq_integer_iff (t : W1Slave) (q : Rat) (h : 0 ≤ q) :
    (CFloat.finite t.negative q h).number = some (t.integer : Rat) ↔ q = t.magnitude := by
  rw [CFloat.number, Option.some.injEq, W1Slave.integer]
  cases t.negative <;> simp

theorem decodes_good {t : W1Slave} (h : t.yes = true) :
    (∃ x, busValue floatReader t.text = .ok x ∧ x.number = some (t.integer : Rat)) ↔
      t.magnitude < limit ∧ Places24 t.magnitude := by
  rw [busValue_good h]
  by_cases hlt : t.magnitude < limit
  · rw [if_pos hlt, and_iff_right hlt, ← nearest_eq_iff,
      ← number_eq_integer_iff t _ (nearest_nonneg _)]
    constructor
    · rintro ⟨x, hx, hnumber⟩
      rwa [Except.ok.inj hx]
    · exact fun hnumber => ⟨_, rfl, hnumber⟩
  · rw [if_neg hlt]
    refine iff_of_false ?_ (fun hfit => hlt hfit.1)
    rintro ⟨x, hx, -⟩
    exact nomatch hx

theorem decodes_bad {t : W1Slave} (h : t.yes = false) :
    (∀ x, busValue floatReader t.text ≠ .ok x) ↔
      t.left = [] ∨ limit ≤ digitsFrom 10 0 t.left := by
  rw [busValue_bad h]
  by_cases hread : t.left ≠ [] ∧ digitsFrom 10 0 t.left < limit
  · rw [if_pos hread]
    refine iff_of_false (fun hall => hall _ rfl) ?_
    rintro (hnil | hle)
    · exact hread.1 hnil
    · omega
  · rw [if_neg hread]
    refine iff_of_true (fun x hx => nomatch hx) ?_
    rw [not_and_or, not_not, Nat.not_lt] at hread
    exact hread

/-- A delivered text is decoded exactly if a float holds what is to be read. -/
theorem w1Decodes_iff (d : Delivered) : Decodes d ↔ Fits d := by
  match d with
  | .cut t k h =>
    obtain ⟨e, he⟩ := busValue_cut t h
    exact iff_of_false (fun hd => hd.2 e he) id
  | .whole t =>
    cases hyes : t.yes with
    | true =>
      simp only [Decodes, Fits, hyes, if_true]
      exact decodes_good hyes
    | false =>
      simp only [Decodes, Fits, hyes, Bool.false_eq_true, if_false]
      exact decodes_bad hyes

/-- What a sensor that does not answer leaves in the file. -/
def disconnected : W1Slave where
  rom := List.replicate 9 ⟨102, 102, by decide, by decide⟩
  rom_length := rfl
  crc := ⟨99, 57, by decide, by decide⟩
  yes := false
  negative := true
  digits := bytes "62"
  digits_ne_nil := by decide
  isDigit := List.all_eq_true.mp (by decide)
  newline := true

theorem disconnected_read :
    disconnected.text = bytes "ff ff ff ff ff ff ff ff ff : crc=c9 NO\n" ++
        bytes "ff ff ff ff ff ff ff ff ff t=-62\n" ∧
      (∃ x, busValue floatReader disconnected.text = .ok x ∧ x.number = some 62) ∧
      ¬ Decodes (.whole disconnected) := by
  have hleft : digitsFrom 10 0 disconnected.left = 62 := by decide
  have hread := busValue_bad (t := disconnected) rfl
  rw [if_pos ⟨by decide, by rw [hleft]; decide⟩] at hread
  refine ⟨by decide, ⟨_, hread, ?_⟩, fun h => ?_⟩
  · rw [hleft, CFloat.number]
    exact congrArg some (nearest_small (by decide))
  · have hnone : ∀ x, busValue floatReader disconnected.text ≠ .ok x := h
    exact hnone _ hread

end PowerGuru.Devices.OnewireBus
