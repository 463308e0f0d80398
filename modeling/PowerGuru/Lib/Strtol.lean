import Mathlib.Tactic.IntervalCases
import Mathlib.Tactic.Ring
import Mathlib.Tactic.Linarith
import PowerGuru.Lib.Bytes

/-!
# `strtol` and zero-padded decimals

With base 0 a leading zero selects octal, and the first character that is no
digit of the selected base ends the number. A zero-padded decimal is therefore
read back exactly when nothing was padded or a single octal digit is left.
-/
namespace PowerGuru.Lib.Strtol

open Bytes

/-- `isspace` in the C locale. -/
def isSpace (b : Byte) : Bool := b == 32 || (9 ≤ b && b ≤ 13)

/-- Digit characters in any base, letters counting from ten; 36 is no digit. -/
def digitValue (b : Byte) : Nat :=
  if 48 ≤ b && b ≤ 57 then b.toNat - 48
  else if 97 ≤ b && b ≤ 122 then b.toNat - 87
  else if 65 ≤ b && b ≤ 90 then b.toNat - 55
  else 36

/-- The longest run of digits of the base, after the ones already read. -/
def digitsFrom (base : Nat) : Nat → List Byte → Nat
  | acc, [] => acc
  | acc, b :: bs =>
      if digitValue b < base then digitsFrom base (acc * base + digitValue b) bs else acc

/-- `0x` counts as a prefix only when a hexadecimal digit follows. -/
def hexPrefixed (s : List Byte) : Bool :=
  s[0]? == some 48 && (s[1]? == some 120 || s[1]? == some 88) &&
    (match s[2]? with
     | some d => digitValue d < 16
     | none => false)

/-- The digits after white space and sign. -/
def magnitude (base : Nat) (s : List Byte) : Nat :=
  if (base = 0 ∨ base = 16) ∧ hexPrefixed s = true then digitsFrom 16 0 (s.drop 2)
  else if base = 0 then digitsFrom (if s.head? = some 48 then 8 else 10) 0 s
  else digitsFrom base 0 s

/-- Values outside `long` are clamped. -/
def clampLong (x : Int) : Int := max (-2^63) (min (2^63 - 1) x)

def strtol (s : List Byte) (base : Nat) : Int :=
  let s := s.dropWhile isSpace
  clampLong (if s.head? = some 45 then -(magnitude base s.tail : Int)
    else if s.head? = some 43 then magnitude base s.tail
    else magnitude base s)

/-- The conversion from `long` to `int`. -/
def toInt (x : Int) : Int := Int.bmod x (2^32)

theorem toInt_of_small {n : Nat} (h : n < 2^31) : toInt n = n := by
  unfold toInt
  rw [Int.bmod_def]
  omega

/-! ## Zero-padded decimals -/

def digit (d : Nat) : Byte := UInt8.ofNat (48 + d)

/-- `n` in `w` characters, zero-padded. -/
def pad : Nat → Nat → List Byte
  | 0, _ => []
  | w + 1, n => digit (n / 10^w) :: pad w (n % 10^w)

@[simp] theorem pad_length (w n : Nat) : (pad w n).length = w := by
  induction w generalizing n with
  | zero => rfl
  | succ w ih => simp [pad, ih]

theorem digit_cases {d : Nat} (h : d < 10) : digitValue (digit d) = d ∧ digit d ≠ NUL ∧
    digit d ≠ LF ∧ digit d ≠ CR ∧ digit d < 128 ∧ isSpace (digit d) = false ∧
    digit d ≠ 45 ∧ digit d ≠ 43 ∧ digit d ≠ 120 ∧ digit d ≠ 88 := by
  interval_cases d <;> decide

theorem digitValue_digit {d : Nat} (h : d < 10) : digitValue (digit d) = d := (digit_cases h).1

theorem digit_eq_zero_iff {d : Nat} (h : d < 10) : digit d = 48 ↔ d = 0 := by
  interval_cases d <;> decide

/-- Nothing that continues a number stands at the front. -/
def Stops (rest : List Byte) : Prop := ∀ b ∈ rest.head?, digitValue b = 36

theorem stops_nil : Stops [] := by simp [Stops]

theorem stops_comma (rest : List Byte) : Stops (comma :: rest) := by
  intro b hb
  obtain rfl : comma = b := by simpa using hb
  decide

theorem digitsFrom_stops {base : Nat} (hb : base ≤ 36) (acc : Nat) {rest : List Byte}
    (hs : Stops rest) : digitsFrom base acc rest = acc := by
  cases rest with
  | nil => rfl
  | cons b bs =>
    have hv : digitValue b = 36 := hs b rfl
    simp [digitsFrom, hv, hb]

theorem digitsFrom_digit {base d : Nat} (hd : d < 10) (acc : Nat) (bs : List Byte) :
    digitsFrom base acc (digit d :: bs) =
      if d < base then digitsFrom base (acc * base + d) bs else acc := by
  rw [digitsFrom, digitValue_digit hd]

theorem split_digit {k n : Nat} (h : n < 10^(k+1)) :
    n / 10^k < 10 ∧ n % 10^k < 10^k ∧ n = n / 10^k * 10^k + n % 10^k := by
  have hp : 0 < 10^k := Nat.pos_of_ne_zero (by positivity)
  refine ⟨Nat.div_lt_of_lt_mul ?_, Nat.mod_lt _ hp, (Nat.div_add_mod' n (10^k)).symm⟩
  rwa [pow_succ] at h

theorem digitsFrom_pad {k n : Nat} (hn : n < 10^k) (rest : List Byte) (acc : Nat) :
    digitsFrom 10 acc (pad k n ++ rest) = digitsFrom 10 (acc * 10^k + n) rest := by
  induction k generalizing n acc with
  | zero =>
    obtain rfl : n = 0 := by simpa using hn
    simp [pad]
  | succ k ih =>
    obtain ⟨hd, hr, hsplit⟩ := split_digit hn
    have hval : (acc * 10 + n / 10^k) * 10^k + n % 10^k = acc * 10^(k+1) + n := by
      conv_rhs => rw [hsplit]
      ring
    rw [pad, List.cons_append, digitsFrom_digit hd, if_pos hd, ih hr, hval]

theorem decimal_pad {k n : Nat} (hn : n < 10^k) {rest : List Byte} (hs : Stops rest) (acc : Nat) :
    digitsFrom 10 acc (pad k n ++ rest) = acc * 10^k + n := by
  rw [digitsFrom_pad hn, digitsFrom_stops (by decide) _ hs]

/-- So many digits make no greater number. -/
theorem digitsFrom_lt {base : Nat} (hb : 0 < base) (acc : Nat) (ds : List Byte) :
    digitsFrom base acc ds < (acc + 1) * base^ds.length := by
  induction ds generalizing acc with
  | nil => simp [digitsFrom]
  | cons d ds ih =>
    have hp : 0 < base^ds.length := Nat.pow_pos hb
    rw [digitsFrom, List.length_cons]
    split
    · next hd =>
      calc digitsFrom base (acc * base + digitValue d) ds
          < (acc * base + digitValue d + 1) * base^ds.length := ih _
        _ ≤ ((acc + 1) * base) * base^ds.length := by
            gcongr
            rw [Nat.add_mul]
            omega
        _ = (acc + 1) * base^(ds.length + 1) := by ring
    · calc acc < acc + 1 := Nat.lt_succ_self acc
        _ = (acc + 1) * 1 := (mul_one _).symm
        _ ≤ (acc + 1) * base^(ds.length + 1) := by
            gcongr
            exact Nat.one_le_pow _ _ hb

/-- Reading in octal never gains: each place counts less than in decimal. -/
theorem octal_pad_le {k n : Nat} (hn : n < 10^k) {rest : List Byte} (hs : Stops rest) (acc : Nat) :
    digitsFrom 8 acc (pad k n ++ rest) ≤ acc * 10^k + n := by
  induction k generalizing n acc with
  | zero =>
    rw [show pad 0 n ++ rest = rest from rfl, digitsFrom_stops (by decide) acc hs]
    simp
  | succ k ih =>
    obtain ⟨hd, hr, hsplit⟩ := split_digit hn
    have hp : 1 ≤ 10^k := Nat.one_le_pow _ _ (by decide)
    rw [pad, List.cons_append, digitsFrom_digit hd]
    split
    · calc digitsFrom 8 (acc * 8 + n / 10^k) (pad k (n % 10^k) ++ rest)
          ≤ (acc * 8 + n / 10^k) * 10^k + n % 10^k := ih hr _
        _ ≤ (acc * 10 + n / 10^k) * 10^k + n % 10^k := by gcongr; omega
        _ = acc * 10^(k+1) + (n / 10^k * 10^k + n % 10^k) := by ring
        _ = acc * 10^(k+1) + n := by rw [← hsplit]
    · calc acc = acc * 1 := (mul_one acc).symm
        _ ≤ acc * 10^(k+1) := by gcongr; exact Nat.one_le_pow _ _ (by decide)
        _ ≤ acc * 10^(k+1) + n := Nat.le_add_right _ _

/-- Once a nonzero octal digit has been read, one more place already loses. -/
theorem octal_pad_lt {k n : Nat} (hn : n < 10^(k+1)) {rest : List Byte} (hs : Stops rest)
    {acc : Nat} (ha : 0 < acc) :
    digitsFrom 8 acc (pad (k+1) n ++ rest) < acc * 10^(k+1) + n := by
  obtain ⟨hd, hr, hsplit⟩ := split_digit hn
  have hp : 1 ≤ 10^k := Nat.one_le_pow _ _ (by decide)
  rw [pad, List.cons_append, digitsFrom_digit hd]
  split
  · calc digitsFrom 8 (acc * 8 + n / 10^k) (pad k (n % 10^k) ++ rest)
        ≤ (acc * 8 + n / 10^k) * 10^k + n % 10^k := octal_pad_le hr hs _
      _ < (acc * 10 + n / 10^k) * 10^k + n % 10^k := by
          gcongr 1
          exact Nat.mul_lt_mul_of_pos_right (by omega) hp
      _ = acc * 10^(k+1) + (n / 10^k * 10^k + n % 10^k) := by ring
      _ = acc * 10^(k+1) + n := by rw [← hsplit]
  · have h10 : 10 ≤ 10^(k+1) := by rw [pow_succ]; omega
    nlinarith

theorem octal_pad_eq_iff {k n : Nat} (hn : n < 10^k) {rest : List Byte} (hs : Stops rest) :
    digitsFrom 8 0 (pad k n ++ rest) = n ↔ n ≤ 7 := by
  induction k generalizing n with
  | zero =>
    obtain rfl : n = 0 := by simpa using hn
    simpa [pad] using digitsFrom_stops (by decide) 0 hs
  | succ k ih =>
    obtain ⟨hd, hr, hsplit⟩ := split_digit hn
    rw [pad, List.cons_append, digitsFrom_digit hd, Nat.zero_mul, Nat.zero_add]
    by_cases hz : n / 10^k = 0
    · have hnr : n % 10^k = n := by rw [hz] at hsplit; omega
      rw [hz, if_pos (by decide), hnr, ih (hnr ▸ hr)]
    · have hpos : 0 < n / 10^k := Nat.pos_of_ne_zero hz
      cases k with
      | zero =>
        have h1 : n / 10^0 = n := by simp
        have h0 : n % 10^0 = 0 := by simp [Nat.mod_one]
        rw [h1, h0] at *
        rw [show pad 0 0 ++ rest = rest from rfl]
        split
        · rw [digitsFrom_stops (by decide) n hs]; omega
        · omega
      | succ k =>
        have hbig : 10 ≤ n := by
          have hp : 1 ≤ 10^k := Nat.one_le_pow _ _ (by decide)
          have hle : 1 * 10^(k+1) ≤ n / 10^(k+1) * 10^(k+1) := Nat.mul_le_mul_right _ hpos
          rw [pow_succ] at *
          omega
        constructor
        · intro he
          exfalso
          split at he
          · have hlt := octal_pad_lt hr hs hpos
            omega
          · omega
        · intro h; omega

/-- No `x` follows the first digit, whatever the number ends with. -/
theorem hexPrefixed_pad {w n : Nat} (hn : n < 10^(w+1)) {rest : List Byte} (hs : Stops rest) :
    hexPrefixed (pad (w+1) n ++ rest) = false := by
  have hx : ∀ b, (pad (w+1) n ++ rest)[1]? = some b → b ≠ 120 ∧ b ≠ 88 := by
    intro b hb
    obtain ⟨-, hr, -⟩ := split_digit hn
    cases w with
    | zero =>
      have hv : digitValue b = 36 := hs b (by simpa [pad, List.head?_eq_getElem?] using hb)
      exact ⟨fun he => by rw [he] at hv; exact absurd hv (by decide),
        fun he => by rw [he] at hv; exact absurd hv (by decide)⟩
    | succ w =>
      obtain ⟨hd, -, -⟩ := split_digit hr
      obtain rfl : digit (n % 10^(w+1) / 10^w) = b := by simpa [pad] using hb
      obtain ⟨-, -, -, -, -, -, -, -, h120, h88⟩ := digit_cases hd
      exact ⟨h120, h88⟩
  cases h1 : (pad (w+1) n ++ rest)[1]? with
  | none => simp [hexPrefixed, h1]
  | some b =>
    obtain ⟨h120, h88⟩ := hx b h1
    simp [hexPrefixed, h1, h120, h88]

theorem strtol_pad {w n : Nat} (hn : n < 10^(w+1)) {rest : List Byte} (hs : Stops rest) :
    strtol (pad (w+1) n ++ rest) 0 =
      clampLong (digitsFrom (if n / 10^w = 0 then 8 else 10) 0 (pad (w+1) n ++ rest)) := by
  obtain ⟨hd, -, -⟩ := split_digit hn
  obtain ⟨-, -, -, -, -, hspace, hminus, hplus, -, -⟩ := digit_cases hd
  have hcons : pad (w+1) n ++ rest = digit (n / 10^w) :: (pad w (n % 10^w) ++ rest) := rfl
  have hdrop : (pad (w+1) n ++ rest).dropWhile isSpace = pad (w+1) n ++ rest := by
    rw [hcons, List.dropWhile_cons, hspace]
    rfl
  have hhead : (pad (w+1) n ++ rest).head? = some (digit (n / 10^w)) := rfl
  simp only [strtol, hdrop, hhead, Option.some.injEq, hminus, hplus, if_false, magnitude,
    hexPrefixed_pad hn hs, digit_eq_zero_iff hd, Bool.false_eq_true, and_false, if_true]

theorem clampLong_of_small {n : Nat} (h : n < 2^31) : clampLong n = n := by
  unfold clampLong
  omega

/-- Base 0 never reads a zero-padded decimal as more than it is. -/
theorem strtol_pad_le {w n : Nat} (hn : n < 10^(w+1)) (hlim : n < 2^31) {rest : List Byte}
    (hs : Stops rest) : ∃ v ≤ n, toInt (strtol (pad (w+1) n ++ rest) 0) = (v : Int) := by
  have hle : digitsFrom (if n / 10^w = 0 then 8 else 10) 0 (pad (w+1) n ++ rest) ≤ n := by
    split
    · simpa using octal_pad_le hn hs 0
    · simpa using (decimal_pad hn hs 0).le
  refine ⟨_, hle, ?_⟩
  rw [strtol_pad hn hs, clampLong_of_small (by omega), toInt_of_small (by omega)]

/-- Base 0 reads a zero-padded decimal back exactly when it fills its field or is
a single octal digit. -/
theorem strtol_pad_eq_iff {w n : Nat} (hn : n < 10^(w+1)) (hlim : n < 2^31) {rest : List Byte}
    (hs : Stops rest) :
    toInt (strtol (pad (w+1) n ++ rest) 0) = n ↔ n ≤ 7 ∨ 10^w ≤ n := by
  have hp : 0 < 10^w := Nat.pos_of_ne_zero (by positivity)
  by_cases hz : n / 10^w = 0
  · have hlt : n < 10^w := (Nat.div_eq_zero_iff_lt hp).mp hz
    have hle : digitsFrom 8 0 (pad (w+1) n ++ rest) ≤ n := by simpa using octal_pad_le hn hs 0
    rw [strtol_pad hn hs, if_pos hz, clampLong_of_small (by omega), toInt_of_small (by omega),
      Nat.cast_inj, octal_pad_eq_iff hn hs]
    omega
  · have hge : 10^w ≤ n := by
      by_contra hlt
      exact hz ((Nat.div_eq_zero_iff_lt hp).mpr (by omega))
    have hval : digitsFrom 10 0 (pad (w+1) n ++ rest) = n := by simpa using decimal_pad hn hs 0
    rw [strtol_pad hn hs, if_neg hz, hval, clampLong_of_small hlim, toInt_of_small hlim]
    simp [hge]

/-! ## Digits without a leading zero -/

/-- The number these digits make, behind the ones already read. -/
def number (ds : List Nat) (acc : Nat) : Nat := ds.foldl (fun n d => n * 10 + d) acc

theorem digitsFrom_number {ds : List Nat} (h : ∀ d ∈ ds, d < 10) (acc : Nat) :
    digitsFrom 10 acc (ds.map digit) = number ds acc := by
  induction ds generalizing acc with
  | nil => rfl
  | cons d ds ih =>
    have hd : d < 10 := h d List.mem_cons_self
    have hds : ∀ e ∈ ds, e < 10 := fun e he => h e (List.mem_cons_of_mem d he)
    rw [List.map_cons, digitsFrom_digit hd, if_pos hd, ih hds]
    rfl

/-- Digits of which none is zero are never taken for octal. -/
theorem strtol_number {ds : List Nat} (h : ∀ d ∈ ds, d ≠ 0 ∧ d < 10) :
    strtol (ds.map digit) 0 = clampLong (number ds 0) := by
  have hlt : ∀ d ∈ ds, d < 10 := fun d hd => (h d hd).2
  cases ds with
  | nil => rfl
  | cons d ds =>
    obtain ⟨hzero, hd⟩ := h d List.mem_cons_self
    obtain ⟨-, -, -, -, -, hspace, hminus, hplus, -, -⟩ := digit_cases hd
    have hne : digit d ≠ 48 := fun he => hzero ((digit_eq_zero_iff hd).mp he)
    have hhex : hexPrefixed ((d :: ds).map digit) = false := by simp [hexPrefixed, hne]
    have hdrop : ((d :: ds).map digit).dropWhile isSpace = (d :: ds).map digit := by
      rw [List.map_cons, List.dropWhile_cons, hspace]
      rfl
    have hhead : ((d :: ds).map digit).head? = some (digit d) := rfl
    simp only [strtol, hdrop, hhead, Option.some.injEq, hminus, hplus, hne, if_false, magnitude,
      hhex, Bool.false_eq_true, and_false, if_true, digitsFrom_number hlt]

end PowerGuru.Lib.Strtol
