import Mathlib.Data.Nat.Log
import Mathlib.Data.Rat.Floor
import Mathlib.Tactic.FieldSimp
import Mathlib.Tactic.Positivity
import PowerGuru.Lib.Strtol

/-!
# Decimal numerals and `%f`

`%f` keeps six decimals, so what it prints is read back as the number itself
exactly when that number is finite and a multiple of a millionth.
-/
namespace PowerGuru.Lib.Numeral

open Bytes Strtol

def isDigit (b : Byte) : Bool := 48 ≤ b && b ≤ 57

def minus : Byte := 45
def plus : Byte := 43
def point : Byte := 46

/-! ## Reading -/

/-- The value of a text that is digits only. -/
def readDigits (s : List Byte) : Option Nat :=
  if s ≠ [] ∧ s.all isDigit = true then some (digitsFrom 10 0 s) else none

/-- What follows the digits: nothing, or `e` with an integer. -/
def readExponent : List Byte → Option Rat
  | [] => some 1
  | e :: s =>
      if e = 101 ∨ e = 69 then
        if s.head? = some minus then (readDigits s.tail).map fun n => 1 / 10^n
        else if s.head? = some plus then (readDigits s.tail).map fun n => 10^n
        else (readDigits s).map fun n => 10^n
      else none

def readUnsigned (s : List Byte) : Option Rat :=
  let whole := s.takeWhile isDigit
  let s := s.dropWhile isDigit
  let fraction := if s.head? = some point then s.tail.takeWhile isDigit else []
  let s := if s.head? = some point then s.tail.dropWhile isDigit else s
  if whole ++ fraction = [] then none
  else (readExponent s).map fun scale =>
    (digitsFrom 10 0 (whole ++ fraction) : Rat) / 10^fraction.length * scale

/-- A numeral with an optional sign, fraction and exponent. -/
def readNumber (token : List Byte) : Option Rat :=
  if token.head? = some minus then (readUnsigned token.tail).map fun q => -q
  else if token.head? = some plus then readUnsigned token.tail
  else readUnsigned token

/-! ## Numerals -/

/-- Digits, signs, the point and letters. -/
def isNumeral (b : Byte) : Bool :=
  isDigit b || b == minus || b == plus || b == point || (97 ≤ b && b ≤ 122) ||
    (65 ≤ b && b ≤ 90)

theorem readDigits_all {s : List Byte} {n : Nat} (h : readDigits s = some n) :
    s.all isNumeral = true := by
  rw [readDigits] at h
  split at h
  · next hs =>
    rw [List.all_eq_true] at hs ⊢
    intro b hb
    simp [isNumeral, hs.2 b hb]
  · exact absurd h (by simp)

theorem readExponent_all {s : List Byte} {q : Rat} (h : readExponent s = some q) :
    s.all isNumeral = true := by
  cases s with
  | nil => rfl
  | cons e s =>
    rw [readExponent] at h
    split at h
    · next he =>
      have hhead : isNumeral e = true := by
        rcases he with rfl | rfl <;> decide
      rw [List.all_cons, hhead, Bool.true_and]
      split at h
      · next hm =>
        obtain ⟨n, hn, -⟩ := Option.map_eq_some_iff.mp h
        obtain ⟨t, rfl⟩ := List.head?_eq_some_iff.mp hm
        have ht : t.all isNumeral = true := readDigits_all hn
        exact ht
      · split at h
        · next hp =>
          obtain ⟨n, hn, -⟩ := Option.map_eq_some_iff.mp h
          obtain ⟨t, rfl⟩ := List.head?_eq_some_iff.mp hp
          have ht : t.all isNumeral = true := readDigits_all hn
          exact ht
        · obtain ⟨n, hn, -⟩ := Option.map_eq_some_iff.mp h
          exact readDigits_all hn
    · exact absurd h (by simp)

theorem all_takeWhile_digits (s : List Byte) : (s.takeWhile isDigit).all isNumeral = true := by
  rw [List.all_eq_true]
  intro b hb
  simp [isNumeral, List.mem_takeWhile_imp hb]

theorem readUnsigned_all {s : List Byte} {q : Rat} (h : readUnsigned s = some q) :
    s.all isNumeral = true := by
  have hexponent : ∀ {c : Prop} [Decidable c] {t : List Byte} {f : Rat → Rat},
      (if c then none else (readExponent t).map f) = some q → t.all isNumeral = true := by
    intro c _ t f hread
    split at hread
    · exact absurd hread (by simp)
    · obtain ⟨x, hx, -⟩ := Option.map_eq_some_iff.mp hread
      exact readExponent_all hx
  rw [← List.takeWhile_append_dropWhile (p := isDigit) (l := s), List.all_append,
    all_takeWhile_digits, Bool.true_and]
  have hrest := hexponent h
  split at hrest
  · next hp =>
    obtain ⟨t, ht⟩ := List.head?_eq_some_iff.mp hp
    rw [ht, List.tail_cons] at hrest
    rw [ht, List.all_cons, ← List.takeWhile_append_dropWhile (p := isDigit) (l := t),
      List.all_append, all_takeWhile_digits, hrest]
    rfl
  · exact hrest

theorem readNumber_all {s : List Byte} {q : Rat} (h : readNumber s = some q) :
    s.all isNumeral = true := by
  rw [readNumber] at h
  split at h
  · next hm =>
    obtain ⟨x, hx, -⟩ := Option.map_eq_some_iff.mp h
    obtain ⟨t, rfl⟩ := List.head?_eq_some_iff.mp hm
    have ht : t.all isNumeral = true := readUnsigned_all hx
    exact ht
  · split at h
    · next hp =>
      obtain ⟨t, rfl⟩ := List.head?_eq_some_iff.mp hp
      have ht : t.all isNumeral = true := readUnsigned_all h
      exact ht
    · exact readUnsigned_all h

/-- A number as someone wrote it. -/
structure NumberText where
  text : List Byte
  value : Rat
  reads : readNumber text = some value

/-! ## Printing -/

/-- `n` without leading zeros. -/
def decimal (n : Nat) : List Byte := pad (Nat.log 10 n + 1) n

theorem lt_decimal (n : Nat) : n < 10^(Nat.log 10 n + 1) := Nat.lt_pow_succ_log_self (by decide) n

theorem isDigit_digit {d : Nat} (h : d < 10) : isDigit (digit d) = true := by
  interval_cases d <;> decide

theorem isDigit_of_mem_pad {k n : Nat} (hn : n < 10^k) {b : Byte} (hb : b ∈ pad k n) :
    isDigit b = true := by
  induction k generalizing n with
  | zero => exact absurd hb List.not_mem_nil
  | succ k ih =>
    obtain ⟨hd, hr, -⟩ := split_digit hn
    rcases List.mem_cons.mp hb with rfl | hb
    · exact isDigit_digit hd
    · exact ih hr hb

theorem takeWhile_pad {k n : Nat} (hn : n < 10^k) {rest : List Byte}
    (hr : rest.takeWhile isDigit = []) : (pad k n ++ rest).takeWhile isDigit = pad k n := by
  rw [List.takeWhile_append_of_pos fun b hb => isDigit_of_mem_pad hn hb, hr, List.append_nil]

theorem dropWhile_pad {k n : Nat} (hn : n < 10^k) {rest : List Byte}
    (hr : rest.dropWhile isDigit = rest) : (pad k n ++ rest).dropWhile isDigit = rest := by
  rw [List.dropWhile_append_of_pos fun b hb => isDigit_of_mem_pad hn hb, hr]

/-- A `float` or `double`; the sign of a zero and of a NaN is printed. -/
inductive CFloat where
  | finite (negative : Bool) (magnitude : Rat) (nonneg : 0 ≤ magnitude)
  | infinite (negative : Bool)
  | nan (negative : Bool)
  deriving DecidableEq

/-- The number it stands for. -/
def CFloat.number : CFloat → Option Rat
  | .finite negative magnitude _ => some (if negative then -magnitude else magnitude)
  | _ => none

/-- The nearest natural number, and the even one of two. -/
def roundHalfEven (q : Rat) : Nat :=
  let f := ⌊q⌋₊
  if q - f < 1/2 then f
  else if 1/2 < q - f then f + 1
  else if f % 2 = 0 then f
  else f + 1

theorem roundHalfEven_natCast (n : Nat) : roundHalfEven n = n := by
  simp [roundHalfEven]

/-- The magnitude in millionths. -/
def fixed (magnitude : Rat) : List Byte :=
  let n := roundHalfEven (magnitude * 10^6)
  decimal (n / 10^6) ++ point :: pad 6 (n % 10^6)

/-- `std::to_string`, that is `%f`. -/
def CFloat.toString (x : CFloat) : List Byte :=
  match x with
  | .finite negative magnitude _ => (if negative then [minus] else []) ++ fixed magnitude
  | .infinite negative => (if negative then [minus] else []) ++ bytes "inf"
  | .nan negative => (if negative then [minus] else []) ++ bytes "nan"

/-- A finite number of millionths. -/
def CFloat.Micro : CFloat → Prop
  | .finite _ magnitude _ => (magnitude * 10^6).den = 1
  | _ => False

/-! ## Printing and reading back -/

theorem readUnsigned_fixed (magnitude : Rat) :
    readUnsigned (fixed magnitude) = some ((roundHalfEven (magnitude * 10^6) : Rat) / 10^6) := by
  unfold fixed
  generalize roundHalfEven (magnitude * 10^6) = n
  have hlt : n % 10^6 < 10^6 := Nat.mod_lt _ (by decide)
  have hwhole := takeWhile_pad (lt_decimal (n / 10^6))
    (show (point :: pad 6 (n % 10^6)).takeWhile isDigit = [] from rfl)
  have hrest := dropWhile_pad (lt_decimal (n / 10^6))
    (show (point :: pad 6 (n % 10^6)).dropWhile isDigit = point :: pad 6 (n % 10^6) from rfl)
  have hfraction := takeWhile_pad hlt (show ([] : List Byte).takeWhile isDigit = [] from rfl)
  have hend := dropWhile_pad hlt (show ([] : List Byte).dropWhile isDigit = [] from rfl)
  rw [List.append_nil] at hfraction hend
  have hdigits : digitsFrom 10 0 (decimal (n / 10^6) ++ pad 6 (n % 10^6)) = n := by
    rw [decimal, digitsFrom_pad (lt_decimal _), ← List.append_nil (pad 6 _),
      decimal_pad hlt stops_nil]
    omega
  have hne : decimal (n / 10^6) ++ pad 6 (n % 10^6) ≠ [] := by simp [decimal, pad]
  simp only [readUnsigned]
  rw [show decimal (n / 10^6) = pad (Nat.log 10 (n / 10^6) + 1) (n / 10^6) from rfl] at *
  rw [hwhole, hrest]
  simp only [List.head?_cons, List.tail_cons, if_true, hfraction, hend, if_neg hne, hdigits,
    pad_length, readExponent, Option.map_some, mul_one]

theorem head?_fixed (magnitude : Rat) : ∃ d < 10, (fixed magnitude).head? = some (digit d) := by
  unfold fixed
  generalize roundHalfEven (magnitude * 10^6) = n
  obtain ⟨hd, -, -⟩ := split_digit (lt_decimal (n / 10^6))
  exact ⟨_, hd, rfl⟩

theorem readNumber_fixed (negative : Bool) (magnitude : Rat) :
    readNumber ((if negative then [minus] else []) ++ fixed magnitude) =
      some (if negative then -((roundHalfEven (magnitude * 10^6) : Rat) / 10^6)
        else (roundHalfEven (magnitude * 10^6) : Rat) / 10^6) := by
  cases negative with
  | true => simp [readNumber, readUnsigned_fixed]
  | false =>
    obtain ⟨d, hd, hhead⟩ := head?_fixed magnitude
    obtain ⟨-, -, -, -, -, -, hminus, hplus, -, -⟩ := digit_cases hd
    have hm : digit d ≠ minus := hminus
    have hp : digit d ≠ plus := hplus
    simp [readNumber, hhead, hm, hp, readUnsigned_fixed]

/-- A number of millionths survives six decimals, and no other does. -/
theorem roundHalfEven_eq_iff {magnitude : Rat} (hn : 0 ≤ magnitude) :
    (roundHalfEven (magnitude * 10^6) : Rat) / 10^6 = magnitude ↔ (magnitude * 10^6).den = 1 := by
  have hpos : (10 : Rat)^6 ≠ 0 := by norm_num
  rw [div_eq_iff hpos]
  constructor
  · intro h
    rw [← h]
    exact Rat.den_natCast _
  · intro h
    have hint : ((magnitude * 10^6).num : Rat) = magnitude * 10^6 := Rat.den_eq_one_iff _ |>.mp h
    have hnum : 0 ≤ (magnitude * 10^6).num := Rat.num_nonneg.mpr (by positivity)
    obtain ⟨k, hk⟩ := Int.eq_ofNat_of_zero_le hnum
    rw [hk] at hint
    rw [← hint]
    exact congrArg Nat.cast (roundHalfEven_natCast k)

/-- `%f` is read back as the number printed exactly when it is a finite number of
millionths. -/
theorem readNumber_toString_iff (x : CFloat) :
    (∃ q, readNumber x.toString = some q ∧ x.number = some q) ↔ x.Micro := by
  cases x with
  | finite negative magnitude nonneg =>
    have hiff := roundHalfEven_eq_iff nonneg
    simp only [CFloat.toString, readNumber_fixed, CFloat.number, CFloat.Micro, Option.some.injEq,
      exists_eq_left', ← hiff]
    cases negative <;> simp [eq_comm]
  | infinite negative => simp [CFloat.number, CFloat.Micro]
  | nan negative => simp [CFloat.number, CFloat.Micro]

theorem number_of_micro {x : CFloat} (h : x.Micro) : ∃ q, x.number = some q := by
  obtain ⟨q, -, hq⟩ := (readNumber_toString_iff x).mpr h
  exact ⟨q, hq⟩

theorem isNumeral_of_mem_pad {k n : Nat} (hn : n < 10^k) {b : Byte} (hb : b ∈ pad k n) :
    isNumeral b = true := by
  simp [isNumeral, isDigit_of_mem_pad hn hb]

theorem isNumeral_toString (x : CFloat) : x.toString.all isNumeral = true := by
  have hsign : ∀ negative : Bool, (if negative then [minus] else []).all isNumeral = true := by
    decide
  cases x with
  | finite negative magnitude nonneg =>
    rw [CFloat.toString, List.all_append, hsign, Bool.true_and, fixed, List.all_eq_true]
    intro b hb
    rcases List.mem_append.mp hb with hb | hb
    · exact isNumeral_of_mem_pad (lt_decimal _) hb
    · rcases List.mem_cons.mp hb with rfl | hb
      · rfl
      · exact isNumeral_of_mem_pad (Nat.mod_lt _ (by decide)) hb
  | infinite negative => rw [CFloat.toString, List.all_append, hsign]; decide
  | nan negative => rw [CFloat.toString, List.all_append, hsign]; decide

end PowerGuru.Lib.Numeral
