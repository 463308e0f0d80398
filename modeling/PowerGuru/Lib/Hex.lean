import Mathlib.Data.List.Induction
import Mathlib.Data.Nat.Digits.Defs
import PowerGuru.Lib.Strtol

/-!
# Hexadecimal numbers of a fixed width

The digits are written in upper case and read in either.
-/
namespace PowerGuru.Lib.Hex

open Bytes Strtol

def upperDigit (d : Nat) : Byte := UInt8.ofNat (if d < 10 then 48 + d else 55 + d)

/-- `toupper`. -/
def toUpper (b : Byte) : Byte := if 97 ≤ b && b ≤ 122 then b - 32 else b

/-- The last `w` digits. -/
def fixed : Nat → Nat → List Byte
  | 0, _ => []
  | w + 1, n => fixed w (n / 16) ++ [upperDigit (n % 16)]

@[simp] theorem length_fixed (w n : Nat) : (fixed w n).length = w := by
  induction w generalizing n with
  | zero => rfl
  | succ w ih => simp [fixed, ih]

/-- Every digit is one. -/
theorem mem_fixed {w n : Nat} {b : Byte} (h : b ∈ fixed w n) : ∃ d < 16, b = upperDigit d := by
  induction w generalizing n with
  | zero => exact absurd h List.not_mem_nil
  | succ w ih =>
    rcases List.mem_append.mp h with hlow | hlast
    · exact ih hlow
    · exact ⟨n % 16, Nat.mod_lt n (by decide), List.mem_singleton.mp hlast⟩

theorem fixed_zero (w : Nat) : fixed w 0 = List.replicate w 48 := by
  induction w with
  | zero => rfl
  | succ w ih =>
    rw [fixed, Nat.zero_div, ih, List.replicate_succ']
    rfl

/-! ## Writing -/

theorem upper_digitChar {d : Nat} (h : d < 16) :
    (Nat.digitChar d).toUpper.toNat.toUInt8 = upperDigit d := by
  interval_cases d <;> decide

/-- A number that fits is filled up with zeros to the width. -/
theorem leftpad_toDigits {w n : Nat} (hw : 0 < w) (hn : n < 16^w) :
    ((Nat.toDigits 16 n).map fun c => c.toUpper.toNat.toUInt8).leftpad w 48 = fixed w n := by
  induction w generalizing n with
  | zero => exact absurd hw (Nat.lt_irrefl 0)
  | succ w ih =>
    by_cases hlt : n < 16
    · rw [Nat.toDigits_of_lt_base hlt, fixed, Nat.div_eq_of_lt hlt, fixed_zero,
        Nat.mod_eq_of_lt hlt]
      simp [List.leftpad, upper_digitChar hlt]
    · have hpos : 0 < w := by
        rcases Nat.eq_zero_or_pos w with rfl | hpos
        · exact absurd (by simpa using hn) hlt
        · exact hpos
      have hdiv : n / 16 < 16^w := by
        rw [Nat.pow_succ] at hn
        exact Nat.div_lt_of_lt_mul (by rwa [Nat.mul_comm] at hn)
      rw [Nat.toDigits_of_base_le (by decide) (by omega), fixed, ← ih hpos hdiv]
      simp [List.leftpad, upper_digitChar (Nat.mod_lt n (by decide : 0 < 16))]

/-! ## Reading -/

theorem upperDigit_digitValue {b : Byte} (h : digitValue b < 16) :
    upperDigit (digitValue b) = toUpper b := by
  have hall : ∀ n < 256, digitValue (UInt8.ofNat n) < 16 →
      upperDigit (digitValue (UInt8.ofNat n)) = toUpper (UInt8.ofNat n) := by decide +kernel
  have hb := hall b.toNat b.toNat_lt
  rw [UInt8.ofNat_toNat] at hb
  exact hb h

theorem digitsFrom_snoc {base : Nat} {ds : List Byte} (hds : ∀ b ∈ ds, digitValue b < base)
    {d : Byte} (hd : digitValue d < base) (acc : Nat) :
    digitsFrom base acc (ds ++ [d]) = digitsFrom base acc ds * base + digitValue d := by
  induction ds generalizing acc with
  | nil => simp [digitsFrom, hd]
  | cons b ds ih =>
    obtain ⟨hb, hds⟩ := List.forall_mem_cons.mp hds
    rw [List.cons_append, digitsFrom, if_pos hb, ih hds, digitsFrom, if_pos hb]

theorem digitValue_toUpper {b : Byte} (h : digitValue b < 16) :
    digitValue (toUpper b) < 16 ∧ toUpper (toUpper b) = toUpper b := by
  have hall : ∀ n < 256, digitValue (UInt8.ofNat n) < 16 →
      digitValue (toUpper (UInt8.ofNat n)) < 16 ∧
        toUpper (toUpper (UInt8.ofNat n)) = toUpper (UInt8.ofNat n) := by decide +kernel
  have hb := hall b.toNat b.toNat_lt
  rw [UInt8.ofNat_toNat] at hb
  exact hb h

/-- What is read is written in upper case. -/
theorem fixed_digitsFrom {ds : List Byte} (h : ∀ b ∈ ds, digitValue b < 16) :
    fixed ds.length (digitsFrom 16 0 ds) = ds.map toUpper := by
  induction ds using List.reverseRecOn with
  | nil => rfl
  | append_singleton ds d ih =>
    obtain ⟨hds, hd⟩ := List.forall_mem_append.mp h
    have hd := hd d List.mem_cons_self
    have hdiv : (digitsFrom 16 0 ds * 16 + digitValue d) / 16 = digitsFrom 16 0 ds := by omega
    have hmod : (digitsFrom 16 0 ds * 16 + digitValue d) % 16 = digitValue d := by omega
    rw [digitsFrom_snoc hds hd, List.length_append, List.length_singleton, fixed, hdiv, hmod,
      ih hds, upperDigit_digitValue hd, List.map_append, List.map_singleton]

/-! ## Two digits a byte -/

def pair (b : Nat) : List Byte := [upperDigit (b / 16), upperDigit (b % 16)]

/-- The last `k` bytes, the last one first. -/
def bytesOf : Nat → Nat → List Nat
  | 0, _ => []
  | k + 1, n => n % 256 :: bytesOf k (n / 256)

/-- Pairs of digits in the opposite order. -/
def byteReversed : List Byte → List Byte
  | a :: b :: rest => byteReversed rest ++ [a, b]
  | _ => []

@[simp] theorem length_bytesOf (k n : Nat) : (bytesOf k n).length = k := by
  induction k generalizing n with
  | zero => rfl
  | succ k ih => rw [bytesOf, List.length_cons, ih]

theorem bytesOf_lt (k n : Nat) : ∀ b ∈ bytesOf k n, b < 256 := by
  induction k generalizing n with
  | zero => exact fun b hb => absurd hb List.not_mem_nil
  | succ k ih => exact List.forall_mem_cons.mpr ⟨Nat.mod_lt n (by decide), ih (n / 256)⟩

theorem ofDigits_bytesOf {k n : Nat} (h : n < 256^k) : Nat.ofDigits 256 (bytesOf k n) = n := by
  induction k generalizing n with
  | zero =>
    obtain rfl : n = 0 := by simpa using h
    rfl
  | succ k ih =>
    have hdiv : n / 256 < 256^k := by
      rw [Nat.pow_succ] at h
      exact Nat.div_lt_of_lt_mul (by rwa [Nat.mul_comm] at h)
    rw [bytesOf, Nat.ofDigits_cons, ih hdiv]
    exact Nat.mod_add_div n 256

theorem ofDigits_lt {bs : List Nat} (h : ∀ b ∈ bs, b < 256) :
    Nat.ofDigits 256 bs < 256^bs.length := by
  induction bs with
  | nil => simp
  | cons b bs ih =>
    obtain ⟨hb, hbs⟩ := List.forall_mem_cons.mp h
    have hlt := ih hbs
    rw [Nat.ofDigits_cons, List.length_cons, Nat.pow_succ]
    omega

theorem fixed_ofDigits {bs : List Nat} (h : ∀ b ∈ bs, b < 256) :
    fixed (2 * bs.length) (Nat.ofDigits 256 bs) = bs.reverse.flatMap pair := by
  induction bs with
  | nil => rfl
  | cons b bs ih =>
    obtain ⟨hb, hbs⟩ := List.forall_mem_cons.mp h
    have hdiv : (b + 256 * Nat.ofDigits 256 bs) / 16 / 16 = Nat.ofDigits 256 bs := by omega
    have hhigh : (b + 256 * Nat.ofDigits 256 bs) / 16 % 16 = b / 16 := by omega
    have hlow : (b + 256 * Nat.ofDigits 256 bs) % 16 = b % 16 := by omega
    rw [Nat.ofDigits_cons, List.length_cons, Nat.mul_succ, fixed, fixed, hdiv, hhigh, hlow, ih hbs,
      List.append_assoc, List.reverse_cons, List.flatMap_append]
    rfl

theorem byteReversed_pairs (bs : List Nat) :
    byteReversed (bs.flatMap pair) = bs.reverse.flatMap pair := by
  induction bs with
  | nil => rfl
  | cons b bs ih =>
    rw [List.reverse_cons, List.flatMap_append, ← ih]
    rfl

end PowerGuru.Lib.Hex
