import Mathlib.Algebra.Group.Nat.Defs
import Mathlib.Data.List.Basic

/-!
# `repr` of Python texts

A text is put between single quotes, between double quotes only if that saves
backslashes. What is printable beyond ASCII is left open.
-/
namespace PowerGuru.Lib.PyRepr

abbrev Text := List Char

def singleQuote : Char := '\x27'
def doubleQuote : Char := '\x22'
def backslash : Char := '\x5c'

/-- So many digits to a base. -/
def fixedDigits (base : Nat) : Nat → Nat → Text
  | 0, _ => []
  | w + 1, n => Nat.digitChar (n / base^w) :: fixedDigits base w (n % base^w)

/-- `\x`, `\u` or `\U` with the code. -/
def escapeCode (c : Char) : Text :=
  if c.toNat < 0x100 then backslash :: 'x' :: fixedDigits 16 2 c.toNat
  else if c.toNat < 0x10000 then backslash :: 'u' :: fixedDigits 16 4 c.toNat
  else backslash :: 'U' :: fixedDigits 16 8 c.toNat

section
variable (printable : Char → Bool)

def isPrintable (c : Char) : Bool :=
  if c.toNat < 0x80 then decide (0x20 ≤ c.toNat) && decide (c.toNat < 0x7F) else printable c

def reprChar (quote c : Char) : Text :=
  if c = quote ∨ c = backslash then [backslash, c]
  else if c = '\t' then [backslash, 't']
  else if c = '\n' then [backslash, 'n']
  else if c = '\r' then [backslash, 'r']
  else if isPrintable printable c = true then [c]
  else escapeCode c

def quoteFor (s : Text) : Char :=
  if singleQuote ∈ s ∧ doubleQuote ∉ s then doubleQuote else singleQuote

def pyRepr (s : Text) : Text :=
  quoteFor s :: (s.flatMap (reprChar printable (quoteFor s)) ++ [quoteFor s])

/-- Nothing in the text needs a backslash or other quotes. -/
def Clean (s : Text) : Prop :=
  ∀ c ∈ s, c ≠ singleQuote ∧ c ≠ backslash ∧ isPrintable printable c = true

instance (s : Text) : Decidable (Clean printable s) := List.decidableBAll _ s

variable {printable}

theorem Clean.quoteFor {s : Text} (h : Clean printable s) : quoteFor s = singleQuote :=
  if_neg fun hq => (h singleQuote hq.1).1 rfl

/-- Control characters are not printable. -/
theorem isPrintable_control {c : Char} (h : c.toNat < 0x20) : isPrintable printable c = false := by
  have hascii : c.toNat < 0x80 := by omega
  have hlow : ¬ 0x20 ≤ c.toNat := by omega
  simp [isPrintable, hascii, hlow]

/-- Only a printable character stands for itself. -/
theorem reprChar_eq_self_iff (c : Char) :
    reprChar printable singleQuote c = [c] ↔
      c ≠ singleQuote ∧ c ≠ backslash ∧ isPrintable printable c = true := by
  have hcontrol : ∀ d : Char, d = '\t' ∨ d = '\n' ∨ d = '\r' →
      isPrintable printable d = false := by
    intro d hd
    rcases hd with rfl | rfl | rfl
    all_goals exact isPrintable_control (by decide)
  have hcode : escapeCode c ≠ [c] := by
    unfold escapeCode
    split
    · simp
    · split <;> simp
  unfold reprChar
  split
  · next h => exact iff_of_false (by simp) fun hc => h.elim hc.1 hc.2.1
  · next h =>
    rw [not_or] at h
    split
    · next ht => exact iff_of_false (by simp) fun hc => by simp [hcontrol c (.inl ht)] at hc
    · split
      · next hn =>
        exact iff_of_false (by simp) fun hc => by simp [hcontrol c (.inr (.inl hn))] at hc
      · split
        · next hr =>
          exact iff_of_false (by simp) fun hc => by simp [hcontrol c (.inr (.inr hr))] at hc
        · split
          · next hp => exact iff_of_true rfl ⟨h.1, h.2, hp⟩
          · next hp => exact iff_of_false hcode fun hc => hp hc.2.2

/-- A clean text stands between single quotes as it is. -/
theorem pyRepr_clean {s : Text} (h : Clean printable s) :
    pyRepr printable s = singleQuote :: (s ++ [singleQuote]) := by
  have hself : s.flatMap (reprChar printable singleQuote) = s := by
    induction s with
    | nil => rfl
    | cons c s ih =>
      rw [List.flatMap_cons, (reprChar_eq_self_iff c).mpr (h c List.mem_cons_self),
        ih fun d hd => h d (List.mem_cons_of_mem c hd)]
      rfl
  rw [pyRepr, h.quoteFor, hself]

end

end PowerGuru.Lib.PyRepr
