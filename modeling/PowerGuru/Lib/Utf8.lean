import PowerGuru.Lib.Bytes

/-!
# UTF-8

Reading one byte after the other. A byte below 128 stands for itself and never within
another character, so a text can be cut in front of it.
-/
namespace PowerGuru.Lib.Utf8

open Bytes

/-- A character that has begun: the bytes it still needs, its code so far, and the least
code that needs so many bytes. -/
structure Begun where
  needs : Nat
  code : Nat
  least : Nat

/-- The code points of the text, from within a character that has begun if there is one. -/
def codes : Option Begun → List Byte → Option (List Nat)
  | none, [] => some []
  | some _, [] => none
  | none, b :: s =>
      if b.toNat < 0x80 then (codes none s).map fun cs => b.toNat :: cs
      else if 0xC0 ≤ b.toNat ∧ b.toNat < 0xE0 then codes (some ⟨1, b.toNat - 0xC0, 0x80⟩) s
      else if 0xE0 ≤ b.toNat ∧ b.toNat < 0xF0 then codes (some ⟨2, b.toNat - 0xE0, 0x800⟩) s
      else if 0xF0 ≤ b.toNat ∧ b.toNat < 0xF8 then codes (some ⟨3, b.toNat - 0xF0, 0x10000⟩) s
      else none
  | some p, b :: s =>
      if 0x80 ≤ b.toNat ∧ b.toNat < 0xC0 then
        if p.needs = 1 then
          if p.least ≤ p.code * 64 + (b.toNat - 0x80) then
            (codes none s).map fun cs => (p.code * 64 + (b.toNat - 0x80)) :: cs
          else none
        else codes (some ⟨p.needs - 1, p.code * 64 + (b.toNat - 0x80), p.least⟩) s
      else none

/-- The bytes of a code point. -/
def encode (c : Nat) : List Byte :=
  if c < 0x80 then [UInt8.ofNat c]
  else if c < 0x800 then [UInt8.ofNat (0xC0 + c / 64), UInt8.ofNat (0x80 + c % 64)]
  else if c < 0x10000 then
    [UInt8.ofNat (0xE0 + c / 4096), UInt8.ofNat (0x80 + c / 64 % 64), UInt8.ofNat (0x80 + c % 64)]
  else
    [UInt8.ofNat (0xF0 + c / 262144), UInt8.ofNat (0x80 + c / 4096 % 64),
      UInt8.ofNat (0x80 + c / 64 % 64), UInt8.ofNat (0x80 + c % 64)]

theorem codes_ascii {b : Byte} (hb : b.toNat < 0x80) (s : List Byte) :
    codes none (b :: s) = (codes none s).map fun cs => b.toNat :: cs := by
  rw [codes, if_pos hb]

/-- In front of a byte below 128 one character ends and another begins. -/
theorem codes_append {b : Byte} (hb : b.toNat < 0x80) (x y : List Byte) (p : Option Begun) :
    codes p (x ++ b :: y) =
      (codes p x).bind fun cs => (codes none (b :: y)).map fun ds => cs ++ ds := by
  induction x generalizing p with
  | nil =>
    cases p with
    | none => simp [codes]
    | some p =>
      have hlow : ¬ (0x80 ≤ b.toNat ∧ b.toNat < 0xC0) := by omega
      simp only [List.nil_append, codes, if_neg hlow, Option.bind_none]
  | cons a x ih =>
    generalize codes none (b :: y) = t at ih ⊢
    cases p with
    | none =>
      simp only [List.cons_append, codes]
      split
      · rw [ih]
        cases codes none x <;> cases t <;> rfl
      · split
        · exact ih _
        · split
          · exact ih _
          · split
            · exact ih _
            · rfl
    | some p =>
      simp only [List.cons_append, codes]
      split
      · split
        · split
          · rw [ih]
            cases codes none x <;> cases t <;> rfl
          · rfl
        · exact ih _
      · rfl

/-- A byte below 128 is a character of the text. -/
theorem mem_codes {s : List Byte} {p : Option Begun} {cs : List Nat} (h : codes p s = some cs)
    {b : Byte} (hm : b ∈ s) (hb : b.toNat < 0x80) : b.toNat ∈ cs := by
  obtain ⟨x, y, rfl⟩ := List.append_of_mem hm
  rw [codes_append hb, codes_ascii hb, Option.bind_eq_some_iff] at h
  obtain ⟨ds, -, hds⟩ := h
  obtain ⟨es, hes, rfl⟩ := Option.map_eq_some_iff.mp hds
  obtain ⟨fs, -, rfl⟩ := Option.map_eq_some_iff.mp hes
  simp

end PowerGuru.Lib.Utf8
