import PowerGuru.Lib.PyRepr

/-!
# `repr` as a literal of SQL

Between single quotes SQL knows no backslashes, only doubled quotes. What `repr` writes is read
as the text again exactly when there was nothing in it to escape.
-/
namespace PowerGuru.Lib.SqlText

open PyRepr

/-- A text, from behind its opening quote, and what stands behind the closing one. -/
def readText : Text → Option (Text × Text)
  | [] => none
  | [c] => if c = singleQuote then some ([], []) else none
  | c :: d :: s =>
      if c = singleQuote then
        if d = singleQuote then (readText s).map fun p => (singleQuote :: p.1, p.2)
        else some ([], d :: s)
      else (readText (d :: s)).map fun p => (c :: p.1, p.2)

def readQuoted : Text → Option (Text × Text)
  | [] => none
  | c :: s => if c = singleQuote then readText s else none

/-- The text, if there is nothing else. -/
def literal (s : Text) : Option Text :=
  match readQuoted s with
  | some (v, []) => some v
  | _ => none

/-- The text as it is spelt between the quotes. -/
def escape (s : Text) : Text := s.flatMap fun c => if c = singleQuote then [c, c] else [c]

theorem readText_of_not_mem {s r : Text} (h : singleQuote ∉ s) (hr : r.head? ≠ some singleQuote) :
    readText (s ++ singleQuote :: r) = some (s, r) := by
  induction s with
  | nil =>
    cases r with
    | nil => rfl
    | cons c r =>
      have hc : c ≠ singleQuote := fun he => hr (by rw [he, List.head?_cons])
      simp [readText, hc]
  | cons c s ih =>
    rw [List.mem_cons, not_or] at h
    obtain ⟨d, t, hs⟩ : ∃ d t, s ++ singleQuote :: r = d :: t :=
      List.exists_cons_of_ne_nil (by simp)
    rw [List.cons_append, hs, readText, if_neg (Ne.symm h.1), ← hs, ih h.2]
    rfl

theorem escape_of_readText {s v r : Text} (h : readText s = some (v, r)) :
    s = escape v ++ singleQuote :: r := by
  fun_induction readText s generalizing v with
  | case1 => exact absurd h (by simp)
  | case2 =>
    obtain ⟨rfl, rfl⟩ : [] = v ∧ [] = r := by simpa using h
    rfl
  | case3 c hc => exact absurd h (by simp)
  | case4 s ih =>
    obtain ⟨⟨w, r⟩, hw, he⟩ := Option.map_eq_some_iff.mp h
    obtain ⟨rfl, rfl⟩ := Prod.mk.inj he
    rw [ih hw]
    simp [escape]
  | case5 d s hd =>
    obtain ⟨rfl, rfl⟩ : [] = v ∧ d :: s = r := by simpa using h
    rfl
  | case6 c d s hc ih =>
    obtain ⟨⟨w, r⟩, hw, he⟩ := Option.map_eq_some_iff.mp h
    obtain ⟨rfl, rfl⟩ := Prod.mk.inj he
    rw [ih hw]
    simp [escape, hc]

/-! ## `repr` -/

section
variable {printable : Char → Bool}

/-- A clean text is read back, whatever follows. -/
theorem readQuoted_pyRepr {s : Text} (h : Clean printable s) {r : Text}
    (hr : r.head? ≠ some singleQuote) :
    readQuoted (pyRepr printable s ++ r) = some (s, r) := by
  have hs : singleQuote ∉ s := fun hm => (h singleQuote hm).1 rfl
  rw [pyRepr_clean h, List.cons_append, List.append_assoc, List.singleton_append, readQuoted,
    if_pos rfl, readText_of_not_mem hs hr]

/-- Unless it stands for itself a character brings a backslash with it. -/
theorem count_reprChar (printable : Char → Bool) (c : Char) :
    List.count backslash [c] ≤ List.count backslash (reprChar printable singleQuote c) ∧
      (reprChar printable singleQuote c ≠ [c] →
        List.count backslash [c] < List.count backslash (reprChar printable singleQuote c)) := by
  have hcode : 0 < List.count backslash (escapeCode c) := by
    rw [List.count_pos_iff]
    unfold escapeCode
    split
    · exact List.mem_cons_self
    · split <;> exact List.mem_cons_self
  unfold reprChar
  split
  · next h =>
    rcases h with rfl | rfl
    · exact ⟨by decide, fun _ => by decide⟩
    · exact ⟨by decide, fun _ => by decide⟩
  · next h =>
    have hzero : List.count backslash [c] = 0 :=
      List.count_eq_zero.mpr fun hm => h (Or.inr (List.mem_singleton.mp hm).symm)
    rw [hzero]
    refine ⟨Nat.zero_le _, fun hne => ?_⟩
    split at hne
    · next ht => rw [if_pos ht]; decide
    split at hne
    · next ht hn => rw [if_neg ht, if_pos hn]; decide
    split at hne
    · next ht hn hr => rw [if_neg ht, if_neg hn, if_pos hr]; decide
    split at hne
    · exact absurd rfl hne
    · next ht hn hr hp => rw [if_neg ht, if_neg hn, if_neg hr, if_neg hp]; exact hcode

theorem count_flatMap_reprChar (printable : Char → Bool) (s : Text) :
    List.count backslash s ≤
      List.count backslash (s.flatMap (reprChar printable singleQuote)) := by
  induction s with
  | nil => exact Nat.le_refl _
  | cons c s ih =>
    have hc := (count_reprChar printable c).1
    rw [List.flatMap_cons, List.count_append, ← List.singleton_append, List.count_append]
    omega

theorem count_escape (s : Text) : List.count backslash (escape s) = List.count backslash s := by
  have hquote : List.count backslash [singleQuote, singleQuote] =
      List.count backslash [singleQuote] := by decide
  induction s with
  | nil => rfl
  | cons c s ih =>
    have hc : List.count backslash (if c = singleQuote then [c, c] else [c]) =
        List.count backslash [c] := by
      split
      · next h => rw [h]; exact hquote
      · rfl
    rw [escape] at ih ⊢
    rw [List.flatMap_cons, List.count_append, hc, ih, ← List.singleton_append (l := s),
      List.count_append]

/-- `repr` has as many backslashes as the text only where nothing needs one. -/
theorem clean_of_count {s : Text}
    (h : List.count backslash (s.flatMap (reprChar printable singleQuote)) ≤
      List.count backslash s) : Clean printable s := by
  induction s with
  | nil => intro c hc; exact absurd hc List.not_mem_nil
  | cons c s ih =>
    obtain ⟨hle, hlt⟩ := count_reprChar printable c
    have hs := count_flatMap_reprChar printable s
    rw [List.flatMap_cons, List.count_append, ← List.singleton_append (l := s),
      List.count_append] at h
    have hself : reprChar printable singleQuote c = [c] := by
      by_contra hne
      have hmore := hlt hne
      omega
    intro d hd
    rcases List.mem_cons.mp hd with rfl | hd
    · exact (reprChar_eq_self_iff d).mp hself
    · exact ih (by omega) d hd

/-- What SQL reads has the backslashes of the text only if the text is clean. -/
theorem clean_of_literal {s v : Text} (h : literal (pyRepr printable s) = some v)
    (hv : List.count backslash v ≤ List.count backslash s) : Clean printable s := by
  unfold literal at h
  split at h
  · next w hread =>
    obtain rfl : w = v := Option.some.inj h
    rw [pyRepr, readQuoted] at hread
    split at hread
    · next hq =>
      have hsame := escape_of_readText hread
      rw [hq] at hsame
      apply clean_of_count
      rw [List.append_cancel_right hsame, count_escape]
      exact hv
    · exact absurd hread (by simp)
  · exact absurd h (by simp)

/-- SQL reads a text back as it was exactly when it is clean. -/
theorem literal_pyRepr_iff (s : Text) : literal (pyRepr printable s) = some s ↔
    Clean printable s := by
  constructor
  · exact fun h => clean_of_literal h (Nat.le_refl _)
  · intro h
    have hread := readQuoted_pyRepr h (r := []) (by simp)
    rw [List.append_nil] at hread
    rw [literal, hread]

end

end PowerGuru.Lib.SqlText
