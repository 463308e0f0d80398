import Mathlib.Data.List.Forall2

/-!
# A variable that keeps its value when a read fails

Several fields are read one after the other into one variable, and each field is made of
what the variable then holds.
-/
namespace PowerGuru.Lib.Carry

section
variable {α β : Type}

/-- What the variable holds after each read. -/
def carry (held : α) : List (Option α) → List α
  | [] => []
  | r :: rs => r.getD held :: carry (r.getD held) rs

/-- The fields, if all that the variable held can be parsed. -/
def fields (parse : α → Option β) (held : α) (rs : List (Option α)) : Option (List β) :=
  (carry held rs).mapM parse

/-- A field holds what its own read gave, or the mark for nothing. -/
def Own (parse : α → Option β) (mark : β) (r : Option α) (x : β) : Prop :=
  x = mark ∨ ∃ a, r = some a ∧ parse a = some x

/-- A read only fails while the variable holds something that parses to the mark. -/
def Covered (parse : α → Option β) (mark : β) (held : α) : List (Option α) → Prop
  | [] => True
  | r :: rs => (r = none → parse held = some mark) ∧ Covered parse mark (r.getD held) rs

variable {parse : α → Option β} {mark : β}

theorem fields_nil (held : α) : fields parse held [] = some [] := rfl

theorem fields_cons (held : α) (r : Option α) (rs : List (Option α)) :
    fields parse held (r :: rs) =
      (parse (r.getD held)).bind fun x => (fields parse (r.getD held) rs).map (x :: ·) := by
  show ((r.getD held :: carry (r.getD held) rs).mapM parse) = _
  rw [List.mapM_cons]
  cases parse (r.getD held) with
  | none => rfl
  | some x =>
    cases hf : (carry (r.getD held) rs).mapM parse with
    | none => simp [fields, hf]
    | some xs => simp [fields, hf]

/-- A variable that is always overwritten gives each field its own value. -/
theorem own_of_some {a : α} {x : β} (h : parse a = some x) : Own parse mark (some a) x :=
  Or.inr ⟨a, rfl, h⟩

theorem own_carried_iff {held : α} {r : Option α} {x : β} (h : parse (r.getD held) = some x) :
    Own parse mark r x ↔ (r = none → parse held = some mark) := by
  cases r with
  | some a => exact iff_of_true (own_of_some h) (by simp)
  | none =>
    have hx : parse held = some x := h
    rw [hx, Option.some.injEq]
    constructor
    · intro ho _
      rcases ho with hm | ⟨a, ha, -⟩
      · exact hm
      · exact absurd ha (by simp)
    · intro hm
      exact Or.inl (hm rfl)

/-- The fields are their own exactly if every failed read was covered. -/
theorem own_fields_iff {held : α} {rs : List (Option α)} {xs : List β}
    (h : fields parse held rs = some xs) :
    List.Forall₂ (Own parse mark) rs xs ↔ Covered parse mark held rs := by
  induction rs generalizing held xs with
  | nil =>
    rw [fields_nil, Option.some.injEq] at h
    rw [← h]
    exact iff_of_true .nil trivial
  | cons r rs ih =>
    rw [fields_cons, Option.bind_eq_some_iff] at h
    obtain ⟨x, hx, hrest⟩ := h
    rw [Option.map_eq_some_iff] at hrest
    obtain ⟨ys, hys, rfl⟩ := hrest
    rw [List.forall₂_cons, own_carried_iff hx, ih hys]
    rfl

theorem fields_isSome_iff {held : α} {rs : List (Option α)} :
    (∃ xs, fields parse held rs = some xs) ↔ ∀ a ∈ carry held rs, ∃ x, parse a = some x := by
  induction rs generalizing held with
  | nil => simp [fields_nil, carry]
  | cons r rs ih =>
    rw [carry, List.forall_mem_cons, ← ih]
    simp only [fields_cons, Option.bind_eq_some_iff, Option.map_eq_some_iff]
    constructor
    · intro h
      obtain ⟨xs, x, hx, ys, hys, -⟩ := h
      exact ⟨⟨x, hx⟩, ys, hys⟩
    · intro h
      obtain ⟨⟨x, hx⟩, ys, hys⟩ := h
      exact ⟨x :: ys, x, hx, ys, hys, rfl⟩

/-- Either something that was held cannot be parsed, or every failed read was covered. -/
def Clean (parse : α → Option β) (mark : β) (held : α) (rs : List (Option α)) : Prop :=
  (∀ a ∈ carry held rs, ∃ x, parse a = some x) → Covered parse mark held rs

/-- Fields that are only kept if all of them can be parsed. -/
theorem own_kept_iff (held : α) (rs : List (Option α)) :
    (∀ xs, fields parse held rs = some xs → List.Forall₂ (Own parse mark) rs xs) ↔
      Clean parse mark held rs := by
  unfold Clean
  rw [← fields_isSome_iff]
  constructor
  · intro h hsome
    obtain ⟨xs, hxs⟩ := hsome
    exact (own_fields_iff hxs).mp (h xs hxs)
  · intro h xs hxs
    exact (own_fields_iff hxs).mpr (h ⟨xs, hxs⟩)

theorem own_marks (rs : List (Option α)) :
    List.Forall₂ (Own parse mark) rs (rs.map fun _ => mark) := by
  induction rs with
  | nil => exact .nil
  | cons r rs ih => exact .cons (Or.inl rfl) ih

/-- Fields that are all marked if one of them cannot be parsed. -/
theorem own_marked_iff (held : α) (rs : List (Option α)) :
    List.Forall₂ (Own parse mark) rs ((fields parse held rs).getD (rs.map fun _ => mark)) ↔
      Clean parse mark held rs := by
  rw [← own_kept_iff]
  cases hf : fields parse held rs with
  | none => exact iff_of_true (own_marks rs) (by simp)
  | some xs => simp

end

end PowerGuru.Lib.Carry
