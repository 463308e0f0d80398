import Mathlib.Tactic.Common

/-!
# Work that stops at the first failure

Each piece of work puts something out, or leaves a state to the next, and may fail. A sweep does
one piece after the other until one of them fails, and what was done until then stays.
-/
namespace PowerGuru.Lib.Sweep

variable {α β ε : Type}

def sweep (work : α → List β × Option ε) : List α → List β × Option ε
  | [] => ([], none)
  | a :: as =>
      match work a with
      | (out, some e) => (out, some e)
      | (out, none) => (out ++ (sweep work as).1, (sweep work as).2)

section
variable {work : α → List β × Option ε} {a : α} {as : List α}

theorem sweep_fails {e : ε} (h : (work a).2 = some e) :
    sweep work (a :: as) = ((work a).1, some e) := by
  have hwork : work a = ((work a).1, some e) := Prod.ext rfl h
  rw [sweep, hwork]

theorem sweep_goes_on (h : (work a).2 = none) :
    sweep work (a :: as) = ((work a).1 ++ (sweep work as).1, (sweep work as).2) := by
  have hwork : work a = ((work a).1, none) := Prod.ext rfl h
  rw [sweep, hwork]

/-- A sweep comes to its end exactly if nothing fails. -/
theorem sweep_none_iff : (sweep work as).2 = none ↔ ∀ a ∈ as, (work a).2 = none := by
  induction as with
  | nil => exact iff_of_true rfl fun a ha => absurd ha List.not_mem_nil
  | cons a as ih =>
    rw [List.forall_mem_cons]
    cases h : (work a).2 with
    | none => rw [sweep_goes_on h, ih, and_iff_right rfl]
    | some e =>
      rw [sweep_fails h]
      exact iff_of_false (by simp) fun hall => absurd hall.1 (by simp)

/-- Then it has put out all there was. -/
theorem sweep_all (h : ∀ a ∈ as, (work a).2 = none) :
    (sweep work as).1 = as.flatMap fun a => (work a).1 := by
  induction as with
  | nil => rfl
  | cons a as ih =>
    obtain ⟨ha, has⟩ := List.forall_mem_cons.mp h
    rw [sweep_goes_on ha, List.flatMap_cons, ih has]

/-- Nothing is put out that no piece of work puts out. -/
theorem mem_sweep {b : β} (h : b ∈ (sweep work as).1) : ∃ a ∈ as, b ∈ (work a).1 := by
  induction as with
  | nil => exact absurd h List.not_mem_nil
  | cons a as ih =>
    cases hwork : (work a).2 with
    | some e =>
      rw [sweep_fails hwork] at h
      exact ⟨a, List.mem_cons_self, h⟩
    | none =>
      rw [sweep_goes_on hwork] at h
      rcases List.mem_append.mp h with hhere | hlater
      · exact ⟨a, List.mem_cons_self, hhere⟩
      · obtain ⟨a', ha', hb⟩ := ih hlater
        exact ⟨a', List.mem_cons_of_mem a ha', hb⟩

end

/-! ## Rounds of work -/

section
variable {ρ : Type} {work : ρ → α → List β × Option ε} {rounds : List ρ} {as : List α}

theorem rounds_none_iff :
    (sweep (fun r => sweep (work r) as) rounds).2 = none ↔
      ∀ r ∈ rounds, ∀ a ∈ as, (work r a).2 = none := by
  rw [sweep_none_iff]
  apply forall₂_congr
  intro r _
  exact sweep_none_iff

theorem rounds_all (h : ∀ r ∈ rounds, ∀ a ∈ as, (work r a).2 = none) :
    (sweep (fun r => sweep (work r) as) rounds).1 =
      rounds.flatMap fun r => as.flatMap fun a => (work r a).1 := by
  rw [sweep_all fun r hr => sweep_none_iff.mpr (h r hr), List.flatMap_def, List.flatMap_def]
  congr 1
  apply List.map_congr_left
  intro r hr
  exact sweep_all (h r hr)

theorem mem_rounds {b : β} (h : b ∈ (sweep (fun r => sweep (work r) as) rounds).1) :
    ∃ r ∈ rounds, ∃ a ∈ as, b ∈ (work r a).1 := by
  obtain ⟨r, hr, hb⟩ := mem_sweep h
  exact ⟨r, hr, mem_sweep hb⟩

end

/-- Work that is done by a computation which may throw. -/
def outcome : Except ε (List β) → List β × Option ε
  | .ok out => (out, none)
  | .error e => ([], some e)

theorem outcome_none_iff {x : Except ε (List β)} :
    (outcome x).2 = none ↔ ∃ out, x = .ok out := by
  cases x with
  | ok out => exact iff_of_true rfl ⟨out, rfl⟩
  | error e => exact iff_of_false (by simp [outcome]) (by simp)

/-! ## Work on a state -/

variable {σ : Type}

/-- Each piece of work leaves a state to the next. -/
def relay (work : σ → α → σ × Option ε) : σ → List α → σ × Option ε
  | s, [] => (s, none)
  | s, a :: as =>
      match work s a with
      | (s', some e) => (s', some e)
      | (s', none) => relay work s' as

section
variable {work : σ → α → σ × Option ε} {s : σ} {a : α} {as : List α}

theorem relay_fails {e : ε} (h : (work s a).2 = some e) :
    relay work s (a :: as) = ((work s a).1, some e) := by
  have hwork : work s a = ((work s a).1, some e) := Prod.ext rfl h
  rw [relay, hwork]

theorem relay_goes_on (h : (work s a).2 = none) :
    relay work s (a :: as) = relay work (work s a).1 as := by
  have hwork : work s a = ((work s a).1, none) := Prod.ext rfl h
  rw [relay, hwork]

theorem relay_none_cons :
    (relay work s (a :: as)).2 = none ↔
      (work s a).2 = none ∧ (relay work (work s a).1 as).2 = none := by
  cases h : (work s a).2 with
  | none => rw [relay_goes_on h, and_iff_right rfl]
  | some e =>
    rw [relay_fails h]
    exact iff_of_false (by simp) fun hall => absurd hall.1 (by simp)

/-- The second part of the work is done on what the first leaves. -/
theorem relay_append {bs : List α} (h : (relay work s as).2 = none) :
    relay work s (as ++ bs) = relay work (relay work s as).1 bs := by
  induction as generalizing s with
  | nil => rfl
  | cons a as ih =>
    obtain ⟨ha, has⟩ := relay_none_cons.mp h
    rw [List.cons_append, relay_goes_on ha, relay_goes_on ha, ih has]

theorem relay_none_append {bs : List α} :
    (relay work s (as ++ bs)).2 = none ↔
      (relay work s as).2 = none ∧ (relay work (relay work s as).1 bs).2 = none := by
  induction as generalizing s with
  | nil => exact (and_iff_right rfl).symm
  | cons a as ih =>
    rw [List.cons_append, relay_none_cons, relay_none_cons, ih, and_assoc]
    apply and_congr_right
    intro ha
    rw [relay_goes_on ha]

end

end PowerGuru.Lib.Sweep
