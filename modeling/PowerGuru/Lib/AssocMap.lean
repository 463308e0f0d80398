import Mathlib.Data.List.Nodup

/-!
# Association lists with overwriting

`assign` is `m[k] = v` of a map that is kept as a list of its pairs.
-/
namespace PowerGuru.Lib.AssocMap

section
variable {κ ν : Type}

/-- No two pairs give one key different values. -/
def Functional (m : List (κ × ν)) : Prop := ∀ a ∈ m, ∀ b ∈ m, a.1 = b.1 → a = b

theorem functional_nil : Functional ([] : List (κ × ν)) := by
  intro a ha
  exact absurd ha List.not_mem_nil

theorem functional_of_nodup {m : List (κ × ν)} (h : (m.map Prod.fst).Nodup) : Functional m :=
  fun _ ha _ hb hab => List.inj_on_of_nodup_map h ha hb hab

theorem Functional.of_subset {l m : List (κ × ν)} (h : Functional m) (hs : l ⊆ m) :
    Functional l := fun a ha b hb => h a (hs ha) b (hs hb)

variable [BEq κ]

def assign (m : List (κ × ν)) (k : κ) (v : ν) : List (κ × ν) :=
  m.filter (fun a => a.1 != k) ++ [(k, v)]

def assignAll (m l : List (κ × ν)) : List (κ × ν) := l.foldl (fun m a => assign m a.1 a.2) m

@[simp] theorem assignAll_nil (m : List (κ × ν)) : assignAll m [] = m := rfl

@[simp] theorem assignAll_cons (m : List (κ × ν)) (a : κ × ν) (l : List (κ × ν)) :
    assignAll m (a :: l) = assignAll (assign m a.1 a.2) l := rfl

/-- What `m[k]` makes of the map: a key that is not there gets the default. -/
def touch (m : List (κ × ν)) (k : κ) (d : ν) : List (κ × ν) :=
  if (m.lookup k).isSome = true then m else assign m k d

variable [LawfulBEq κ]

theorem mem_of_lookup {m : List (κ × ν)} {k : κ} {v : ν} (h : m.lookup k = some v) :
    (k, v) ∈ m := by
  obtain ⟨before, after, hm, -⟩ := List.lookup_eq_some_iff.mp h
  rw [hm]
  simp

theorem mem_assign {m : List (κ × ν)} {k : κ} {v : ν} {a : κ × ν} :
    a ∈ assign m k v ↔ a ∈ m ∧ a.1 ≠ k ∨ a = (k, v) := by
  unfold assign
  rw [List.mem_append, List.mem_filter, List.mem_singleton, bne_iff_ne]

theorem Functional.assign {m : List (κ × ν)} (h : Functional m) (k : κ) (v : ν) :
    Functional (assign m k v) := by
  intro a ha b hb hab
  rcases mem_assign.mp ha with ⟨ham, hak⟩ | rfl
  · rcases mem_assign.mp hb with ⟨hbm, -⟩ | rfl
    · exact h a ham b hbm hab
    · exact absurd hab hak
  · rcases mem_assign.mp hb with ⟨-, hbk⟩ | rfl
    · exact absurd hab.symm hbk
    · rfl

theorem Functional.assignAll {m : List (κ × ν)} (h : Functional m) (l : List (κ × ν)) :
    Functional (assignAll m l) := by
  induction l generalizing m with
  | nil => exact h
  | cons a l ih => exact ih (h.assign a.1 a.2)

/-- Assigning what agrees with the map only adds to it. -/
theorem mem_assign_of_functional {m : List (κ × ν)} {k : κ} {v : ν}
    (h : Functional ((k, v) :: m)) {a : κ × ν} :
    a ∈ AssocMap.assign m k v ↔ a ∈ m ∨ a = (k, v) := by
  rw [mem_assign]
  constructor
  · intro ha
    rcases ha with ⟨ham, -⟩ | rfl
    · exact Or.inl ham
    · exact Or.inr rfl
  · intro ha
    rcases ha with ham | rfl
    · by_cases hk : a.1 = k
      · exact Or.inr (h a (List.mem_cons_of_mem _ ham) (k, v) List.mem_cons_self hk)
      · exact Or.inl ⟨ham, hk⟩
    · exact Or.inr rfl

theorem mem_assignAll_of_functional {m l : List (κ × ν)} (h : Functional (m ++ l)) {a : κ × ν} :
    a ∈ AssocMap.assignAll m l ↔ a ∈ m ∨ a ∈ l := by
  induction l generalizing m with
  | nil => simp
  | cons b l ih =>
    have hb : Functional (b :: m) := by
      apply h.of_subset
      intro c hc
      rcases List.mem_cons.mp hc with rfl | hc
      · simp
      · simp [hc]
    have hm : ∀ c, c ∈ AssocMap.assign m b.1 b.2 ↔ c ∈ m ∨ c = b :=
      fun c => mem_assign_of_functional hb
    have hs : Functional (AssocMap.assign m b.1 b.2 ++ l) := by
      apply h.of_subset
      intro c hc
      rcases List.mem_append.mp hc with hc | hc
      · rcases (hm c).mp hc with hc | rfl <;> simp [*]
      · simp [hc]
    rw [assignAll_cons, ih hs, hm, List.mem_cons, or_assoc]

theorem mem_keys_assign {m : List (κ × ν)} {k k' : κ} {v : ν} :
    k' ∈ (assign m k v).map Prod.fst ↔ k' ∈ m.map Prod.fst ∨ k' = k := by
  constructor
  · intro h
    obtain ⟨e, he, rfl⟩ := List.mem_map.mp h
    rcases mem_assign.mp he with ⟨hmem, -⟩ | rfl
    · exact Or.inl (List.mem_map_of_mem hmem)
    · exact Or.inr rfl
  · intro h
    by_cases heq : k' = k
    · exact List.mem_map.mpr ⟨(k, v), mem_assign.mpr (Or.inr rfl), heq.symm⟩
    · obtain ⟨e, he, rfl⟩ := List.mem_map.mp (h.resolve_right heq)
      exact List.mem_map_of_mem (mem_assign.mpr (Or.inl ⟨he, heq⟩))

/-- The keys are those that were assigned. -/
theorem mem_keys_assignAll {m l : List (κ × ν)} {k : κ} :
    k ∈ (assignAll m l).map Prod.fst ↔ k ∈ m.map Prod.fst ∨ k ∈ l.map Prod.fst := by
  induction l generalizing m with
  | nil => simp
  | cons e l ih => rw [assignAll_cons, ih, mem_keys_assign, List.map_cons, List.mem_cons, or_assoc]

theorem mem_of_mem_assignAll {m l : List (κ × ν)} {a : κ × ν}
    (h : a ∈ AssocMap.assignAll m l) : a ∈ m ∨ a ∈ l := by
  induction l generalizing m with
  | nil => exact Or.inl h
  | cons b l ih =>
    rcases ih h with hm | hl
    · rcases mem_assign.mp hm with ⟨hm, -⟩ | rfl
      · exact Or.inl hm
      · exact Or.inr List.mem_cons_self
    · exact Or.inr (List.mem_cons_of_mem b hl)

/-- A map filled pair by pair holds all the pairs exactly if no key got two values. -/
theorem assignAll_complete_iff (l : List (κ × ν)) :
    (∀ a, a ∈ AssocMap.assignAll [] l ↔ a ∈ l) ↔ Functional l := by
  constructor
  · intro h
    exact (functional_nil.assignAll l).of_subset fun a ha => (h a).mpr ha
  · intro h a
    have hm := mem_assignAll_of_functional (m := []) (a := a) h
    simpa using hm

theorem lookup_assign_self (m : List (κ × ν)) (k : κ) (v : ν) :
    (assign m k v).lookup k = some v := by
  have hf : (m.filter (fun a => a.1 != k)).lookup k = none := by
    rw [List.lookup_eq_none_iff]
    intro a ha
    have hne := bne_iff_ne.mp (List.mem_filter.mp ha).2
    exact bne_iff_ne.mpr hne.symm
  rw [assign, List.lookup_append, hf]
  simp

theorem lookup_assign_of_ne (m : List (κ × ν)) {k j : κ} (h : j ≠ k) (v : ν) :
    (assign m k v).lookup j = m.lookup j := by
  have hrest : [(k, v)].lookup j = none := by
    rw [List.lookup_cons, beq_eq_false_iff_ne.mpr h]
    rfl
  rw [assign, List.lookup_append, hrest, Option.or_none]
  induction m with
  | nil => rfl
  | cons a m ih =>
    by_cases ha : a.1 = k
    · have hj : (j == a.1) = false := beq_eq_false_iff_ne.mpr fun he => h (he.trans ha)
      rw [List.filter_cons_of_neg (by simp [ha]), ih, List.lookup_cons, hj]
    · have hkeep : (fun b : κ × ν => b.1 != k) a = true := bne_iff_ne.mpr ha
      rw [List.filter_cons, if_pos hkeep, List.lookup_cons, List.lookup_cons, ih]

/-- A map filled pair by pair gives the last value of a key. -/
theorem lookup_assignAll (m l : List (κ × ν)) (k : κ) :
    (assignAll m l).lookup k = ((l.filter (·.1 == k)).getLast?.map Prod.snd).or (m.lookup k) := by
  induction l generalizing m with
  | nil => simp
  | cons a l ih =>
    rw [assignAll_cons, ih]
    by_cases ha : a.1 = k
    · have hkeep : (fun b : κ × ν => b.1 == k) a = true := beq_iff_eq.mpr ha
      rw [List.filter_cons, if_pos hkeep, ← ha, lookup_assign_self, List.getLast?_cons]
      cases (l.filter (·.1 == a.1)).getLast? <;> rfl
    · have hdrop : ¬ (fun b : κ × ν => b.1 == k) a = true := by simpa using ha
      rw [List.filter_cons, if_neg hdrop, lookup_assign_of_ne m fun he => ha he.symm]

/-- Touching a key changes no value. -/
theorem lookup_touch (m : List (κ × ν)) (k j : κ) (d : ν) :
    ((touch m k d).lookup j).getD d = (m.lookup j).getD d := by
  rw [touch]
  split
  · rfl
  · next h =>
    rw [Bool.not_eq_true, Option.isSome_eq_false_iff, Option.isNone_iff_eq_none] at h
    by_cases hj : j = k
    · rw [hj, lookup_assign_self, h]
      rfl
    · rw [lookup_assign_of_ne m hj]

/-- What a lookup in a map without contradictions finds. -/
theorem lookup_eq_some_iff {m : List (κ × ν)} (h : Functional m) {k : κ} {v : ν} :
    m.lookup k = some v ↔ (k, v) ∈ m := by
  induction m with
  | nil => simp
  | cons a m ih =>
    have htail : Functional m := h.of_subset (List.subset_cons_self a m)
    rw [List.lookup_cons, List.mem_cons]
    by_cases hk : k = a.1
    · subst hk
      rw [beq_self_eq_true]
      constructor
      · intro hv
        exact Or.inl (Prod.ext rfl (Option.some.inj hv).symm)
      · intro hv
        rcases hv with hv | hv
        · exact congrArg some (congrArg Prod.snd hv).symm
        · have he := h (a.1, v) (List.mem_cons_of_mem a hv) a List.mem_cons_self rfl
          exact congrArg some (congrArg Prod.snd he).symm
    · rw [beq_eq_false_iff_ne.mpr hk]
      show m.lookup k = some v ↔ _
      rw [ih htail]
      constructor
      · exact Or.inr
      · intro hv
        rcases hv with hv | hv
        · exact absurd (congrArg Prod.fst hv) hk
        · exact hv

/-- Where all pairs have one value, only the keys count. -/
theorem lookup_const [DecidableEq κ] {m : List (κ × ν)} {v : ν} (h : ∀ a ∈ m, a.2 = v) (k : κ) :
    m.lookup k = if k ∈ m.map Prod.fst then some v else none := by
  induction m with
  | nil => rfl
  | cons a m ih =>
    obtain ⟨ha, hm⟩ := List.forall_mem_cons.mp h
    rw [List.lookup_cons, List.map_cons, ih hm]
    by_cases hk : k = a.1
    · rw [hk, beq_self_eq_true, if_pos List.mem_cons_self]
      exact congrArg some ha
    · rw [beq_eq_false_iff_ne.mpr hk]
      simp only [List.mem_cons, hk, false_or]

end

end PowerGuru.Lib.AssocMap
