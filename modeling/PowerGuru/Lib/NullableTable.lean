import Mathlib.Data.List.Nodup
import Mathlib.Data.List.Pairwise

/-!
# Tables with a unique column that may be NULL

`insert` does nothing on a conflict of the unique column, and NULLs are in no conflict.
Of rows that come one after the other the first of every key stays. A column that is never
NULL has `some` for a key.
-/
namespace PowerGuru.Lib.NullableTable

section
variable {α β κ : Type}

structure Table (key : α → Option κ) where
  rows : List α
  unique : (rows.filterMap key).Nodup

variable {key : α → Option κ}

def Table.empty : Table key := ⟨[], List.nodup_nil⟩

def Table.keys (t : Table key) : List κ := t.rows.filterMap key

theorem Table.mem_keys {t : Table key} {k : κ} : k ∈ t.keys ↔ ∃ r ∈ t.rows, key r = some k :=
  List.mem_filterMap

theorem Table.keys_eq_nil {t : Table key} (h : t.rows = []) : t.keys = [] := by
  rw [Table.keys, h, List.filterMap_nil]

theorem Table.eq_of_key (t : Table key) {r s : α} {k : κ} (hr : r ∈ t.rows) (hs : s ∈ t.rows)
    (hrk : key r = some k) (hsk : key s = some k) : r = s := by
  by_contra hne
  have hpair := List.pairwise_filterMap.mp t.unique
  have hsymm : Std.Symm fun a b => ∀ l, key a = some l → ∀ l', key b = some l' → l ≠ l' :=
    ⟨fun a b hab l hl l' hl' => (hab l' hl' l hl).symm⟩
  exact hpair.forall hr hs hne k hrk k hsk rfl

/-- Rows of which no two agree in a column that is never NULL. -/
def Table.ofNodup {column : α → κ} (rows : List α) (h : (rows.map column).Nodup) :
    Table fun a => some (column a) where
  rows := rows
  unique := by
    rw [← List.filterMap_eq_map] at h
    exact h

theorem Table.find?_key [BEq κ] [LawfulBEq κ] {column : α → κ}
    (t : Table fun a => some (column a)) {r : α} (hr : r ∈ t.rows) :
    t.rows.find? (fun s => column s == column r) = some r := by
  cases h : t.rows.find? (fun s => column s == column r) with
  | none => exact absurd (List.find?_eq_none.mp h r hr) (by simp)
  | some s =>
    have hs : column s = column r := by simpa using List.find?_some h
    rw [t.eq_of_key (List.mem_of_find?_eq_some h) hr (congrArg some hs) rfl]

variable [DecidableEq κ]

def Table.insert (t : Table key) (r : α) : Table key :=
  if h : ∃ k ∈ t.keys, key r = some k then t
  else
    { rows := t.rows ++ [r]
      unique := by
        rw [List.filterMap_append, List.nodup_append]
        refine ⟨t.unique, ?_, ?_⟩
        · cases hr : key r <;> simp [hr]
        · intro k hk l hl hkl
          obtain ⟨s, hs, hl⟩ := List.mem_filterMap.mp hl
          rw [List.mem_singleton] at hs
          exact h ⟨k, hk, by rw [← hs, hl, hkl]⟩ }

def Table.insertAll (t : Table key) (rs : List α) : Table key := rs.foldl Table.insert t

@[simp] theorem Table.insertAll_nil (t : Table key) : t.insertAll [] = t := rfl

@[simp] theorem Table.insertAll_cons (t : Table key) (r : α) (rs : List α) :
    t.insertAll (r :: rs) = (t.insert r).insertAll rs := rfl

theorem Table.insert_conflict {t : Table key} {r : α} (h : ∃ k ∈ t.keys, key r = some k) :
    t.insert r = t := dif_pos h

theorem Table.rows_insert {t : Table key} {r : α} (h : ¬ ∃ k ∈ t.keys, key r = some k) :
    (t.insert r).rows = t.rows ++ [r] := by
  rw [Table.insert, dif_neg h]

theorem Table.mem_insert {t : Table key} {r s : α} :
    s ∈ (t.insert r).rows ↔ s ∈ t.rows ∨ s = r ∧ ¬ ∃ k ∈ t.keys, key r = some k := by
  by_cases h : ∃ k ∈ t.keys, key r = some k
  · rw [Table.insert_conflict h]
    simp [h]
  · rw [Table.rows_insert h, List.mem_append, List.mem_singleton]
    simp [h]

theorem Table.mem_keys_insert {t : Table key} {r : α} {k : κ} :
    k ∈ (t.insert r).keys ↔ k ∈ t.keys ∨ key r = some k := by
  by_cases h : ∃ l ∈ t.keys, key r = some l
  · rw [Table.insert_conflict h]
    constructor
    · exact Or.inl
    · intro hk
      rcases hk with hk | hk
      · exact hk
      · obtain ⟨l, hl, hr⟩ := h
        obtain rfl : l = k := Option.some.inj (hr.symm.trans hk)
        exact hl
  · rw [Table.keys, Table.rows_insert h, List.filterMap_append, List.mem_append]
    simp [Table.keys, List.mem_filterMap]

theorem Table.mem_keys_insertAll {t : Table key} {rs : List α} {k : κ} :
    k ∈ (t.insertAll rs).keys ↔ k ∈ t.keys ∨ ∃ r ∈ rs, key r = some k := by
  induction rs generalizing t with
  | nil => simp
  | cons r rs ih =>
    rw [Table.insertAll_cons, ih, Table.mem_keys_insert]
    simp [or_assoc]

theorem Table.mem_insertAll_of_mem {t : Table key} {s : α} (rs : List α) (h : s ∈ t.rows) :
    s ∈ (t.insertAll rs).rows := by
  induction rs generalizing t with
  | nil => exact h
  | cons r rs ih => exact ih (Table.mem_insert.mpr (Or.inl h))

theorem Table.mem_of_mem_insertAll {t : Table key} {s : α} {rs : List α}
    (h : s ∈ (t.insertAll rs).rows) : s ∈ t.rows ∨ s ∈ rs := by
  induction rs generalizing t with
  | nil => exact Or.inl h
  | cons r rs ih =>
    rcases ih h with hs | hs
    · rcases Table.mem_insert.mp hs with hs | ⟨rfl, -⟩
      · exact Or.inl hs
      · exact Or.inr List.mem_cons_self
    · exact Or.inr (List.mem_cons_of_mem r hs)

/-- A row is not lost if the other rows of its key are the same row. -/
theorem Table.mem_insertAll_of_alone {t : Table key} {rs : List α} {r : α} {k : κ} (hr : r ∈ rs)
    (hk : key r = some k) (halone : ∀ s, s ∈ t.rows ∨ s ∈ rs → key s = some k → s = r) :
    r ∈ (t.insertAll rs).rows := by
  have hmem : k ∈ (t.insertAll rs).keys := Table.mem_keys_insertAll.mpr (Or.inr ⟨r, hr, hk⟩)
  obtain ⟨s, hs, hsk⟩ := Table.mem_keys.mp hmem
  exact halone s (Table.mem_of_mem_insertAll hs) hsk ▸ hs

/-- Rows whose keys are all there change nothing. -/
theorem Table.insertAll_of_conflicts {t : Table key} {rs : List α}
    (h : ∀ r ∈ rs, ∃ k ∈ t.keys, key r = some k) : t.insertAll rs = t := by
  induction rs with
  | nil => rfl
  | cons r rs ih =>
    rw [Table.insertAll_cons, Table.insert_conflict (h r List.mem_cons_self)]
    exact ih fun s hs => h s (List.mem_cons_of_mem r hs)

/-- The row is the first of its key, which the table does not have. -/
def Table.Gains (t : Table key) (rs : List α) (s : α) : Prop :=
  ∃ k, key s = some k ∧ k ∉ t.keys ∧ rs.find? (fun r => key r = some k) = some s

/-- What the table holds after rows with keys. -/
theorem Table.mem_insertAll {t : Table key} {rs : List α} (hkeyed : ∀ r ∈ rs, key r ≠ none)
    {s : α} : s ∈ (t.insertAll rs).rows ↔ s ∈ t.rows ∨ t.Gains rs s := by
  induction rs generalizing t with
  | nil => simp [Table.Gains]
  | cons r rs ih =>
    obtain ⟨l, hl⟩ := Option.ne_none_iff_exists'.mp (hkeyed r List.mem_cons_self)
    have hrs : ∀ r ∈ rs, key r ≠ none := fun x hx => hkeyed x (List.mem_cons_of_mem r hx)
    rw [Table.insertAll_cons, ih hrs, Table.mem_insert]
    by_cases hold : l ∈ t.keys
    · -- a key that is there already: the row changes nothing
      have hconflict : ∃ k ∈ t.keys, key r = some k := ⟨l, hold, hl⟩
      rw [Table.insert_conflict hconflict]
      simp only [hconflict, not_true_eq_false, and_false, or_false, Table.Gains]
      refine or_congr_right (exists_congr fun k => ?_)
      by_cases hk : l = k
      · simp [← hk, hold]
      · rw [List.find?_cons_of_neg (by simp [hl, hk])]
    · have hnew : ¬ ∃ k ∈ t.keys, key r = some k := by
        rintro ⟨k, hk, hr⟩
        obtain rfl : l = k := Option.some.inj (hl.symm.trans hr)
        exact hold hk
      rw [and_iff_left hnew, or_assoc]
      refine or_congr_right ?_
      simp only [Table.Gains, Table.mem_keys_insert, hl, Option.some.injEq, not_or]
      constructor
      · intro h
        rcases h with rfl | ⟨k, hk, ⟨hkt, hlk⟩, hfind⟩
        · exact ⟨l, hl, hold, by rw [List.find?_cons_of_pos (by simp [hl])]⟩
        · exact ⟨k, hk, hkt, by rw [List.find?_cons_of_neg (by simp [hl, hlk]), hfind]⟩
      · intro h
        obtain ⟨k, hk, hkt, hfind⟩ := h
        by_cases hlk : l = k
        · rw [List.find?_cons_of_pos (by simp [hl, hlk])] at hfind
          exact Or.inl (Option.some.inj hfind).symm
        · rw [List.find?_cons_of_neg (by simp [hl, hlk])] at hfind
          exact Or.inr ⟨k, hk, ⟨hkt, hlk⟩, hfind⟩

/-- Inserting adds exactly what is wanted, exactly if all of that is gained and nothing else has
a key of its own. -/
theorem Table.added_iff {t : Table key} {rs : List α} (hkeyed : ∀ r ∈ rs, key r ≠ none)
    {wanted : α → Prop} (hout : ∀ s, wanted s → s ∉ t.rows) :
    (∀ s, s ∈ (t.insertAll rs).rows ∧ s ∉ t.rows ↔ wanted s) ↔
      (∀ s, wanted s → t.Gains rs s) ∧
        ∀ r ∈ rs, ∀ k, key r = some k → k ∈ t.keys ∨ ∃ s, wanted s ∧ key s = some k := by
  have hgains : ∀ s, t.Gains rs s → s ∉ t.rows := by
    intro s hs hmem
    obtain ⟨k, hk, hkt, -⟩ := hs
    exact hkt (Table.mem_keys.mpr ⟨s, hmem, hk⟩)
  constructor
  · intro h
    constructor
    · intro s hs
      obtain ⟨hmem, hnot⟩ := (h s).mpr hs
      exact ((Table.mem_insertAll hkeyed).mp hmem).resolve_left hnot
    · intro r hr k hk
      by_cases hkt : k ∈ t.keys
      · exact Or.inl hkt
      · -- the first row of this key is gained
        obtain ⟨s, hs⟩ := Option.isSome_iff_exists.mp
          (List.find?_isSome (p := fun r => decide (key r = some k)).mpr ⟨r, hr, by simp [hk]⟩)
        have hkey : key s = some k := by simpa using List.find?_some hs
        have hgain : t.Gains rs s := ⟨k, hkey, hkt, hs⟩
        exact Or.inr ⟨s, (h s).mp ⟨(Table.mem_insertAll hkeyed).mpr (Or.inr hgain),
          hgains s hgain⟩, hkey⟩
  · rintro ⟨hall, honly⟩ s
    constructor
    · intro hs
      obtain ⟨k, hk, hkt, hfind⟩ := ((Table.mem_insertAll hkeyed).mp hs.1).resolve_left hs.2
      rcases honly s (List.mem_of_find?_eq_some hfind) k hk with hkt' | ⟨s', hs', hk'⟩
      · exact absurd hkt' hkt
      · obtain ⟨k'', hk'', -, hfind'⟩ := hall s' hs'
        obtain rfl : k = k'' := Option.some.inj (hk'.symm.trans hk'')
        obtain rfl : s = s' := Option.some.inj (hfind.symm.trans hfind')
        exact hs'
    · intro hs
      exact ⟨(Table.mem_insertAll hkeyed).mpr (Or.inr (hall s hs)), hout s hs⟩

end

/-! ## Up to the first failure -/

section
variable {α β : Type}

/-- What a loop over the list makes of the elements in front of the first that fails. -/
def upToFailure (f : α → Option β) : List α → List β
  | [] => []
  | a :: l =>
      match f a with
      | some b => b :: upToFailure f l
      | none => []

theorem exists_of_mem_upToFailure {f : α → Option β} {l : List α} {b : β}
    (h : b ∈ upToFailure f l) : ∃ a ∈ l, f a = some b := by
  induction l with
  | nil => exact absurd h List.not_mem_nil
  | cons a l ih =>
    rw [upToFailure] at h
    split at h
    · next c hc =>
      rcases List.mem_cons.mp h with rfl | hb
      · exact ⟨a, List.mem_cons_self, hc⟩
      · obtain ⟨a', ha', hfa'⟩ := ih hb
        exact ⟨a', List.mem_cons_of_mem a ha', hfa'⟩
    · exact absurd h List.not_mem_nil

/-- In an ordered list the elements in front of one are those that are less. -/
theorem upToFailure_split_iff {f : α → Option β} {lt : α → α → Prop} (hirrefl : ∀ a, ¬ lt a a)
    {l : List α} (h : l.Pairwise fun a b => ¬ lt b a ∧ (f b ≠ none → lt a b)) {b : β}
    (P : β → Prop) :
    (∃ as bs, upToFailure f l = as ++ b :: bs ∧ ∀ c ∈ as, P c) ↔
      ∃ a ∈ l, f a = some b ∧ ∀ x ∈ l, lt x a → ∃ c, f x = some c ∧ P c := by
  induction l with
  | nil => simp [upToFailure]
  | cons d l ih =>
    obtain ⟨hd, hl⟩ := List.pairwise_cons.mp h
    rw [upToFailure]
    cases hfd : f d with
    | none =>
      refine iff_of_false (by simp) ?_
      rintro ⟨a, ha, hfa, hbefore⟩
      rcases List.mem_cons.mp ha with rfl | ha
      · exact absurd (hfd.symm.trans hfa) (by simp)
      · obtain ⟨c, hc, -⟩ := hbefore d List.mem_cons_self ((hd a ha).2 (by simp [hfa]))
        exact absurd (hfd.symm.trans hc) (by simp)
    | some e =>
      constructor
      · rintro ⟨as, bs, heq, hP⟩
        cases as with
        | nil =>
          obtain ⟨rfl, -⟩ := List.cons.inj heq
          refine ⟨d, List.mem_cons_self, hfd, ?_⟩
          intro x hx hlt
          rcases List.mem_cons.mp hx with rfl | hx
          · exact absurd hlt (hirrefl x)
          · exact absurd hlt (hd x hx).1
        | cons e' as =>
          obtain ⟨rfl, hrest⟩ := List.cons.inj heq
          obtain ⟨a, ha, hfa, hbefore⟩ :=
            (ih hl).mp ⟨as, bs, hrest, fun c hc => hP c (List.mem_cons_of_mem e hc)⟩
          refine ⟨a, List.mem_cons_of_mem d ha, hfa, ?_⟩
          intro x hx hlt
          rcases List.mem_cons.mp hx with rfl | hx
          · exact ⟨e, hfd, hP e List.mem_cons_self⟩
          · exact hbefore x hx hlt
      · rintro ⟨a, ha, hfa, hbefore⟩
        rcases List.mem_cons.mp ha with rfl | ha
        · obtain rfl : e = b := Option.some.inj (hfd.symm.trans hfa)
          exact ⟨[], _, rfl, fun c hc => absurd hc List.not_mem_nil⟩
        · obtain ⟨as, bs, heq, hP⟩ := (ih hl).mpr
            ⟨a, ha, hfa, fun x hx => hbefore x (List.mem_cons_of_mem d hx)⟩
          obtain ⟨c, hc, hPc⟩ := hbefore d List.mem_cons_self ((hd a ha).2 (by simp [hfa]))
          obtain rfl : e = c := Option.some.inj (hfd.symm.trans hc)
          refine ⟨e :: as, bs, congrArg (e :: ·) heq, ?_⟩
          intro c hc
          rcases List.mem_cons.mp hc with rfl | hc
          · exact hPc
          · exact hP c hc

theorem mem_upToFailure_iff {f : α → Option β} {lt : α → α → Prop} (hirrefl : ∀ a, ¬ lt a a)
    {l : List α} (h : l.Pairwise fun a b => ¬ lt b a ∧ (f b ≠ none → lt a b)) {b : β} :
    b ∈ upToFailure f l ↔ ∃ a ∈ l, f a = some b ∧ ∀ x ∈ l, lt x a → f x ≠ none := by
  have hsplit := upToFailure_split_iff hirrefl h (b := b) fun _ => True
  simp only [and_true, implies_true, ← Option.ne_none_iff_exists'] at hsplit
  rw [← hsplit, List.mem_iff_append]

theorem find?_upToFailure_iff {f : α → Option β} {lt : α → α → Prop} (hirrefl : ∀ a, ¬ lt a a)
    {l : List α} (h : l.Pairwise fun a b => ¬ lt b a ∧ (f b ≠ none → lt a b)) {p : β → Bool}
    {b : β} :
    (upToFailure f l).find? p = some b ↔ p b = true ∧
      ∃ a ∈ l, f a = some b ∧ ∀ x ∈ l, lt x a → ∃ c, f x = some c ∧ (!p c) = true := by
  rw [List.find?_eq_some_iff_append, ← upToFailure_split_iff hirrefl h (fun c => (!p c) = true)]

end

end PowerGuru.Lib.NullableTable
