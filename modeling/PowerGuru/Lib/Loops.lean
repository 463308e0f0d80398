import PowerGuru.Lib.Exec
import Mathlib.Logic.Function.Iterate

/-!
# Two loops over stateful computations

`times` repeats a computation, `retry` repeats it until a test accepts or the tries are
used up. The rules follow a quantity through the rounds while an inherited property holds.
-/
namespace PowerGuru.Lib.Loops

open Exec

section
variable {ε σ α : Type} {P : σ → Prop}

/-- `for (i=0; i<n; i++) x;` -/
def times (x : ExceptT ε (StateM σ) Unit) : Nat → ExceptT ε (StateM σ) Unit
  | 0 => pure ()
  | n + 1 => do
      x
      times x n

/-- `while (n--) { act; if (test) break; }` -/
def retry (act : ExceptT ε (StateM σ) Unit) (test : ExceptT ε (StateM σ) Bool) :
    Nat → ExceptT ε (StateM σ) Unit
  | 0 => pure ()
  | n + 1 => do
      act
      if ← test then pure () else retry act test n

variable {act : ExceptT ε (StateM σ) Unit} {test : ExceptT ε (StateM σ) Bool}

theorem inherits_times (h : Inherits P act) (n : Nat) : Inherits P (times act n) := by
  induction n with
  | zero => exact inherits_pure ()
  | succ n ih => exact inherits_bind h fun _ => ih

theorem inherits_retry (ha : Inherits P act) (ht : Inherits P test) (n : Nat) :
    Inherits P (retry act test n) := by
  induction n with
  | zero => exact inherits_pure ()
  | succ n ih =>
    apply inherits_bind ha
    intro _
    apply inherits_bind ht
    intro b
    cases b
    · exact ih
    · exact inherits_pure ()

theorem inherits_rest (ha : Inherits P act) (ht : Inherits P test) (n : Nat) :
    Inherits P (do if ← test then pure () else retry act test n) := by
  apply inherits_bind ht
  intro b
  cases b
  · exact inherits_retry ha ht n
  · exact inherits_pure ()

/-- What each good round adds to an indexed invariant. -/
theorem times_invariant (hP : Inherits P act) (I : Nat → σ → Prop)
    (hround : ∀ i s s', I i s → P s' → exec act s = (.ok (), s') → I (i + 1) s') (n : Nat) :
    ∀ {i : Nat} {s t : σ}, I i s → P t → exec (times act n) s = (.ok (), t) → I (i + n) t := by
  induction n with
  | zero =>
    intro i s t hI _ h
    obtain ⟨-, rfl⟩ := Prod.mk.inj h
    exact hI
  | succ n ih =>
    intro i s t hI ht h
    obtain ⟨_, s', hs, hrest⟩ := exec_bind_ok_iff.mp h
    have hs' : P s' := inherits_times hP n s' (by rwa [hrest])
    have hn := ih (hround i s s' hI hs' hs) ht hrest
    rwa [Nat.add_right_comm] at hn

/-- Rounds that cannot fail under the invariant end well. -/
theorem times_total (hP : Inherits P act) (I : Nat → σ → Prop)
    (hround : ∀ i s, I i s → P (exec act s).2 → ∃ s', exec act s = (.ok (), s') ∧ I (i + 1) s')
    (n : Nat) :
    ∀ {i : Nat} {s : σ}, I i s → P (exec (times act n) s).2 →
      ∃ t, exec (times act n) s = (.ok (), t) ∧ I (i + n) t := by
  induction n with
  | zero =>
    intro i s hI _
    exact ⟨s, rfl, hI⟩
  | succ n ih =>
    intro i s hI h
    obtain ⟨s', hs, hI'⟩ := hround i s hI (inherits_left (fun _ => inherits_times hP n) h)
    rw [times, exec_bind_ok hs] at h
    obtain ⟨t, ht, hn⟩ := ih hI' h
    refine ⟨t, ?_, ?_⟩
    · rw [times, exec_bind_ok hs, ht]
    · rwa [Nat.add_right_comm] at hn

/-- A search of at most `n` rounds ended after `m` of them. -/
structure Sought (hit : Nat → Bool) (n m : Nat) : Prop where
  le : m ≤ n
  pos : 0 < n → 0 < m
  before : ∀ j, 0 < j → j < m → hit j = false
  found : m < n → hit m = true

/-- The first round hits. -/
theorem Sought.here {hit : Nat → Bool} (h : hit 1 = true) (n : Nat) : Sought hit (n + 1) 1 where
  le := by omega
  pos _ := by omega
  before j hj hlt := by omega
  found _ := h

/-- The first round misses, and the search goes on from the second. -/
theorem Sought.later {hit : Nat → Bool} {n m : Nat} (hmiss : hit 1 = false)
    (h : Sought (fun j => hit (j + 1)) n m) : Sought hit (n + 1) (m + 1) where
  le := Nat.succ_le_succ h.le
  pos _ := Nat.succ_pos m
  before j hj hlt := by
    obtain ⟨i, rfl⟩ := Nat.exists_eq_add_one.mpr hj
    cases i with
    | zero => exact hmiss
    | succ i => exact h.before (i + 1) (by omega) (by omega)
  found hlt := h.found (by omega)

/-- A round that hits ends the search exactly if it is within reach and no round before
it hits. -/
theorem Sought.eq_iff {hit : Nat → Bool} {n m k : Nat} (h : Sought hit n m) (hn : 0 < n)
    (hk : hit k = true) : m = k ↔ 0 < k ∧ k ≤ n ∧ ∀ j, 0 < j → j < k → hit j = false := by
  constructor
  · rintro rfl
    exact ⟨h.pos hn, h.le, h.before⟩
  · rintro ⟨hpos, hle, hbefore⟩
    by_contra hne
    rcases Nat.lt_or_gt_of_ne hne with hlt | hgt
    · have hm := h.found (by omega)
      rw [hbefore m (h.pos hn) hlt] at hm
      exact absurd hm (by decide)
    · rw [h.before k hpos hgt] at hk
      exact absurd hk (by decide)

/-- Each round moves the watched quantity by `step` and tests it. -/
theorem retry_sought (hact : Inherits P act) (htest : Inherits P test) (C : σ → Prop)
    (watch : σ → α) (step : α → α) (hit : α → Bool)
    (hround : ∀ s, C s → P (exec act s).2 → ∃ s', exec act s = (.ok (), s') ∧ C s' ∧
      watch s' = step (watch s) ∧ exec test s' = (.ok (hit (watch s')), s')) (n : Nat) :
    ∀ {s : σ}, C s → P (exec (retry act test n) s).2 →
      ∃ m t, exec (retry act test n) s = (.ok (), t) ∧ C t ∧ watch t = step^[m] (watch s) ∧
        Sought (fun j => hit (step^[j] (watch s))) n m := by
  induction n with
  | zero =>
    intro s hC _
    refine ⟨0, s, rfl, hC, rfl, Nat.le_refl 0, fun h => h, ?_, ?_⟩
    · intro j hj hlt
      omega
    · intro h
      omega
  | succ n ih =>
    intro s hC h
    obtain ⟨s', hs, hC', hw, ht⟩ :=
      hround s hC (inherits_left (fun _ => inherits_rest hact htest n) h)
    rw [retry, exec_bind_ok hs, exec_bind_ok ht] at h ⊢
    have hfirst : hit (step^[1] (watch s)) = hit (watch s') := by rw [hw, Function.iterate_one]
    by_cases hhit : hit (watch s') = true
    · rw [if_pos hhit]
      exact ⟨1, s', rfl, hC', hw, .here (hfirst.trans hhit) n⟩
    · rw [if_neg hhit] at h ⊢
      obtain ⟨m, t, hm, hCt, hwt, hsought⟩ := ih hC' h
      have hshift : ∀ j, step^[j] (watch s') = step^[j + 1] (watch s) := by
        intro j
        rw [hw, Function.iterate_succ_apply]
      simp only [hshift] at hsought
      have hmiss : hit (step^[1] (watch s)) = false := hfirst.trans (Bool.eq_false_iff.mpr hhit)
      exact ⟨m + 1, t, hm, hCt, by rw [hwt, hshift], .later hmiss hsought⟩

end

end PowerGuru.Lib.Loops
