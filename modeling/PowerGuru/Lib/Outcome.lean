import PowerGuru.Lib.Loops

/-!
# Computations whose outcome is decided in advance

`Decides` says of a computation that a fact known before it settles whether it ends well.
Errors of one kind stand for the fact failing, errors of another may come at any time.
-/
namespace PowerGuru.Lib.Outcome

open Exec Loops

section
variable {ε σ α β : Type} {miss noise : ε → Prop}

def Decides (miss noise : ε → Prop) (x : ExceptT ε (StateM σ) α) (s : σ) (ok : Prop)
    (Q : σ → Prop) : Prop :=
  match exec x s with
  | (.ok _, t) => ok ∧ Q t
  | (.error e, _) => noise e ∨ miss e ∧ ¬ ok

theorem decides_ok {x : ExceptT ε (StateM σ) α} {s t : σ} {a : α} {ok : Prop} {Q : σ → Prop}
    (h : exec x s = (.ok a, t)) (hok : ok) (hQ : Q t) : Decides miss noise x s ok Q := by
  unfold Decides
  rw [h]
  exact ⟨hok, hQ⟩

theorem decides_miss {x : ExceptT ε (StateM σ) α} {s t : σ} {e : ε} {ok : Prop} {Q : σ → Prop}
    (h : exec x s = (.error e, t)) (hm : miss e) (hok : ¬ ok) : Decides miss noise x s ok Q := by
  unfold Decides
  rw [h]
  exact Or.inr ⟨hm, hok⟩

theorem decides_noise {x : ExceptT ε (StateM σ) α} {s t : σ} {e : ε} {ok : Prop} {Q : σ → Prop}
    (h : exec x s = (.error e, t)) (hn : noise e) : Decides miss noise x s ok Q := by
  unfold Decides
  rw [h]
  exact Or.inl hn

theorem Decides.congr {x : ExceptT ε (StateM σ) α} {s : σ} {ok ok' : Prop} {Q Q' : σ → Prop}
    (h : Decides miss noise x s ok Q) (hok : ok ↔ ok') (hQ : ∀ t, ok → Q t → Q' t) :
    Decides miss noise x s ok' Q' := by
  unfold Decides at h ⊢
  cases hx : exec x s with
  | mk r t =>
    rw [hx] at h
    cases r with
    | ok a => exact ⟨hok.mp h.1, hQ t h.1 h.2⟩
    | error e => exact h.imp_right fun hm => ⟨hm.1, fun hn => hm.2 (hok.mpr hn)⟩

/-- One after the other, if the first ends well. -/
theorem Decides.bind {x : ExceptT ε (StateM σ) α} {f : α → ExceptT ε (StateM σ) β} {s : σ}
    {ok ok' : Prop} {Q R : σ → Prop} (h : Decides miss noise x s ok Q)
    (hf : ok → ∀ a t, Q t → Decides miss noise (f a) t ok' R) :
    Decides miss noise (x >>= f) s (ok ∧ ok') R := by
  unfold Decides at h
  cases hx : exec x s with
  | mk r t =>
    rw [hx] at h
    cases r with
    | ok a =>
      obtain ⟨hok, hQ⟩ := h
      have hrest := hf hok a t hQ
      unfold Decides at hrest ⊢
      rw [exec_bind_ok hx]
      cases hy : exec (f a) t with
      | mk r t' =>
        rw [hy] at hrest
        cases r with
        | ok b => exact ⟨⟨hok, hrest.1⟩, hrest.2⟩
        | error e => exact hrest.imp_right fun hm => ⟨hm.1, fun hn => hm.2 hn.2⟩
    | error e =>
      unfold Decides
      rw [exec_bind_error hx]
      exact h.imp_right fun hm => ⟨hm.1, fun hn => hm.2 hn.1⟩

variable {act : ExceptT ε (StateM σ) Unit} {test : ExceptT ε (StateM σ) Bool}

theorem decides_times (I : Nat → σ → Prop) (ok : Nat → Prop)
    (hact : ∀ i s, I i s → Decides miss noise act s (ok i) (I (i + 1))) (n : Nat) :
    ∀ {i : Nat} {s : σ}, I i s →
      Decides miss noise (times act n) s (∀ j, j < n → ok (i + j)) (I (i + n)) := by
  induction n with
  | zero =>
    intro i s hI
    exact decides_ok (exec_pure () s) (fun j hj => absurd hj (by omega)) hI
  | succ n ih =>
    intro i s hI
    refine ((hact i s hI).bind fun _ _ t ht => ih ht).congr ?_ ?_
    · constructor
      · intro h j hj
        obtain ⟨h0, hrest⟩ := h
        cases j with
        | zero => exact h0
        | succ j =>
          have := hrest j (by omega)
          rwa [Nat.add_right_comm] at this
      · intro h
        refine ⟨h 0 (by omega), fun j hj => ?_⟩
        have := h (j + 1) (by omega)
        rwa [Nat.add_right_comm]
    · intro t _ ht
      rwa [Nat.add_right_comm] at ht

/-- A test that can fail fails in the first round. -/
theorem decides_retry (I : σ → Prop) (ok : Prop)
    (hact : ∀ s, I s → Decides miss noise act s True I)
    (htest : ∀ s, I s → Decides miss noise test s ok I) (n : Nat) :
    ∀ {s : σ}, I s → Decides miss noise (retry act test n) s (n = 0 ∨ ok) I := by
  induction n with
  | zero =>
    intro s hI
    exact decides_ok (exec_pure () s) (Or.inl rfl) hI
  | succ n ih =>
    intro s hI
    have hrest : ok → ∀ b t, I t →
        Decides miss noise (if b = true then pure () else retry act test n) t True I := by
      intro hok b t ht
      cases b with
      | true => exact decides_ok (exec_pure () t) trivial ht
      | false => exact (ih ht).congr (iff_of_true (Or.inr hok) trivial) fun _ _ h => h
    have hround := (hact s hI).bind fun _ _ t ht => (htest t ht).bind hrest
    refine hround.congr ?_ fun _ _ h => h
    simp

end

end PowerGuru.Lib.Outcome
