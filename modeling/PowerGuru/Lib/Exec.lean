/-!
# Computations that may stop and leave a state behind

An `ExceptT ε (StateM σ)` computation ends with a value or an error, and with a state in
either case.
-/
namespace PowerGuru.Lib.Exec

section
variable {ε σ α β : Type}

/-- How a computation ends, and the state it leaves. -/
def exec (x : ExceptT ε (StateM σ) α) (s : σ) : Except ε α × σ := x.run s

theorem exec_ext {x y : ExceptT ε (StateM σ) α} (h : ∀ s, exec x s = exec y s) : x = y := funext h

theorem exec_bind (x : ExceptT ε (StateM σ) α) (f : α → ExceptT ε (StateM σ) β) (s : σ) :
    exec (x >>= f) s =
      match exec x s with
      | (.ok a, s') => exec (f a) s'
      | (.error e, s') => (.error e, s') := by
  cases hx : exec x s with
  | mk r s' =>
    have hx' : x s = (r, s') := hx
    cases r with
    | ok a =>
      simp [exec, bind, ExceptT.bind, ExceptT.mk, ExceptT.run, StateT.bind, hx', ExceptT.bindCont]
    | error e =>
      simp [exec, bind, ExceptT.bind, ExceptT.mk, ExceptT.run, StateT.bind, hx', ExceptT.bindCont]
      rfl

theorem exec_pure (a : α) (s : σ) :
    exec (pure a : ExceptT ε (StateM σ) α) s = (.ok a, s) := rfl

theorem exec_get (s : σ) : exec (get : ExceptT ε (StateM σ) σ) s = (.ok s, s) := rfl

theorem exec_set (s t : σ) : exec (set t : ExceptT ε (StateM σ) PUnit) s = (.ok (), t) := rfl

theorem exec_modify (f : σ → σ) (s : σ) :
    exec (modify f : ExceptT ε (StateM σ) PUnit) s = (.ok (), f s) := rfl

theorem exec_lift (x : Except ε α) (s : σ) :
    exec (liftM x : ExceptT ε (StateM σ) α) s = (x, s) := rfl

/-- What holds of the state behind a computation held of the state before it. -/
def Inherits (P : σ → Prop) (x : ExceptT ε (StateM σ) α) : Prop := ∀ s, P (exec x s).2 → P s

/-- It holds behind the first part if it holds behind both. -/
theorem inherits_left {P : σ → Prop} {x : ExceptT ε (StateM σ) α}
    {f : α → ExceptT ε (StateM σ) β} (hf : ∀ a, Inherits P (f a)) {s : σ}
    (h : P (exec (x >>= f) s).2) : P (exec x s).2 := by
  rw [exec_bind] at h
  cases he : exec x s with
  | mk r s' =>
    rw [he] at h
    cases r with
    | ok a => exact hf a s' h
    | error e => exact h

theorem inherits_bind {P : σ → Prop} {x : ExceptT ε (StateM σ) α}
    {f : α → ExceptT ε (StateM σ) β} (hx : Inherits P x) (hf : ∀ a, Inherits P (f a)) :
    Inherits P (x >>= f) := fun s h => hx s (inherits_left hf h)

/-- Nothing happens to the state of a computation that only reads it. -/
theorem inherits_of_reads {P : σ → Prop} {x : ExceptT ε (StateM σ) α}
    (h : ∀ s, (exec x s).2 = s) : Inherits P x := fun s hs => h s ▸ hs

theorem inherits_get {P : σ → Prop} : Inherits P (get : ExceptT ε (StateM σ) σ) := fun _ h => h

theorem inherits_pure {P : σ → Prop} (a : α) :
    Inherits P (pure a : ExceptT ε (StateM σ) α) := fun _ h => h

theorem exec_bind_ok {x : ExceptT ε (StateM σ) α} {s s' : σ} {a : α} (h : exec x s = (.ok a, s'))
    (f : α → ExceptT ε (StateM σ) β) : exec (x >>= f) s = exec (f a) s' := by
  rw [exec_bind, h]

theorem exec_bind_error {x : ExceptT ε (StateM σ) α} {s s' : σ} {e : ε}
    (h : exec x s = (.error e, s')) (f : α → ExceptT ε (StateM σ) β) :
    exec (x >>= f) s = (.error e, s') := by
  rw [exec_bind, h]

/-- What ends well ended well in its first part. -/
theorem exec_bind_ok_iff {x : ExceptT ε (StateM σ) α} {f : α → ExceptT ε (StateM σ) β}
    {s t : σ} {b : β} :
    exec (x >>= f) s = (.ok b, t) ↔
      ∃ a s', exec x s = (.ok a, s') ∧ exec (f a) s' = (.ok b, t) := by
  constructor
  · intro h
    cases hx : exec x s with
    | mk r s' =>
      cases r with
      | ok a => exact ⟨a, s', rfl, by rwa [exec_bind_ok hx] at h⟩
      | error e =>
        rw [exec_bind_error hx] at h
        exact absurd (Prod.mk.inj h).1 (by simp)
  · rintro ⟨a, s', hx, hf⟩
    rw [exec_bind_ok hx, hf]

end

end PowerGuru.Lib.Exec
