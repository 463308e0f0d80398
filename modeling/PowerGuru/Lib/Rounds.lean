import Mathlib.Tactic.Common

/-!
# Loops that go round until they are done

A round either goes on with the next state or ends the loop with a result. A loop that is
still going when the rounds are used up has no result.
-/
namespace PowerGuru.Lib.Rounds

variable {σ β : Type} {round : σ → σ ⊕ β}

def run (round : σ → σ ⊕ β) : Nat → σ → Option β
  | 0, _ => none
  | n + 1, s =>
      match round s with
      | .inl s' => run round n s'
      | .inr b => some b

/-- The loop ends, and this is its result. -/
def Returns (round : σ → σ ⊕ β) (s : σ) (b : β) : Prop := ∃ n, run round n s = some b

theorem run_next {s s' : σ} (h : round s = .inl s') (n : Nat) :
    run round (n + 1) s = run round n s' := by
  rw [run, h]

theorem run_last {s : σ} {b : β} (h : round s = .inr b) (n : Nat) :
    run round (n + 1) s = some b := by
  rw [run, h]

theorem returns_last {s : σ} {b c : β} (h : round s = .inr b) : Returns round s c ↔ c = b := by
  constructor
  · rintro ⟨n, hn⟩
    cases n with
    | zero => exact absurd hn (by simp [run])
    | succ n =>
      rw [run_last h] at hn
      exact (Option.some.inj hn).symm
  · rintro rfl
    exact ⟨1, run_last h 0⟩

theorem returns_next {s s' : σ} {b : β} (h : round s = .inl s') :
    Returns round s b ↔ Returns round s' b := by
  constructor
  · rintro ⟨n, hn⟩
    cases n with
    | zero => exact absurd hn (by simp [run])
    | succ n => exact ⟨n, by rwa [run_next h] at hn⟩
  · rintro ⟨n, hn⟩
    exact ⟨n + 1, by rwa [run_next h]⟩

theorem Returns.unique {s : σ} {b c : β} (hb : Returns round s b) (hc : Returns round s c) :
    b = c := by
  obtain ⟨n, hn⟩ := hb
  induction n generalizing s with
  | zero => exact absurd hn (by simp [run])
  | succ n ih =>
    cases h : round s with
    | inl s' =>
      rw [run_next h] at hn
      exact ih ((returns_next h).mp hc) hn
    | inr d =>
      rw [run_last h] at hn
      rw [(returns_last h).mp hc, Option.some.inj hn]

/-- Rounds that keep an invariant and never end under it go on for ever. -/
theorem not_returns {I : σ → Prop} (hround : ∀ s, I s → ∃ s', round s = .inl s' ∧ I s') {s : σ}
    (hs : I s) (b : β) : ¬ Returns round s b := by
  rintro ⟨n, hn⟩
  induction n generalizing s with
  | zero => exact absurd hn (by simp [run])
  | succ n ih =>
    obtain ⟨s', h, hs'⟩ := hround s hs
    rw [run_next h] at hn
    exact ih hs' hn

end PowerGuru.Lib.Rounds
