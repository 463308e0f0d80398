import Mathlib.Data.List.Basic

/-!
# Handles that a system gives out

What a program does with handles is a list of events. A handle is gone once it was
closed after it was given out; the same handle may be given out again later.
-/
namespace PowerGuru.Lib.Handles

section
variable {η : Type}

/-- An attempt to close a handle may fail, and may release it all the same. -/
inductive Event (η : Type) where
  | obtained (h : η)
  | used (h : η)
  | closed (h : η) (released : Bool)

inductive Mark where
  /-- Never given out. -/
  | loose
  | held
  /-- Given out, and closed since. -/
  | gone
  deriving DecidableEq

/-- Closing a handle that was not given out changes nothing. -/
def Mark.closed (released : Bool) : Mark → Mark
  | .held => if released = true then .gone else .held
  | m => m

variable [DecidableEq η]

/-- What the events have made of a handle. The newest comes first. -/
def mark : List (Event η) → η → Mark
  | [], _ => .loose
  | .obtained k :: before, h => if k = h then .held else mark before h
  | .used _ :: before, h => mark before h
  | .closed k released :: before, h =>
      if k = h then (mark before h).closed released else mark before h

/-- Nothing is done with a handle that is gone. -/
def Event.Legal (before : List (Event η)) : Event η → Prop
  | .obtained _ => True
  | .used h => mark before h ≠ .gone
  | .closed h _ => mark before h ≠ .gone

def Orderly : List (Event η) → List (Event η) → Prop
  | _, [] => True
  | before, e :: es => e.Legal before ∧ Orderly (e :: before) es

@[simp] theorem mark_obtained (before : List (Event η)) (h : η) :
    mark (.obtained h :: before) h = .held := if_pos rfl

theorem mark_obtained_ne {before : List (Event η)} {k h : η} (hne : k ≠ h) :
    mark (.obtained k :: before) h = mark before h := if_neg hne

@[simp] theorem mark_used (before : List (Event η)) (k h : η) :
    mark (.used k :: before) h = mark before h := rfl

@[simp] theorem mark_closed (before : List (Event η)) (h : η) (released : Bool) :
    mark (.closed h released :: before) h = (mark before h).closed released := if_pos rfl

theorem mark_closed_ne {before : List (Event η)} {k h : η} (hne : k ≠ h) (released : Bool) :
    mark (.closed k released :: before) h = mark before h := if_neg hne

@[simp] theorem orderly_nil (before : List (Event η)) : Orderly before [] ↔ True := Iff.rfl

theorem orderly_cons (before : List (Event η)) (e : Event η) (es : List (Event η)) :
    Orderly before (e :: es) ↔ e.Legal before ∧ Orderly (e :: before) es := Iff.rfl

@[simp] theorem orderly_obtained (before : List (Event η)) (h : η) (es : List (Event η)) :
    Orderly before (.obtained h :: es) ↔ Orderly (.obtained h :: before) es :=
  and_iff_right trivial

@[simp] theorem orderly_used (before : List (Event η)) (h : η) (es : List (Event η)) :
    Orderly before (.used h :: es) ↔
      mark before h ≠ .gone ∧ Orderly (.used h :: before) es := Iff.rfl

@[simp] theorem orderly_closed (before : List (Event η)) (h : η) (released : Bool)
    (es : List (Event η)) :
    Orderly before (.closed h released :: es) ↔
      mark before h ≠ .gone ∧ Orderly (.closed h released :: before) es := Iff.rfl

theorem orderly_append (before es fs : List (Event η)) :
    Orderly before (es ++ fs) ↔ Orderly before es ∧ Orderly (es.reverse ++ before) fs := by
  induction es generalizing before with
  | nil => simp
  | cons e es ih =>
    rw [List.cons_append, orderly_cons, orderly_cons, ih, and_assoc, List.reverse_cons,
      List.append_assoc]
    rfl

end

end PowerGuru.Lib.Handles
