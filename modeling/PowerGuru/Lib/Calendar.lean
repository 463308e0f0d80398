import PowerGuru.Lib.Times

/-!
# Times in seconds

The seconds of a timestamp, counted from the first day of the calendar, and the reading of the
texts that `strftime` writes.
-/
namespace PowerGuru.Lib.Calendar

open PyRepr Times

def isLeap (year : Nat) : Bool := year % 4 == 0 && (year % 100 != 0 || year % 400 == 0)

def daysInMonth (year month : Nat) : Nat :=
  if month = 2 then if isLeap year then 29 else 28
  else if month = 4 ∨ month = 6 ∨ month = 9 ∨ month = 11 then 30
  else 31

def daysBeforeYear (year : Nat) : Nat :=
  let y := year - 1
  y * 365 + y / 4 - y / 100 + y / 400

def daysBeforeMonth (year month : Nat) : Nat :=
  ((List.range (month - 1)).map fun m => daysInMonth year (m + 1)).sum

/-- A day of the calendar and a time of the day. -/
def Valid (t : Timestamp) : Prop :=
  0 < t.year ∧ 0 < t.month ∧ t.month ≤ 12 ∧ 0 < t.day ∧ t.day ≤ daysInMonth t.year t.month ∧
    t.hour < 24 ∧ t.minute < 60 ∧ t.second < 60

instance (t : Timestamp) : Decidable (Valid t) := inferInstanceAs (Decidable (_ ∧ _))

def seconds (t : Timestamp) : Int :=
  let days := daysBeforeYear t.year + daysBeforeMonth t.year t.month + t.day
  ((days * 24 + t.hour) * 60 + t.minute) * 60 + t.second

/-- `strptime(s, "%Y-%m-%d %H:%M:%S")` on a text that `strftime` writes. -/
def strptime (s : Text) : Option Int :=
  match readTimestamp s with
  | some t => if s = t.strftime ∧ Valid t then some (seconds t) else none
  | none => none

theorem strptime_strftime {t : Timestamp} (h : Valid t) :
    strptime t.strftime = some (seconds t) := by
  rw [strptime, readTimestamp_cut]
  exact if_pos ⟨rfl, h⟩

end PowerGuru.Lib.Calendar
