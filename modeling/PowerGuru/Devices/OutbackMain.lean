import PowerGuru.Devices.OutbackExport
import PowerGuru.Devices.OutbackWire

/-!
# `outback::main`

The loop of the build with a database. Every pass takes a key and a string from
`readSerial`; both result codes of a string are dropped before its record is inserted.
-/
namespace PowerGuru.Devices.OutbackMain

open Lib.Bytes Common OutbackParse OutbackChecksum OutbackExport OutbackFrame OutbackWire

/-- What one pass of the loop meets: the key, the string and the memory behind it, and
the uninitialised record on the stack. -/
structure Pass where
  key : Int
  str : List Byte
  beyond : Nat → Byte
  md : MeterData
  str_nul : NUL ∉ str

/-- What happened to one string. -/
structure Handled where
  str : List Byte
  checksum : Retcode
  parsed : Except Fault Retcode
  inserted : Option MeterData

inductive Event where
  | setDTR (up : Bool)
  | puts (text : List Byte)
  | handled (h : Handled)

inductive Ending where
  /-- The passes are used up and the loop goes on. -/
  | waiting
  | quit
  | threw (e : Fault)

def help : List Event :=
  [.puts (bytes "PowerGuru - Outback Mode\r\n"), .puts (bytes "\t? - help\r\n"),
    .puts (bytes "\tq - Quit\r\n"), .puts (bytes "\tQ - Quit\r\n")]

def onKey (ch : Int) : List Event :=
  if ch = 100 then [.setDTR false]
  else if ch = 68 then [.setDTR true]
  else if ch = 63 then help
  else []

/-- `q` ends the while condition, `Q` returns from the switch. -/
def quits (ch : Int) : Prop := ch = 113 ∨ ch = 81

instance (ch : Int) : Decidable (quits ch) := inferInstanceAs (Decidable (_ ∨ _))

/-- The body of `if (str.size() > 0)`. -/
def handle (o : Outback) (p : Pass) : Handled × Except Fault Outback :=
  let checksum := calcChecksum (stored p.str p.beyond)
  match parse o p.str with
  | (.ok r, o') => (⟨p.str, checksum, .ok r, some (exportMeterData o' p.md)⟩, .ok o')
  | (.error e, _) => (⟨p.str, checksum, .error e, none⟩, .error e)

def main (o : Outback) : List Pass → List Event × Ending
  | [] => ([], .waiting)
  | p :: ps =>
      if quits p.key then ([], .quit)
      else if p.str = [] then
        let rest := main o ps
        (onKey p.key ++ rest.1, rest.2)
      else
        match handle o p with
        | (h, .ok o') =>
            let rest := main o' ps
            (onKey p.key ++ .handled h :: rest.1, rest.2)
        | (h, .error e) => (onKey p.key ++ [.handled h], .threw e)

/-- A record went to the database exactly if both checks passed. -/
def Handled.Verified (h : Handled) : Prop :=
  h.inserted.isSome = true ↔ h.checksum = .success ∧ h.parsed.toOption = some .success

def Event.Verified : Event → Prop
  | .handled h => h.Verified
  | _ => True

def OnlyVerified (es : List Event) : Prop := ∀ e ∈ es, e.Verified

/-- A string the loop treats right: its address is good, and when it is long enough to
be parsed at all its checksum matches. -/
def Genuine (p : Pass) : Prop :=
  addressOk p.str ∧ (45 ≤ p.str.length → calcChecksum (stored p.str p.beyond) = .success)

/-- Every string that reaches the loop is genuine. A shorter one than 45 bytes throws,
and nothing after it is read. -/
def Clean : List Pass → Prop
  | [] => True
  | p :: ps =>
      quits p.key ∨ (p.str = [] ∧ Clean ps) ∨
        (p.str ≠ [] ∧ Genuine p ∧ (45 ≤ p.str.length → Clean ps))

theorem cstr_str (p : Pass) : cstr p.str = p.str := cstr_of_not_mem p.str_nul

theorem handle_whole (o : Outback) {p : Pass} (h45 : 45 ≤ p.str.length) (ha : addressOk p.str) :
    handle o p = (⟨p.str, calcChecksum (stored p.str p.beyond), .ok .success,
      some (exportMeterData (assigned o p.str) p.md)⟩, .ok (assigned o p.str)) := by
  have hp : parse o p.str = (.ok .success, assigned o (cstr p.str)) :=
    parse_whole o (by rwa [cstr_str]) (by rwa [cstr_str])
  rw [cstr_str] at hp
  simp only [handle, hp]

theorem handle_short (o : Outback) {p : Pass} (h45 : p.str.length < 45) (ha : addressOk p.str) :
    handle o p = (⟨p.str, calcChecksum (stored p.str p.beyond), .error .outOfRange, none⟩,
      .error .outOfRange) := by
  obtain ⟨o', hp⟩ : ∃ o', parse o p.str = (.error .outOfRange, o') :=
    parse_short o (by rwa [cstr_str]) (by rwa [cstr_str])
  simp only [handle, hp]

theorem handle_bad_address (o : Outback) {p : Pass} (hs : p.str ≠ []) (ha : ¬ addressOk p.str) :
    ∃ o', handle o p = (⟨p.str, calcChecksum (stored p.str p.beyond), .ok .error,
      some (exportMeterData o' p.md)⟩, .ok o') := by
  have h1 : 1 ≤ (cstr p.str).length := by
    rw [cstr_str]
    exact List.length_pos_iff.mpr hs
  have hp : parse o p.str = (.ok .error, { o with address := (cstr p.str).getD 1 NUL }) :=
    parse_bad_address o h1 (by rwa [cstr_str])
  refine ⟨{ o with address := (cstr p.str).getD 1 NUL }, ?_⟩
  simp only [handle, hp]

theorem onKey_verified (ch : Int) : OnlyVerified (onKey ch) := by
  intro e he
  unfold onKey help at he
  split at he
  · rw [List.mem_singleton.mp he]; trivial
  · split at he
    · rw [List.mem_singleton.mp he]; trivial
    · split at he
      · simp only [List.mem_cons, List.not_mem_nil, or_false] at he
        rcases he with rfl | rfl | rfl | rfl <;> trivial
      · simp at he

theorem onlyVerified_append {ch : Int} {es : List Event} :
    OnlyVerified (onKey ch ++ es) ↔ OnlyVerified es := by
  constructor
  · exact fun h e he => h e (List.mem_append_right _ he)
  · intro h e he
    rcases List.mem_append.mp he with he | he
    · exact onKey_verified ch e he
    · exact h e he

theorem onlyVerified_handled {h : Handled} {es : List Event} :
    OnlyVerified (.handled h :: es) ↔ h.Verified ∧ OnlyVerified es := List.forall_mem_cons

theorem onlyVerified_nil : OnlyVerified [] := fun _ he => absurd he List.not_mem_nil

/-- The page of an MX on an idle console, as `readSerial` delivers it. -/
def filteredPass : Pass where
  key := -1
  str := body sampleMx.address sampleMx.slots
  beyond := fun _ => NUL
  md := ⟨0, .noDevice, 0, 0, 0, 0, 0, 0, 0, 0, 0, 0, 0, 0, 0⟩
  str_nul := nul_not_mem_body (Or.inr sampleMx.address_mx) sampleMx.fits

theorem filteredPass_inserted : ¬ OnlyVerified (main {} [filteredPass]).1 := by
  have ha : ¬ addressOk filteredPass.str := by decide
  obtain ⟨o', hh⟩ := handle_bad_address {} (by decide) ha
  intro h
  rw [main, if_neg (by decide), if_neg (by decide), hh, onlyVerified_append,
    onlyVerified_handled] at h
  have hp := (h.1.mp rfl).2
  simp [Except.toOption] at hp

/-- Over a whole run records and verified strings match exactly when every string that
reaches the loop is genuine. -/
theorem onlyVerified_main_iff (o : Outback) (ps : List Pass) :
    OnlyVerified (main o ps).1 ↔ Clean ps := by
  induction ps generalizing o with
  | nil => exact iff_of_true onlyVerified_nil trivial
  | cons p ps ih =>
    by_cases hq : quits p.key
    · rw [main, if_pos hq]
      exact iff_of_true onlyVerified_nil (Or.inl hq)
    by_cases hs : p.str = []
    · rw [main, if_neg hq, if_pos hs]
      change OnlyVerified (onKey p.key ++ (main o ps).1) ↔ _
      rw [onlyVerified_append, ih]
      simp [Clean, hq, hs]
    by_cases ha : addressOk p.str
    · by_cases h45 : 45 ≤ p.str.length
      · rw [main, if_neg hq, if_neg hs, handle_whole o h45 ha, onlyVerified_append,
          onlyVerified_handled, ih]
        simp [Clean, Genuine, Handled.Verified, Except.toOption, hq, hs, ha, h45]
      · -- `substr` throws before the insertion
        rw [main, if_neg hq, if_neg hs, handle_short o (Nat.not_le.mp h45) ha, onlyVerified_append,
          onlyVerified_handled]
        simp [Clean, Genuine, Handled.Verified, Except.toOption, onlyVerified_nil, hq, hs, ha, h45]
    · -- the rejected string is inserted all the same
      obtain ⟨o', hh⟩ := handle_bad_address o hs ha
      rw [main, if_neg hq, if_neg hs, hh, onlyVerified_append, onlyVerified_handled]
      simp [Clean, Genuine, Handled.Verified, Except.toOption, hq, hs, ha]

end PowerGuru.Devices.OutbackMain
