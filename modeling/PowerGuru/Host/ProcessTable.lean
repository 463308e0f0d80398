import PowerGuru.Lib.AssocMap
import PowerGuru.Lib.Bytes

/-!
# `Proc`

The table of started processes. `operator[]` gives a name that was never started the
pid 0, and `Stop` neither looks at the pid nor takes the name out of the table.
-/
namespace PowerGuru.Host.ProcessTable

open Lib.Bytes Lib.AssocMap

abbrev Name := List Byte

structure Proc where
  output : List (Name × Bool) := []
  tbl : List (Name × Int) := []

/-- `tbl[procname]`. -/
def Proc.pid (p : Proc) (procname : Name) : Int := (p.tbl.lookup procname).getD 0

/-- What `tbl[procname]` leaves behind. -/
def Proc.touched (p : Proc) (procname : Name) : Proc := { p with tbl := touch p.tbl procname 0 }

/-- What `fork` returns: -1, 0 in the child, the pid of the child in the parent. -/
inductive Fork where
  | failed
  | child
  | parent (childpid : Int) (positive : 0 < childpid)

/-- `Start`, given whether `stat` finds the file and what `fork` returns. In the child it
does not return: that ends in `execv` or `exit`. -/
def start (p : Proc) (procname : Name) (b found : Bool) (fork : Fork) : Option (Bool × Proc) :=
  let p := { p with output := assign p.output procname b }
  if found = false then some (false, p)
  else
    match fork with
    | .parent childpid _ => some (true, { p with tbl := assign p.tbl procname childpid })
    | .failed => some (false, p)
    | .child => none

def find (p : Proc) (procname : Name) : Int × Proc := (p.pid procname, p.touched procname)

/-- `Stop`, given whether `kill` succeeds; the pid is the one the signal goes to. -/
def stop (p : Proc) (procname : Name) (killed : Bool) : Bool × Int × Proc :=
  (killed, p.pid procname, p.touched procname)

/-! ## Runs -/

inductive Call where
  | start (procname : Name) (b found : Bool) (fork : Fork)
  | find (procname : Name)
  | stop (procname : Name) (killed : Bool)

inductive Returned where
  | flag (b : Bool)
  | pid (n : Int)
  deriving DecidableEq

/-- A call that has returned, and the pid it sent a signal to. -/
structure Record where
  call : Call
  returned : Returned
  signal : Option Int

def step (p : Proc) (c : Call) : Option (Record × Proc) :=
  match c with
  | .start procname b found fork =>
      (start p procname b found fork).map fun r => (⟨c, .flag r.1, none⟩, r.2)
  | .find procname =>
      let r := find p procname
      some (⟨c, .pid r.1, none⟩, r.2)
  | .stop procname killed =>
      let r := stop p procname killed
      some (⟨c, .flag r.1, some r.2.1⟩, r.2.2)

/-- The calls that return, up to a `fork` in whose child the run goes on. -/
def records (p : Proc) : List Call → List Record
  | [] => []
  | c :: cs =>
      match step p c with
      | none => []
      | some (r, p) => r :: records p cs

/-! ## Safety -/

/-- A successful `Start` of the name with that pid. -/
def Record.Started (r : Record) (procname : Name) (pid : Int) : Prop :=
  ∃ b found h, r.call = .start procname b found (.parent pid h) ∧ r.returned = .flag true

/-- A `Stop` that reached that pid. -/
def Record.Stopped (r : Record) (pid : Int) : Prop :=
  ∃ procname, r.call = .stop procname true ∧ r.signal = some pid

/-- An earlier `Start` of the name recorded the pid, and it has not been stopped since.
The newest record comes first. -/
def Running : List Record → Name → Int → Prop
  | [], _, _ => False
  | r :: before, procname, pid =>
      r.Started procname pid ∨ ¬ r.Stopped pid ∧ Running before procname pid

/-- A `Stop` signals a running process of that name, and if there is none it sends nothing
and fails. -/
def Record.Proper (r : Record) (before : List Record) : Prop :=
  ∀ procname killed, r.call = .stop procname killed →
    (∀ pid, r.signal = some pid → Running before procname pid) ∧
    ((¬ ∃ pid, Running before procname pid) → r.signal = none ∧ r.returned = .flag false)

def Safe : List Record → List Record → Prop
  | _, [] => True
  | before, r :: rs => r.Proper before ∧ Safe (r :: before) rs

/-! ## The processes there are -/

/-- The pid of a name whose process has been started and not stopped. -/
abbrev Live := Name → Option Int

def Live.none : Live := fun _ => Option.none

/-- A process that is stopped is gone under every name it was recorded with. -/
def Live.after (live : Live) : Call → Live
  | .start procname _ true (.parent childpid _) => Function.update live procname (some childpid)
  | .start _ _ _ _ => live
  | .find _ => live
  | .stop procname true => fun n => if live n = live procname then Option.none else live n
  | .stop _ false => live

/-- Every `Stop` is of a name with a live process. -/
def Covered (live : Live) : List Call → Prop
  | [] => True
  | .start _ _ true .child :: _ => True
  | .stop procname killed :: cs =>
      live procname ≠ Option.none ∧ Covered (live.after (.stop procname killed)) cs
  | c :: cs => Covered (live.after c) cs

/-! ## The table and the processes -/

theorem pid_touched (p : Proc) (procname n : Name) : (p.touched procname).pid n = p.pid n :=
  lookup_touch p.tbl procname n 0

theorem pid_assign (p : Proc) (procname n : Name) (pid : Int) :
    ({ p with tbl := assign p.tbl procname pid } : Proc).pid n =
      if n = procname then pid else p.pid n := by
  by_cases h : n = procname
  · rw [h, if_pos rfl, Proc.pid, lookup_assign_self]
    rfl
  · rw [if_neg h, Proc.pid, lookup_assign_of_ne _ h]
    rfl

/-- A call that neither starts nor stops a process. -/
theorem running_idle {r : Record} (hstart : ∀ n pid, ¬ r.Started n pid)
    (hstop : ∀ pid, ¬ r.Stopped pid) (before : List Record) (n : Name) (pid : Int) :
    Running (r :: before) n pid ↔ Running before n pid := by
  simp [Running, hstart, hstop]

/-- Under a name with a live process stands its pid, under any other one that is not
running. -/
def Agrees (p : Proc) (before : List Record) (live : Live) : Prop :=
  ∀ n, (live n = some (p.pid n) ∧ Running before n (p.pid n)) ∨
    (live n = Option.none ∧ ¬ Running before n (p.pid n))

theorem agrees_initial : Agrees {} [] Live.none := fun _ => Or.inr ⟨rfl, id⟩

theorem Agrees.idle {p p' : Proc} {before : List Record} {live : Live} (h : Agrees p before live)
    (hpid : ∀ n, p'.pid n = p.pid n) {r : Record} (hstart : ∀ n pid, ¬ r.Started n pid)
    (hstop : ∀ pid, ¬ r.Stopped pid) : Agrees p' (r :: before) live := by
  intro n
  rw [hpid, running_idle hstart hstop]
  exact h n

theorem Agrees.started {p : Proc} {before : List Record} {live : Live} (h : Agrees p before live)
    (procname : Name) (b : Bool) {childpid : Int} (hpos : 0 < childpid) :
    Agrees { p with output := assign p.output procname b, tbl := assign p.tbl procname childpid }
      (⟨.start procname b true (.parent childpid hpos), .flag true, none⟩ :: before)
      (Function.update live procname (some childpid)) := by
  intro n
  have hpid := pid_assign { p with output := assign p.output procname b } procname n childpid
  rw [hpid]
  by_cases hn : n = procname
  · left
    rw [if_pos hn, hn, Function.update_self]
    exact ⟨rfl, Or.inl ⟨b, true, hpos, rfl, rfl⟩⟩
  · have hiff : ∀ pid, Running
        (⟨.start procname b true (.parent childpid hpos), .flag true, none⟩ :: before) n pid ↔
          Running before n pid := by
      intro pid
      simp [Running, Record.Started, Record.Stopped, Ne.symm hn]
    rw [if_neg hn, Function.update_of_ne hn, hiff]
    exact h n

theorem Agrees.stopped {p : Proc} {before : List Record} {live : Live} (h : Agrees p before live)
    {procname : Name} (hlive : live procname ≠ none) (killed : Bool) :
    Agrees (p.touched procname)
      (⟨.stop procname killed, .flag killed, some (p.pid procname)⟩ :: before)
      (live.after (.stop procname killed)) := by
  obtain ⟨hsome, -⟩ := (h procname).resolve_right fun hnone => hlive hnone.1
  cases killed with
  | false =>
    apply h.idle (pid_touched p procname)
    · simp [Record.Started]
    · simp [Record.Stopped]
  | true =>
    intro n
    have hrunning : Running (⟨.stop procname true, .flag true, some (p.pid procname)⟩ :: before) n
        (p.pid n) ↔ p.pid n ≠ p.pid procname ∧ Running before n (p.pid n) := by
      simp [Running, Record.Started, Record.Stopped, eq_comm]
    rw [pid_touched, hrunning]
    simp only [Live.after, hsome]
    rcases h n with ⟨hn, hrun⟩ | ⟨hn, hrun⟩
    · rw [hn]
      by_cases he : p.pid n = p.pid procname
      · right
        simp [he]
      · left
        simp [he, hrun]
    · right
      simp [hn, hrun]

/-- A `Stop` is proper exactly if the name has a live process. -/
theorem Agrees.proper_stop_iff {p : Proc} {before : List Record} {live : Live}
    (h : Agrees p before live) (procname : Name) (killed : Bool) :
    (Record.mk (.stop procname killed) (.flag killed) (some (p.pid procname))).Proper before ↔
      live procname ≠ none := by
  rcases h procname with ⟨hlive, hrun⟩ | ⟨hlive, hrun⟩
  · refine iff_of_true ?_ (by simp [hlive])
    intro n k hc
    obtain ⟨rfl, rfl⟩ : procname = n ∧ killed = k := by simpa using hc
    refine ⟨?_, fun hnone => absurd ⟨_, hrun⟩ hnone⟩
    intro pid hp
    rw [← Option.some.inj hp]
    exact hrun
  · refine iff_of_false ?_ (by simp [hlive])
    intro hproper
    exact hrun ((hproper procname killed rfl).1 _ rfl)

theorem proper_of_call {r : Record} (h : ∀ n k, r.call ≠ .stop n k) (before : List Record) :
    r.Proper before := fun n k hc => absurd hc (h n k)

/-- The records of a run are safe exactly if each `Stop` in it is of a live process. -/
theorem Agrees.safe_iff {p : Proc} {before : List Record} {live : Live} (h : Agrees p before live)
    (cs : List Call) : Safe before (records p cs) ↔ Covered live cs := by
  induction cs generalizing p before live with
  | nil => exact Iff.rfl
  | cons c cs ih =>
    cases c with
    | find procname =>
      have hproper : (Record.mk (.find procname) (.pid (p.pid procname)) none).Proper before :=
        proper_of_call (by simp) before
      refine (and_iff_right hproper).trans (ih ?_)
      apply h.idle (pid_touched p procname)
      · simp [Record.Started]
      · simp [Record.Stopped]
    | stop procname killed =>
      have hproper := h.proper_stop_iff procname killed
      rw [Covered, ← hproper]
      refine and_congr_right fun hp => ?_
      exact ih (h.stopped (hproper.mp hp) killed)
    | start procname b found fork =>
      have hproper : ∀ flag,
          (Record.mk (.start procname b found fork) (.flag flag) none).Proper before :=
        fun flag => proper_of_call (by simp) before
      have hfailed : Agrees { p with output := assign p.output procname b }
          (⟨.start procname b found fork, .flag false, none⟩ :: before) live :=
        h.idle (fun n => rfl) (by simp [Record.Started]) (by simp [Record.Stopped])
      cases found with
      | false => exact (and_iff_right (hproper false)).trans (ih hfailed)
      | true =>
        cases fork with
        | failed => exact (and_iff_right (hproper false)).trans (ih hfailed)
        | child => exact iff_of_true trivial trivial
        | parent childpid hpos =>
          exact (and_iff_right (hproper true)).trans (ih (h.started procname b hpos))

/-- A `Stop` of a name that was never started goes to the process group of the caller. -/
theorem stop_unknown_unsafe :
    ¬ Safe [] (records {} [.stop (bytes "/usr/bin/outback") true]) := by
  intro h
  obtain ⟨hproper, -⟩ := h
  exact (hproper (bytes "/usr/bin/outback") true rfl).1 0 rfl

/-- A run sends signals only to what it started and has not stopped, and none on other
names, exactly if each `Stop` in it is of a name that has a live process. -/
theorem safe_iff_covered (cs : List Call) :
    Safe [] (records {} cs) ↔ Covered Live.none cs := agrees_initial.safe_iff cs

end PowerGuru.Host.ProcessTable
