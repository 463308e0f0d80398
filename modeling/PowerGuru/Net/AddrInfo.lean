import PowerGuru.Lib.Numeral
import PowerGuru.Lib.Rounds

/-!
# `Tcputil::getAddrInfo`

What `getaddrinfo` returns is a linked list. The loop looks one entry ahead and pushes the
one it stands on.
-/
namespace PowerGuru.Net.AddrInfo

open Lib.Bytes Lib.Numeral Lib.Rounds

/-- `ai_next`, by the address of an entry. -/
abbrev Heap := Nat → Option Nat

/-- The entries from one address to the last, in their order. -/
inductive Chain (next : Heap) : Nat → List Nat → Prop
  | last {addr : Nat} (h : next addr = none) : Chain next addr [addr]
  | step {addr addr' : Nat} {entries : List Nat} (h : next addr = some addr')
      (hrest : Chain next addr' entries) : Chain next addr (addr :: entries)

/-- A list that `getaddrinfo` has allocated. -/
structure Answer where
  next : Heap
  first : Nat
  entries : List Nat
  chain : Chain next first entries

inductive Family where
  | unspec
  | inet

/-- The stream sockets that are asked for. -/
structure Hints where
  family : Family
  passive : Bool
  protocol : Int

structure Request where
  node : Option (List Byte)
  service : List Byte
  hints : Hints

structure Tcputil where
  hostname : List Byte
  proto : Int
  addrinfo : List Nat

def request (u : Tcputil) (hostname : List Byte) (port : UInt16) : Request :=
  if hostname = [] then ⟨none, decimal port.toNat, ⟨.unspec, true, u.proto⟩⟩
  else ⟨some (cstr hostname), decimal port.toNat, ⟨.inet, false, u.proto⟩⟩

/-- A round of the while loop, with the vector. -/
def round (next : Heap) : Nat × List Nat → (Nat × List Nat) ⊕ List Nat
  | (addr, addrinfo) =>
      match next addr with
      | none => .inr addrinfo
      | some addr' => .inl (addr', addrinfo ++ [addr])

/-- The entry that is alone is pushed in front of the loop. -/
def start (next : Heap) (ans : Nat) (addrinfo : List Nat) : List Nat :=
  match next ans with
  | none => addrinfo ++ [ans]
  | some _ => addrinfo

/-- The answer and the object, if so many rounds are enough. -/
def getAddrInfo (resolve : Request → Except Int Answer) (u : Tcputil) (hostname : List Byte)
    (port : UInt16) (rounds : Nat) : Option (Option Nat × Tcputil) :=
  let v := if hostname = [] then u else { u with hostname := hostname }
  match resolve (request u hostname port) with
  | .error _ => some (none, v)
  | .ok a =>
      (run (round a.next) rounds (a.first, start a.next a.first v.addrinfo)).map
        fun addrinfo => (some a.first, { v with addrinfo := addrinfo })

/-- The call ends, and has added exactly these entries. -/
def Adds (resolve : Request → Except Int Answer) (u : Tcputil) (hostname : List Byte)
    (port : UInt16) (entries : List Nat) : Prop :=
  ∃ rounds ans v, getAddrInfo resolve u hostname port rounds = some (ans, v) ∧
    v.addrinfo = u.addrinfo ++ entries

/-! ## The loop -/

theorem round_last {next : Heap} {addr : Nat} (h : next addr = none) (addrinfo : List Nat) :
    round next (addr, addrinfo) = .inr addrinfo := by
  rw [round, h]

theorem round_step {next : Heap} {addr addr' : Nat} (h : next addr = some addr')
    (addrinfo : List Nat) :
    round next (addr, addrinfo) = .inl (addr', addrinfo ++ [addr]) := by
  rw [round, h]

theorem Chain.ne_nil {next : Heap} {addr : Nat} {entries : List Nat}
    (h : Chain next addr entries) : entries ≠ [] := by
  cases h <;> exact List.cons_ne_nil _ _

/-- The loop ends on the last entry and pushes those in front of it. -/
theorem returns_dropLast {next : Heap} {addr : Nat} {entries : List Nat}
    (h : Chain next addr entries) (addrinfo : List Nat) :
    Returns (round next) (addr, addrinfo) (addrinfo ++ entries.dropLast) := by
  induction h generalizing addrinfo with
  | last h =>
    rw [returns_last (round_last h addrinfo)]
    exact List.append_nil addrinfo
  | @step addr addr' entries h hrest ih =>
    rw [returns_next (round_step h addrinfo), List.dropLast_cons_of_ne_nil hrest.ne_nil]
    have hih := ih (addrinfo ++ [addr])
    rwa [List.append_assoc, List.singleton_append] at hih

/-- What is added: the one entry there is, or all but the last. -/
def added : List Nat → List Nat
  | [addr] => [addr]
  | entries => entries.dropLast

theorem start_added {next : Heap} {ans : Nat} {entries : List Nat} (h : Chain next ans entries)
    (addrinfo : List Nat) :
    start next ans addrinfo ++ entries.dropLast = addrinfo ++ added entries := by
  cases h with
  | last h => simp [start, h, added]
  | step h hrest =>
    obtain ⟨addr'', entries', rfl⟩ := List.exists_cons_of_ne_nil hrest.ne_nil
    simp [start, h, added]

theorem added_eq_self_iff {entries : List Nat} (h : entries ≠ []) :
    added entries = entries ↔ entries.length = 1 := by
  match entries, h with
  | [addr], _ => exact iff_of_true rfl rfl
  | addr :: addr' :: rest, _ =>
    refine iff_of_false ?_ (by simp)
    intro heq
    have hlen := congrArg List.length heq
    rw [added, List.length_dropLast] at hlen
    · simp at hlen
    · simp

/-! ## The call -/

theorem run_adds {resolve : Request → Except Int Answer} {u : Tcputil} {hostname : List Byte}
    {port : UInt16} {a : Answer} (h : resolve (request u hostname port) = .ok a)
    (entries : List Nat) :
    Adds resolve u hostname port entries ↔
      Returns (round a.next) (a.first, start a.next a.first u.addrinfo)
        (u.addrinfo ++ entries) := by
  have hsame : (if hostname = [] then u else { u with hostname := hostname }).addrinfo =
      u.addrinfo := by
    split <;> rfl
  constructor
  · rintro ⟨rounds, ans, v, hrun, hv⟩
    unfold getAddrInfo at hrun
    rw [h] at hrun
    obtain ⟨addrinfo, hr, heq⟩ := Option.map_eq_some_iff.mp hrun
    refine ⟨rounds, ?_⟩
    rw [hsame] at hr
    rw [hr, ← hv, ← (Prod.mk.inj heq).2]
  · rintro ⟨rounds, hr⟩
    refine ⟨rounds, some a.first,
      { (if hostname = [] then u else { u with hostname := hostname }) with
        addrinfo := u.addrinfo ++ entries }, ?_, rfl⟩
    unfold getAddrInfo
    rw [h]
    dsimp only
    rw [hsame, hr]
    rfl

/-- A call that gets an answer ends. -/
theorem adds_added {resolve : Request → Except Int Answer} {u : Tcputil} {hostname : List Byte}
    {port : UInt16} {a : Answer} (h : resolve (request u hostname port) = .ok a) :
    Adds resolve u hostname port (added a.entries) := by
  rw [run_adds h, ← start_added a.chain]
  exact returns_dropLast a.chain _

/-- The call adds all the entries, in their order and once, exactly if there is one. -/
theorem adds_entries_iff {resolve : Request → Except Int Answer} {u : Tcputil}
    {hostname : List Byte} {port : UInt16} {a : Answer}
    (h : resolve (request u hostname port) = .ok a) :
    Adds resolve u hostname port a.entries ↔ a.entries.length = 1 := by
  rw [← added_eq_self_iff a.chain.ne_nil]
  constructor
  · intro hall
    have hsame := ((run_adds h _).mp (adds_added h)).unique ((run_adds h _).mp hall)
    exact List.append_cancel_left hsame
  · intro hone
    have hadded := adds_added h
    rwa [hone] at hadded

/-! ## A host with one address, and one with two -/

def one : Answer := ⟨fun _ => none, 0, [0], .last rfl⟩

def two : Answer where
  next addr := if addr = 0 then some 1 else none
  first := 0
  entries := [0, 1]
  chain := .step rfl (.last rfl)

theorem adds_one : Adds (fun _ => .ok one) ⟨[], 6, []⟩ (bytes "localhost") 7654 [0] :=
  (adds_entries_iff (u := ⟨[], 6, []⟩) (a := one) rfl).mpr rfl

/-- The second address is not added. -/
theorem two_lost : ¬ Adds (fun _ => .ok two) ⟨[], 6, []⟩ (bytes "localhost") 7654 two.entries := by
  have hadded : Adds (fun _ => .ok two) ⟨[], 6, []⟩ (bytes "localhost") 7654 [0] :=
    adds_added (a := two) rfl
  rw [run_adds (a := two) rfl] at hadded ⊢
  intro h
  exact absurd (hadded.unique h) (by decide)

end PowerGuru.Net.AddrInfo
