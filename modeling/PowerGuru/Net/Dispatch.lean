import PowerGuru.Lib.Exec
import PowerGuru.Net.Messages

/-!
# The method that a node gets

`methodGet` returns the pointer of the key it finds and ends without a return when it finds
none; `process` tests and calls what it was given. A run keeps a log of the nodes it comes
to, of the calls and of the results that are tested.
-/
namespace PowerGuru.Net.Dispatch

open Lib.Bytes Lib.Exec Lib.AssocMap Common Xml Messages

/-- `_methods`: a pointer for each text, which may be null. -/
structure Table where
  pairs : List (List Byte × Option Method)
  texts : ∀ e ∈ pairs, NUL ∉ e.1
  functional : Functional pairs

/-- The tag has a pointer. -/
def Table.Registered (t : Table) (tag : List Byte) : Prop := ∃ ptr, (cstr tag, ptr) ∈ t.pairs

/-- The tag has a handler. -/
def Table.Handles (t : Table) (tag : List Byte) (f : Method) : Prop :=
  (cstr tag, some f) ∈ t.pairs

inductive Event where
  | visit (node : XMLNode)
  | call (node : XMLNode) (fptr : Method)
  /-- The result, if it has been set. -/
  | test (node : XMLNode) (ret : Option ErrorCode)

inductive Fault where
  /-- `methodGet` ended without a return. -/
  | undefinedPointer

structure State where
  msgs : Msgs
  events : List Event

abbrev Prog := ExceptT Fault (StateM State)

def emit (e : Event) : Prog Unit := modify fun s => { s with events := s.events ++ [e] }

/-- The loop over the map. -/
def find (name : List Byte) : List (List Byte × Option Method) → Except Fault (Option Method)
  | [] => .error .undefinedPointer
  | (str, ptr) :: rest => if cstr str = cstr name then .ok ptr else find name rest

def methodGet (t : Table) (name : List Byte) : Prog (Option Method) := liftM (find name t.pairs)

/-- `(this->*fptr)(xml)`. -/
def call (fptr : Method) (xml : XMLNode) : Prog ErrorCode := do
  emit (.call xml fptr)
  let s ← get
  set { s with msgs := (fptr s.msgs xml).2 }
  return (fptr s.msgs xml).1

/-- What is done for one node. `ret` is an `error_code`, whose constructor makes it a success. -/
def processNode (t : Table) (xml : XMLNode) : Prog Unit := do
  emit (.visit xml)
  let fptr ← methodGet t xml.name
  let ret ← match fptr with
    | some f => call f xml
    | none => pure .success
  emit (.test xml (some ret))

mutual

def process (t : Table) : XMLNode → Prog Unit
  | ⟨name, value, children, attributes⟩ => do
      processNode t ⟨name, value, children, attributes⟩
      processAll t children

def processAll (t : Table) : List XMLNode → Prog Unit
  | [] => pure ()
  | xml :: xmls => do
      process t xml
      processAll t xmls

end

/-! ## What is asked of a run -/

/-- What a node is to get: its handler and nothing else, or nothing. -/
inductive Served (t : Table) (node : XMLNode) : List Event → Prop
  | handled {f : Method} {r : ErrorCode} (h : t.Handles node.name f) :
      Served t node [.visit node, .call node f, .test node (some r)]
  | unhandled {r : ErrorCode} (h : ∀ f, ¬ t.Handles node.name f) :
      Served t node [.visit node, .test node (some r)]

/-- The run uses no undefined pointer, and its log is made of what each node is to get, node by
node as they stand in the text. -/
def Dispatched (t : Table) (m : Msgs) (xml : XMLNode) : Prop :=
  ∃ m' parts, List.Forall₂ (Served t) (nodes xml) parts ∧
    exec (process t xml) ⟨m, []⟩ = (.ok (), ⟨m', parts.flatten⟩)

/-! ## The loop -/

theorem find_of_mem {name : List Byte} {ptr : Option Method}
    {pairs : List (List Byte × Option Method)} (htexts : ∀ e ∈ pairs, NUL ∉ e.1)
    (hf : Functional pairs) (h : (cstr name, ptr) ∈ pairs) : find name pairs = .ok ptr := by
  induction pairs with
  | nil => exact absurd h List.not_mem_nil
  | cons e rest ih =>
    obtain ⟨str, p⟩ := e
    have hstr : cstr str = str := cstr_of_not_mem (htexts (str, p) List.mem_cons_self)
    rw [find, hstr]
    split
    · next he =>
      -- the map has one pointer for this text
      have heq := hf (str, p) List.mem_cons_self (cstr name, ptr) h he
      rw [(Prod.mk.inj heq).2]
    · next hne =>
      have hrest : (cstr name, ptr) ∈ rest := by
        rcases List.mem_cons.mp h with heq | hmem
        · exact absurd (Prod.mk.inj heq).1.symm hne
        · exact hmem
      exact ih (fun e he => htexts e (List.mem_cons_of_mem _ he))
        (hf.of_subset (List.subset_cons_self _ _)) hrest

theorem find_of_not_mem {name : List Byte} {pairs : List (List Byte × Option Method)}
    (htexts : ∀ e ∈ pairs, NUL ∉ e.1) (h : ∀ ptr, (cstr name, ptr) ∉ pairs) :
    find name pairs = .error .undefinedPointer := by
  induction pairs with
  | nil => rfl
  | cons e rest ih =>
    obtain ⟨str, p⟩ := e
    have hstr : cstr str = str := cstr_of_not_mem (htexts (str, p) List.mem_cons_self)
    have hne : ¬ cstr str = cstr name := by
      intro he
      rw [hstr] at he
      exact h p (he ▸ List.mem_cons_self)
    rw [find, if_neg hne]
    exact ih (fun e he => htexts e (List.mem_cons_of_mem _ he))
      fun ptr hmem => h ptr (List.mem_cons_of_mem _ hmem)

theorem exec_emit (e : Event) (s : State) :
    exec (emit e) s = (.ok (), { s with events := s.events ++ [e] }) := rfl

theorem exec_methodGet (t : Table) (name : List Byte) (s : State) :
    exec (methodGet t name) s = (find name t.pairs, s) := exec_lift (find name t.pairs) s

theorem exec_call (f : Method) (xml : XMLNode) (s : State) :
    exec (call f xml) s =
      (.ok (f s.msgs xml).1, ⟨(f s.msgs xml).2, s.events ++ [.call xml f]⟩) := rfl

/-! ## One node -/

/-- What a pointer makes of the object. -/
def effect (ptr : Option Method) (m : Msgs) (xml : XMLNode) : Msgs :=
  match ptr with
  | some f => (f m xml).2
  | none => m

/-- A node with a pointer gets what it is to get. -/
theorem processNode_registered {t : Table} {xml : XMLNode} {ptr : Option Method}
    (hptr : (cstr xml.name, ptr) ∈ t.pairs) (s : State) :
    ∃ part, Served t xml part ∧
      exec (processNode t xml) s = (.ok (), ⟨effect ptr s.msgs xml, s.events ++ part⟩) := by
  have hfind := find_of_mem t.texts t.functional hptr
  rw [processNode, exec_bind_ok (exec_emit _ s), exec_bind, exec_methodGet, hfind]
  cases ptr with
  | some f =>
    refine ⟨_, Served.handled (r := (f s.msgs xml).1) hptr, ?_⟩
    dsimp only
    rw [exec_bind_ok (exec_call f xml _), exec_emit]
    simp [effect]
  | none =>
    have hno : ∀ f, ¬ t.Handles xml.name f := by
      intro f hf
      have heq := t.functional _ hptr _ hf rfl
      exact absurd (Prod.mk.inj heq).2 (by simp)
    refine ⟨_, Served.unhandled (r := .success) hno, ?_⟩
    dsimp only
    rw [exec_bind_ok (exec_pure _ _), exec_emit]
    simp [effect]

/-- A node without one ends the run. -/
theorem processNode_unregistered {t : Table} {xml : XMLNode} (h : ¬ t.Registered xml.name)
    (s : State) :
    exec (processNode t xml) s =
      (.error .undefinedPointer, { s with events := s.events ++ [.visit xml] }) := by
  have hfind := find_of_not_mem t.texts fun ptr hptr => h ⟨ptr, hptr⟩
  rw [processNode, exec_bind_ok (exec_emit _ s), exec_bind, exec_methodGet, hfind]

/-! ## The tree -/

/-- The nodes of a list, one after the other. -/
def processEach (t : Table) : List XMLNode → Prog Unit
  | [] => pure ()
  | xml :: xmls => do
      processNode t xml
      processEach t xmls

theorem processEach_append (t : Table) (xmls ys : List XMLNode) :
    processEach t (xmls ++ ys) = (do processEach t xmls; processEach t ys) := by
  induction xmls with
  | nil => simp [processEach]
  | cons xml xmls ih => simp [processEach, ih]

mutual

/-- The nodes come in the order of the text. -/
theorem process_each (t : Table) : ∀ xml : XMLNode, process t xml = processEach t (nodes xml)
  | ⟨name, value, children, attributes⟩ => by
      rw [process, nodes, processEach, processAll_each]

theorem processAll_each (t : Table) :
    ∀ xmls : List XMLNode, processAll t xmls = processEach t (nodesAll xmls)
  | [] => rfl
  | xml :: xmls => by
      rw [processAll, nodesAll, processEach_append, ← process_each, processAll_each]

end

theorem processEach_registered {t : Table} {xmls : List XMLNode}
    (h : ∀ xml ∈ xmls, t.Registered xml.name) (s : State) :
    ∃ m' parts, List.Forall₂ (Served t) xmls parts ∧
      exec (processEach t xmls) s = (.ok (), ⟨m', s.events ++ parts.flatten⟩) := by
  induction xmls generalizing s with
  | nil => exact ⟨s.msgs, [], .nil, by rw [List.flatten_nil, List.append_nil]; rfl⟩
  | cons xml xmls ih =>
    obtain ⟨ptr, hptr⟩ := h xml List.mem_cons_self
    obtain ⟨part, hpart, hnode⟩ := processNode_registered hptr s
    obtain ⟨m', parts, hparts, hrest⟩ :=
      ih (fun x hx => h x (List.mem_cons_of_mem _ hx)) ⟨effect ptr s.msgs xml, s.events ++ part⟩
    refine ⟨m', part :: parts, .cons hpart hparts, ?_⟩
    rw [processEach, exec_bind_ok hnode, hrest, List.flatten_cons, List.append_assoc]

/-- A run that ends well found a pointer for each node. -/
theorem processEach_ok {t : Table} {xmls : List XMLNode} {s s' : State}
    (h : exec (processEach t xmls) s = (.ok (), s')) : ∀ xml ∈ xmls, t.Registered xml.name := by
  induction xmls generalizing s with
  | nil => exact fun xml hxml => absurd hxml List.not_mem_nil
  | cons xml xmls ih =>
    obtain ⟨_, s₁, hnode, hrest⟩ := exec_bind_ok_iff.mp h
    have hxml : t.Registered xml.name := by
      by_contra hno
      rw [processNode_unregistered hno] at hnode
      exact absurd (Prod.mk.inj hnode).1 (by simp)
    intro x hx
    rcases List.mem_cons.mp hx with rfl | hx
    · exact hxml
    · exact ih hrest x hx

/-- The nodes are served, each once and in order, exactly if each tag has a pointer. -/
theorem dispatched_iff_registered (t : Table) (m : Msgs) (xml : XMLNode) :
    Dispatched t m xml ↔ ∀ node ∈ nodes xml, t.Registered node.name := by
  rw [Dispatched, process_each]
  constructor
  · rintro ⟨m', parts, -, hrun⟩
    exact processEach_ok hrun
  · intro h
    obtain ⟨m', parts, hparts, hrun⟩ := processEach_registered h ⟨m, []⟩
    exact ⟨m', parts, hparts, hrun⟩

/-! ## The table that `init` fills -/

theorem methods_nodup : (methods.map Prod.fst).Nodup := by decide

theorem methods_texts : ∀ e ∈ methods, NUL ∉ e.1 := by
  have htexts : (methods.map Prod.fst).all (fun str => NUL ∉ str) = true := by decide
  intro e he
  simpa using List.all_eq_true.mp htexts e.1 (List.mem_map_of_mem he)

def initTable : Table where
  pairs := methods.map fun e => (e.1, some e.2)
  texts := by
    intro e he
    obtain ⟨e', he', rfl⟩ := List.mem_map.mp he
    exact methods_texts e' he'
  functional := by
    apply functional_of_nodup
    rw [List.map_map]
    exact methods_nodup

theorem mem_initTable {name : List Byte} {f : Method} (h : Messages.methodGet name = .ok f) :
    (cstr name, some f) ∈ initTable.pairs := by
  have hmem := (lookup_eq_some_iff (functional_of_nodup methods_nodup)).mp
    (methodGet_eq_ok_iff.mp h)
  rw [cstr_of_not_mem (methods_texts _ hmem)]
  exact List.mem_map.mpr ⟨(name, f), hmem, rfl⟩

theorem registered_iff {name : List Byte} (h : NUL ∉ name) :
    initTable.Registered name ↔ name ∈ tags := by
  constructor
  · rintro ⟨ptr, hptr⟩
    obtain ⟨e, he, heq⟩ := List.mem_map.mp hptr
    have hname : e.1 = name := by
      rw [← cstr_of_not_mem h]
      exact (Prod.mk.inj heq).1
    exact hname ▸ List.mem_map_of_mem he
  · intro hname
    obtain ⟨f, hf⟩ := mem_tags_iff.mp hname
    exact ⟨some f, mem_initTable hf⟩

theorem processEach_msgs {xmls : List XMLNode} (h : ∀ xml ∈ xmls, NUL ∉ xml.name) (s : State)
    (m' : Msgs) :
    xmls.foldlM Messages.processNode s.msgs = .ok m' ↔
      ∃ events, exec (processEach initTable xmls) s = (.ok (), ⟨m', events⟩) := by
  induction xmls generalizing s with
  | nil =>
    constructor
    · intro hm
      rw [← Except.ok.inj hm]
      exact ⟨s.events, rfl⟩
    · rintro ⟨events, hrun⟩
      exact congrArg Except.ok (congrArg State.msgs (Prod.mk.inj hrun).2)
  | cons xml xmls ih =>
    obtain ⟨hxml, hrest⟩ := List.forall_mem_cons.mp h
    rw [List.foldlM_cons, processEach, Messages.processNode]
    by_cases hname : xml.name ∈ tags
    · obtain ⟨f, hf⟩ := mem_tags_iff.mp hname
      obtain ⟨part, -, hnode⟩ := processNode_registered (mem_initTable hf) s
      rw [exec_bind_ok hnode, hf]
      exact ih hrest ⟨(f s.msgs xml).2, s.events ++ part⟩
    · have hno : ¬ initTable.Registered xml.name := fun hr => hname ((registered_iff hxml).mp hr)
      rw [exec_bind, processNode_unregistered hno, methodGet_of_not_mem hname]
      simp [bind, Except.bind]

/-- This is the `process` that the other modules have, for the names that nodes have. -/
theorem process_msgs (m m' : Msgs) (xml : XMLNode) (h : ∀ node ∈ nodes xml, NUL ∉ node.name) :
    Messages.process m xml = .ok m' ↔
      ∃ events, exec (process initTable xml) ⟨m, []⟩ = (.ok (), ⟨m', events⟩) := by
  rw [process_each, process_nodes]
  exact processEach_msgs h ⟨m, []⟩ m'

/-- A daemon that has just been started. -/
def daemon : Msgs := init ⟨.daemon, [], [], [], [], [], []⟩

/-- `<powerguru><temperature/></powerguru>`. -/
def unknown : XMLNode :=
  ⟨bytes "powerguru", [], [⟨bytes "temperature", [], [], []⟩], []⟩

theorem unknown_not_registered : ¬ initTable.Registered (bytes "temperature") := by
  rw [registered_iff (by decide)]
  decide

theorem unknown_undispatched : ¬ Dispatched initTable daemon unknown := by
  rintro ⟨m', parts, -, hrun⟩
  rw [process_each] at hrun
  exact unknown_not_registered (processEach_ok hrun ⟨bytes "temperature", [], [], []⟩
    (by simp [unknown, nodes, nodesAll]))

end PowerGuru.Net.Dispatch
