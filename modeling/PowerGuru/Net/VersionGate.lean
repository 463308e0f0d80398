import PowerGuru.Net.Dispatch

/-!
# The version of a message

`powerguruProcess` compares the version in the header of a message with its own, tells the
log and returns success: the nodes below are processed whatever it finds.
-/
namespace PowerGuru.Net.VersionGate

open Lib.Bytes Lib.Exec Common Xml Messages Dispatch

/-- What `powerguruProcess` tells the log: the first attribute, if there is one, is the
version or not. -/
def versionsMatch (node : XMLNode) : Option Bool := node.attributes.head?.map (·.2 == version)

/-- The element says that it is of this version. -/
def SameVersion (node : XMLNode) : Prop := node.attributes.lookup (bytes "version") = some version

instance (node : XMLNode) : Decidable (SameVersion node) := inferInstanceAs (Decidable (_ = _))

/-- The top level node of a message. -/
def top (value : List Byte) (children : List XMLNode) (attributes : List (List Byte × List Byte)) :
    XMLNode := ⟨bytes "powerguru", value, children, attributes⟩

/-- What a program leaves that processes the tree, to the end or not. -/
def run (m : Msgs) (xml : XMLNode) : State := (exec (Dispatch.process initTable xml) ⟨m, []⟩).2

/-- The nodes whose handlers were called. -/
def called (events : List Event) : List XMLNode :=
  events.filterMap fun
    | .call node _ => some node
    | _ => none

/-- A message that is turned away: a failure is reported, no handler is run for a node below and
nothing has an effect. -/
structure Gated (m : Msgs) (root : XMLNode) : Prop where
  reported : (powerguruProcess m root).1 ≠ .success
  uncalled : called (run m root).events = [root]
  cache : (run m root).msgs.cache = m.cache
  sent : (run m root).msgs.sent = m.sent

/-! ## The element -/

/-- What the element itself leaves in the log. -/
def topEvents (root : XMLNode) : List Event :=
  [.visit root, .call root powerguruProcess, .test root (some .success)]

theorem mem_initTable_top : (cstr (bytes "powerguru"), some powerguruProcess) ∈ initTable.pairs :=
  mem_initTable rfl

section
variable (m : Msgs) (value : List Byte) (children : List XMLNode)
variable (attributes : List (List Byte × List Byte))

theorem exec_top :
    exec (Dispatch.processNode initTable (top value children attributes)) ⟨m, []⟩ =
      (.ok (), ⟨m, topEvents (top value children attributes)⟩) := by
  have hfind : find (top value children attributes).name initTable.pairs =
      .ok (some powerguruProcess) :=
    find_of_mem initTable.texts initTable.functional mem_initTable_top
  rw [Dispatch.processNode, exec_bind_ok (exec_emit _ _), exec_bind, exec_methodGet, hfind]
  rfl

/-- The element does nothing, and its children are processed behind it. -/
theorem exec_message :
    exec (Dispatch.process initTable (top value children attributes)) ⟨m, []⟩ =
      exec (Dispatch.processAll initTable children)
        ⟨m, topEvents (top value children attributes)⟩ := by
  have hnode := exec_top m value children attributes
  rw [top] at hnode ⊢
  rw [Dispatch.process, exec_bind_ok hnode]

end

/-! ## The nodes below -/

theorem called_append (es es' : List Event) : called (es ++ es') = called es ++ called es' :=
  List.filterMap_append

/-- The log only grows. -/
theorem events_grow (t : Table) (xmls : List XMLNode) (s : State) :
    ∃ more, (exec (processEach t xmls) s).2.events = s.events ++ more := by
  induction xmls generalizing s with
  | nil => exact ⟨[], (List.append_nil _).symm⟩
  | cons xml xmls ih =>
    rw [processEach]
    by_cases h : t.Registered xml.name
    · obtain ⟨ptr, hptr⟩ := h
      obtain ⟨part, -, hnode⟩ := processNode_registered hptr s
      obtain ⟨more, hmore⟩ := ih ⟨effect ptr s.msgs xml, s.events ++ part⟩
      exact ⟨part ++ more, by rw [exec_bind_ok hnode, hmore, List.append_assoc]⟩
    · exact ⟨[.visit xml], by rw [exec_bind, processNode_unregistered h]⟩

/-- Every tag of the table has a handler. -/
theorem handles_of_registered {tag : List Byte} (h : initTable.Registered tag) :
    ∃ f, initTable.Handles tag f := by
  obtain ⟨ptr, hptr⟩ := h
  obtain ⟨e, -, he⟩ := List.mem_map.mp hptr
  refine ⟨e.2, ?_⟩
  rw [Table.Handles, (Prod.mk.inj he).2]
  exact hptr

/-- No handler is run exactly if there is nothing to process or the first tag has none. -/
theorem called_iff (xmls : List XMLNode) (s : State) :
    called (exec (Dispatch.processAll initTable xmls) s).2.events = called s.events ↔
      ∀ xml ∈ xmls.head?, ¬ initTable.Registered xml.name := by
  rw [processAll_each]
  cases xmls with
  | nil => exact iff_of_true rfl fun xml hxml => absurd hxml (by simp)
  | cons xml xmls =>
    obtain ⟨name, value, children, attributes⟩ := xml
    simp only [List.head?_cons, Option.mem_some_iff, forall_eq', nodesAll, nodes,
      List.cons_append, processEach]
    by_cases h : initTable.Registered name
    · refine iff_of_false ?_ fun hno => hno h
      obtain ⟨f, hf⟩ := handles_of_registered h
      obtain ⟨part, hpart, hnode⟩ :=
        @processNode_registered initTable ⟨name, value, children, attributes⟩ (some f) hf s
      obtain ⟨more, hmore⟩ := events_grow initTable (nodesAll children ++ nodesAll xmls)
        ⟨effect (some f) s.msgs ⟨name, value, children, attributes⟩, s.events ++ part⟩
      have hcalled : called part = [⟨name, value, children, attributes⟩] := by
        cases hpart with
        | handled => rfl
        | unhandled hno => exact absurd hf (hno f)
      rw [exec_bind_ok hnode, hmore, called_append, called_append, hcalled]
      intro he
      have hlen := congrArg List.length he
      simp only [List.length_append, List.length_singleton] at hlen
      omega
    · refine iff_of_true ?_ h
      rw [exec_bind, processNode_unregistered h, called_append]
      exact List.append_nil _

/-- No message is turned away, whatever its version: no failure is reported, the children are
processed as they are by themselves, and no handler is run for a node below only where there is
none or the first child ends the run. -/
theorem never_gated (m : Msgs) (value : List Byte) (children : List XMLNode)
    (attributes : List (List Byte × List Byte)) :
    ¬ Gated m (top value children attributes) ∧
      exec (Dispatch.process initTable (top value children attributes)) ⟨m, []⟩ =
        exec (Dispatch.processAll initTable children)
          ⟨m, topEvents (top value children attributes)⟩ ∧
      (called (run m (top value children attributes)).events = [top value children attributes] ↔
        ∀ xml ∈ children.head?, ¬ initTable.Registered xml.name) := by
  refine ⟨fun h => h.reported rfl, exec_message m value children attributes, ?_⟩
  rw [run, exec_message]
  exact called_iff children ⟨m, topEvents (top value children attributes)⟩

/-- `<powerguru version="9"><meters>hertz</meters></powerguru>`. -/
def foreign : XMLNode :=
  ⟨bytes "powerguru", [], [⟨bytes "meters", bytes "hertz", [], []⟩], [(bytes "version", bytes "9")]⟩

theorem foreign_answered :
    foreign.name = bytes "powerguru" ∧ ¬ SameVersion foreign ∧ versionsMatch foreign = some false ∧
      (run daemon foreign).msgs.sent = [metersResponseCreate (bytes "hertz") []] ∧
      ¬ Gated daemon foreign := by
  have hprocess : ∃ m', Messages.process daemon foreign = .ok m' ∧
      m'.sent = [metersResponseCreate (bytes "hertz") []] := ⟨_, rfl, rfl⟩
  obtain ⟨m', hm, hsent⟩ := hprocess
  have hnul : ∀ node ∈ nodes foreign, NUL ∉ node.name := by
    simp only [foreign, nodes, nodesAll, List.append_nil, List.forall_mem_cons, List.not_mem_nil,
      false_imp_iff, implies_true, and_true]
    decide
  obtain ⟨events, hrun⟩ := (process_msgs daemon m' foreign hnul).mp hm
  have hrun' : (run daemon foreign).msgs = m' := by
    rw [run, hrun]
  exact ⟨rfl, by decide, by decide, by rw [hrun', hsent], fun h => h.reported rfl⟩

end PowerGuru.Net.VersionGate
