import PowerGuru.Net.MeterQuery
import PowerGuru.Net.HeloPeers

/-!
# What a peer does with a node

Behind the table of methods there are few things a node can do to a peer: a daemon answers,
a client stores, and both warn of a configuration. A whole message does what its nodes do,
one after the other, if each of their tags is registered.
-/
namespace PowerGuru.Net.NodeEffects

open Lib.Bytes Lib.AssocMap Common Xml XmlText Messages MeterQuery

def statusNames : List (List Byte) := statusMethods.map Prod.fst

def configNames : List (List Byte) := configMethods.map Prod.fst

def commandNames : List (List Byte) := commandMethods.map Prod.fst

/-- The text of `unimplementedProcess`. -/
def warning (name : List Byte) : List Byte :=
  ends (header ++ bytes "<status><warningmode><" ++ name ++ bytes ">unimplemented</" ++ name ++
    bytes "></warningmode>" ++ bytes "</status>" ++ bytes "</powerguru>")

/-- The texts that are written on a node. A status without an answer is the empty text. -/
def writes (m : Msgs) (xml : XMLNode) : List (List Byte) :=
  if xml.name ∈ configNames then [warning xml.name]
  else if m.netMode ≠ .daemon then []
  else if xml.name = bytes "meters" then
    [metersResponseCreate xml.value (cacheGet m xml.value)]
  else if xml.name ∈ statusNames then [statusAnswer xml.value]
  else if xml.name ∈ commandNames ∧ xml.value ≠ [] then
    [commandAnswer xml.value ++ bytes "\r\n"]
  else []

/-- The node is one whose value a client keeps. -/
def Stores (m : Msgs) (xml : XMLNode) : Prop :=
  m.netMode = .client ∧
    (xml.name ∈ statusNames ∧ xml.name ≠ bytes "status" ∨
      xml.name ∈ commandNames ∧ xml.name ≠ bytes "command" ∧ xml.value ≠ [])

instance (m : Msgs) (xml : XMLNode) : Decidable (Stores m xml) :=
  inferInstanceAs (Decidable (_ ∧ (_ ∨ _)))

def stored (m : Msgs) (xml : XMLNode) : Msgs :=
  if Stores m xml then cacheAdd m xml.name xml.value else m

/-! ## The table -/

theorem commandMethods_const {p : List Byte × Method} (hp : p ∈ commandMethods) :
    p.2 = commandProcess := (commandMethods_mem hp).1

/-- The tags that do nothing but report. -/
def quietMethods : List (List Byte × Method) := topMethods ++ meterMethods

theorem lookup_quiet {name : List Byte} (h : name ∉ quietMethods.map Prod.fst) :
    topMethods.lookup name = none ∧ meterMethods.lookup name = none := by
  have hnone : quietMethods.lookup name = none := by
    rw [List.lookup_eq_none_iff]
    intro p hp
    rw [bne_iff_ne]
    rintro rfl
    exact h (List.mem_map_of_mem hp)
  rw [quietMethods, List.lookup_append, Option.or_eq_none_iff] at hnone
  exact hnone

/-- Every tag in its group. -/
theorem lookup_methods (name : List Byte) :
    methods.lookup name =
      if name ∈ configNames then some configProcess
      else if name = bytes "meters" then some metersProcess
      else if name ∈ statusNames then some statusProcess
      else if name ∈ commandNames then some commandProcess
      else quietMethods.lookup name := by
  have hquiet : ∀ k ∈ configNames ++ statusNames ++ commandNames,
      k ∉ quietMethods.map Prod.fst := by decide
  have hmeters : ∀ k ∈ configNames ++ statusNames ++ commandNames, k ≠ bytes "meters" := by decide
  have hstatus : ∀ k ∈ configNames ++ commandNames, k ∉ statusNames := by decide
  have hcons : (bytes "meters", metersProcess) :: meterMethods =
      [(bytes "meters", metersProcess)] ++ meterMethods := rfl
  have hone : ([(bytes "meters", metersProcess)] : List (List Byte × Method)).lookup name =
      if name = bytes "meters" then some metersProcess else none := by
    rw [lookup_const (v := metersProcess) (by simp) name]
    simp
  simp only [methods, hcons, List.lookup_append, hone,
    lookup_const (fun p hp => (statusMethods_mem hp).1),
    lookup_const (fun p hp => configMethods_mem hp),
    lookup_const (fun p hp => commandMethods_const hp)]
  rw [← statusNames, ← configNames, ← commandNames]
  simp only [List.mem_append] at hquiet hmeters hstatus
  by_cases hc : name ∈ configNames
  · obtain ⟨ht, hm⟩ := lookup_quiet (hquiet name (Or.inl (Or.inl hc)))
    simp [hc, ht, hm, hmeters name (Or.inl (Or.inl hc)), hstatus name (Or.inl hc)]
  by_cases hm : name = bytes "meters"
  · obtain rfl := hm
    have htop : topMethods.lookup (bytes "meters") = none := rfl
    simp [hc, htop]
  by_cases hs : name ∈ statusNames
  · obtain ⟨ht, hm'⟩ := lookup_quiet (hquiet name (Or.inl (Or.inr hs)))
    simp [hc, hm, hs, ht, hm']
  by_cases hk : name ∈ commandNames
  · obtain ⟨ht, hm'⟩ := lookup_quiet (hquiet name (Or.inr hk))
    simp [hc, hm, hs, hk, ht, hm']
  · simp [hc, hm, hs, hk, quietMethods, List.lookup_append]

theorem serverProcess_same (m : Msgs) (xml : XMLNode) : (serverProcess m xml).2 = m := by
  unfold serverProcess
  split
  · rfl
  · split <;> rfl

theorem quiet_same {name : List Byte} {f : Method} (h : quietMethods.lookup name = some f)
    (m : Msgs) (xml : XMLNode) : (f m xml).2 = m := by
  rcases List.mem_append.mp (mem_of_lookup h) with htop | hmeter
  · revert h
    simp only [topMethods, List.mem_cons, Prod.mk.injEq, List.not_mem_nil, or_false] at htop
    rcases htop with ⟨-, rfl⟩ | ⟨-, rfl⟩ | ⟨-, rfl⟩ | ⟨-, rfl⟩
    · exact fun _ => rfl
    · exact fun _ => rfl
    · exact fun _ => HeloPeers.clientProcess_same m xml
    · exact fun _ => serverProcess_same m xml
  · exact meterMethods_same hmeter m xml

/-! ## One node -/

@[simp] theorem stored_sent (m : Msgs) (xml : XMLNode) : (stored m xml).sent = m.sent := by
  unfold stored
  split <;> rfl

/-- Nothing kept, nothing written. -/
theorem idle {m : Msgs} {xml : XMLNode} (hs : ¬ Stores m xml) (hw : writes m xml = []) :
    m = { stored m xml with sent := m.sent ++ writes m xml } := by
  rw [stored, if_neg hs, hw, List.append_nil]

theorem config_eq (m : Msgs) {xml : XMLNode} (hc : xml.name ∈ configNames) :
    (configProcess m xml).2 = { stored m xml with sent := m.sent ++ writes m xml } := by
  have hothers : ∀ k ∈ configNames, k ∉ statusNames ∧ k ∉ commandNames := by decide
  have hs : ¬ Stores m xml := by
    rintro ⟨-, ⟨h, -⟩ | ⟨h, -⟩⟩
    · exact (hothers _ hc).1 h
    · exact (hothers _ hc).2 h
  rw [stored, if_neg hs, writes, if_pos hc]
  rfl

theorem meters_eq (m : Msgs) {xml : XMLNode} (hm : xml.name = bytes "meters") :
    (metersProcess m xml).2 = { stored m xml with sent := m.sent ++ writes m xml } := by
  have hothers : bytes "meters" ∉ statusNames ∧ bytes "meters" ∉ commandNames ∧
      bytes "meters" ∉ configNames := by decide
  rw [← hm] at hothers
  have hs : ¬ Stores m xml := by
    rintro ⟨-, ⟨h, -⟩ | ⟨h, -⟩⟩
    · exact hothers.1 h
    · exact hothers.2.1 h
  by_cases hd : m.netMode = .daemon
  · rw [stored, if_neg hs, writes, if_neg hothers.2.2, if_neg (not_not.mpr hd), if_pos hm]
    simp only [metersProcess, hd, writeNet]
  · have hsame : (metersProcess m xml).2 = m := by
      unfold metersProcess
      split
      · exact absurd ‹_› hd
      · rfl
    rw [hsame]
    exact idle hs (by rw [writes, if_neg hothers.2.2, if_pos hd])

theorem status_eq (m : Msgs) {xml : XMLNode} (hs : xml.name ∈ statusNames) :
    (statusProcess m xml).2 = { stored m xml with sent := m.sent ++ writes m xml } := by
  have hothers : ∀ k ∈ statusNames, k ∉ configNames ∧ k ≠ bytes "meters" ∧ k ∉ commandNames := by
    decide
  obtain ⟨hconfig, hmeters, hcommand⟩ := hothers _ hs
  unfold statusProcess
  cases hm : m.netMode with
  | daemon =>
    have hkeep : ¬ Stores m xml := fun h => absurd (hm.symm.trans h.1) (by decide)
    rw [stored, if_neg hkeep, writes, if_neg hconfig, if_neg (not_not.mpr hm), if_neg hmeters,
      if_pos hs]
    simp only [writeNet]
  | client =>
    have hw : writes m xml = [] := by
      rw [writes, if_neg hconfig, if_pos (by rw [hm]; decide)]
    dsimp only
    split
    · next hname =>
      refine idle ?_ hw
      rintro ⟨-, ⟨-, h⟩ | ⟨h, -⟩⟩
      · exact h hname
      · exact hcommand h
    · next hname =>
      rw [stored, if_pos ⟨hm, Or.inl ⟨hs, hname⟩⟩, hw, List.append_nil]
      rfl
  | nonet =>
    have hkeep : ¬ Stores m xml := fun h => absurd (hm.symm.trans h.1) (by decide)
    exact idle hkeep (by rw [writes, if_neg hconfig, if_pos (by rw [hm]; decide)])

theorem command_eq (m : Msgs) {xml : XMLNode} (hk : xml.name ∈ commandNames) :
    (commandProcess m xml).2 = { stored m xml with sent := m.sent ++ writes m xml } := by
  have hothers : ∀ k ∈ commandNames, k ∉ configNames ∧ k ≠ bytes "meters" ∧ k ∉ statusNames := by
    decide
  obtain ⟨hconfig, hmeters, hstatus⟩ := hothers _ hk
  unfold commandProcess
  by_cases hv : xml.value = []
  · rw [if_pos hv]
    refine idle ?_ ?_
    · rintro ⟨-, ⟨h, -⟩ | ⟨-, -, h⟩⟩
      · exact hstatus h
      · exact h hv
    · simp [writes, hconfig, hmeters, hstatus, hv]
  rw [if_neg hv]
  cases hm : m.netMode with
  | daemon =>
    have hkeep : ¬ Stores m xml := fun h => absurd (hm.symm.trans h.1) (by decide)
    have hboth : xml.name ∈ commandNames ∧ xml.value ≠ [] := ⟨hk, hv⟩
    rw [stored, if_neg hkeep, writes, if_neg hconfig, if_neg (not_not.mpr hm), if_neg hmeters,
      if_neg hstatus, if_pos hboth]
    simp only [writeNet]
  | client =>
    have hw : writes m xml = [] := by
      rw [writes, if_neg hconfig, if_pos (by rw [hm]; decide)]
    dsimp only
    split
    · next hname =>
      refine idle ?_ hw
      rintro ⟨-, ⟨h, -⟩ | ⟨-, h, -⟩⟩
      · exact hstatus h
      · exact h hname
    · next hname =>
      rw [stored, if_pos ⟨hm, Or.inr ⟨hk, hname, hv⟩⟩, hw, List.append_nil]
      rfl
  | nonet =>
    have hkeep : ¬ Stores m xml := fun h => absurd (hm.symm.trans h.1) (by decide)
    exact idle hkeep (by rw [writes, if_neg hconfig, if_pos (by rw [hm]; decide)])

/-- What a method leaves, in one account: what is stored and what is written. -/
theorem method_eq {m : Msgs} {xml : XMLNode} {fptr : Method}
    (h : methods.lookup xml.name = some fptr) :
    (fptr m xml).2 = { stored m xml with sent := m.sent ++ writes m xml } := by
  rw [lookup_methods] at h
  by_cases hc : xml.name ∈ configNames
  · rw [if_pos hc, Option.some.injEq] at h
    rw [← h]
    exact config_eq m hc
  by_cases hm : xml.name = bytes "meters"
  · rw [if_neg hc, if_pos hm, Option.some.injEq] at h
    rw [← h]
    exact meters_eq m hm
  by_cases hs : xml.name ∈ statusNames
  · rw [if_neg hc, if_neg hm, if_pos hs, Option.some.injEq] at h
    rw [← h]
    exact status_eq m hs
  by_cases hk : xml.name ∈ commandNames
  · rw [if_neg hc, if_neg hm, if_neg hs, if_pos hk, Option.some.injEq] at h
    rw [← h]
    exact command_eq m hk
  · rw [if_neg hc, if_neg hm, if_neg hs, if_neg hk] at h
    refine (quiet_same h m xml).trans (idle ?_ ?_)
    · rintro ⟨-, ⟨h, -⟩ | ⟨h, -⟩⟩
      · exact hs h
      · exact hk h
    · simp [writes, hc, hm, hs, hk]

theorem processNode_eq (m : Msgs) {xml : XMLNode} (h : xml.name ∈ tags) :
    processNode m xml = .ok { stored m xml with sent := m.sent ++ writes m xml } := by
  obtain ⟨fptr, hf⟩ := mem_tags_iff.mp h
  have heffect := method_eq (m := m) (methodGet_eq_ok_iff.mp hf)
  rw [processNode, hf, ← heffect]
  rfl

/-! ## A message -/

@[simp] theorem stored_netMode (m : Msgs) (xml : XMLNode) :
    (stored m xml).netMode = m.netMode := by
  unfold stored
  split <;> rfl

theorem stored_of_not_client {m : Msgs} (h : m.netMode ≠ .client) (xml : XMLNode) :
    stored m xml = m := by
  rw [stored, if_neg]
  exact fun hs => h hs.1

theorem foldl_stored_netMode (m : Msgs) (xmls : List XMLNode) :
    (xmls.foldl stored m).netMode = m.netMode := by
  induction xmls generalizing m with
  | nil => rfl
  | cons xml xmls ih => rw [List.foldl_cons, ih, stored_netMode]

theorem foldl_stored_of_not_client {m : Msgs} (h : m.netMode ≠ .client) (xmls : List XMLNode) :
    xmls.foldl stored m = m := by
  induction xmls with
  | nil => rfl
  | cons xml xmls ih => rw [List.foldl_cons, stored_of_not_client h, ih]

theorem stored_setSent (m : Msgs) (sent : List (List Byte)) (xml : XMLNode) :
    stored { m with sent := sent } xml = { stored m xml with sent := sent } := by
  have hiff : Stores { m with sent := sent } xml ↔ Stores m xml := Iff.rfl
  by_cases hs : Stores m xml
  · rw [stored, stored, if_pos (hiff.mpr hs), if_pos hs]
    rfl
  · rw [stored, stored, if_neg (hs ∘ hiff.mp), if_neg hs]

theorem foldl_stored_setSent (m : Msgs) (sent : List (List Byte)) (xmls : List XMLNode) :
    xmls.foldl stored { m with sent := sent } = { xmls.foldl stored m with sent := sent } := by
  induction xmls generalizing m with
  | nil => rfl
  | cons xml xmls ih => rw [List.foldl_cons, stored_setSent, ih, List.foldl_cons]

/-- Only a daemon looks into its cache, and it does not change it. -/
theorem writes_congr {m m' : Msgs} (hmode : m'.netMode = m.netMode)
    (hcache : m.netMode = .daemon → m'.cache = m.cache) (xml : XMLNode) :
    writes m' xml = writes m xml := by
  by_cases hd : m.netMode = .daemon
  · rw [writes, writes, hmode, cacheGet, cacheGet, hcache hd]
  · simp only [writes, hmode, ne_eq, hd, not_false_eq_true, if_true]

theorem writes_stored (m : Msgs) (xml : XMLNode) : writes (stored m xml) = writes m := by
  funext other
  refine writes_congr (stored_netMode m xml) ?_ other
  intro hd
  rw [stored_of_not_client (by rw [hd]; decide)]

theorem foldlM_processNode (m : Msgs) {xmls : List XMLNode} (h : ∀ xml ∈ xmls, xml.name ∈ tags) :
    xmls.foldlM processNode m =
      .ok { xmls.foldl stored m with sent := m.sent ++ xmls.flatMap (writes m) } := by
  induction xmls generalizing m with
  | nil =>
    rw [List.foldl_nil, List.flatMap_nil, List.append_nil]
    rfl
  | cons xml xmls ih =>
    obtain ⟨hxml, hrest⟩ := List.forall_mem_cons.mp h
    have hwrites : ∀ sent, writes { stored m xml with sent := sent } = writes m := by
      intro sent
      funext other
      exact (writes_congr rfl (fun _ => rfl) other).trans (congrFun (writes_stored m xml) other)
    have hnode := ih { stored m xml with sent := m.sent ++ writes m xml } hrest
    rw [foldl_stored_setSent, hwrites, List.append_assoc] at hnode
    rw [List.foldlM_cons, processNode_eq m hxml, List.flatMap_cons, List.foldl_cons]
    exact hnode

/-- A message does what its nodes do. -/
theorem process_eq (m : Msgs) {xml : XMLNode} (h : ∀ node ∈ nodes xml, node.name ∈ tags) :
    process m xml =
      .ok { (nodes xml).foldl stored m with
        sent := m.sent ++ (nodes xml).flatMap (writes m) } := by
  rw [process_nodes, foldlM_processNode m h]

end PowerGuru.Net.NodeEffects
