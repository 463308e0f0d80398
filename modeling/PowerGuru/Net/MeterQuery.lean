import PowerGuru.Net.Encodings

/-!
# A client asks for a meter

The daemon answers with what its cache has. The client runs the method of the meter, which
looks at the value and stores nothing, so its cache stays as it was. An element in the value
has a method of its own, if it has one.
-/
namespace PowerGuru.Net.MeterQuery

open Lib.Bytes Lib.AssocMap Common Xml XmlText Commands Messages RoundTrip Encodings

/-- The meter tags that `init` registers. -/
def meterTags : List (List Byte) := meterMethods.map Prod.fst

/-- Messages that arrive one after the other. -/
def session (libxml : Libxml) : Msgs → List (List Byte) → Except Crash Msgs
  | m, [] => .ok m
  | m, text :: texts => do
      let m' ← receive libxml m text
      session libxml m' texts

/-- The request, what the daemon writes when it processes it, and the client that gets that. -/
def exchange (libxml : Libxml) (client daemon : Msgs) (tag : List Byte) :
    Except Crash (Msgs × Msgs) := do
  let daemon' ← receive libxml { daemon with sent := [] } (metersRequestCreate tag)
  let client' ← session libxml client daemon'.sent
  return (client', daemon')

/-- Afterwards both have the same value. -/
def Coherent (libxml : Libxml) (client daemon : Msgs) (tag : List Byte) : Prop :=
  ∃ client' daemon', exchange libxml client daemon tag = .ok (client', daemon') ∧
    cacheGet client' tag = cacheGet daemon' tag

/-! ## What a client keeps -/

/-- The mode and the meters are as they were. -/
def Keeps (m m' : Msgs) : Prop :=
  m'.netMode = m.netMode ∧ ∀ tag ∈ meterTags, cacheGet m' tag = cacheGet m tag

theorem Keeps.refl (m : Msgs) : Keeps m m := ⟨rfl, fun _ _ => rfl⟩

theorem Keeps.trans {m m' m'' : Msgs} (h : Keeps m m') (h' : Keeps m' m'') : Keeps m m'' := by
  refine ⟨h'.1.trans h.1, ?_⟩
  intro tag ht
  rw [h'.2 tag ht, h.2 tag ht]

theorem keeps_cacheAdd (m : Msgs) {name : List Byte} (h : name ∉ meterTags) (value : List Byte) :
    Keeps m (cacheAdd m name value) := by
  refine ⟨rfl, ?_⟩
  intro tag ht
  have hne : tag ≠ name := fun he => h (he ▸ ht)
  rw [cacheGet, cacheGet, cacheAdd]
  dsimp only
  rw [lookup_assign_of_ne m.cache hne]

section
variable {m : Msgs} {xml : XMLNode} (hm : m.netMode = .client)
include hm

theorem statusProcess_keeps (h : xml.name ∉ meterTags) : Keeps m (statusProcess m xml).2 := by
  simp only [statusProcess, hm]
  split
  · exact Keeps.refl m
  · exact keeps_cacheAdd m h xml.value

theorem commandProcess_keeps (h : xml.name ∉ meterTags) : Keeps m (commandProcess m xml).2 := by
  simp only [commandProcess, hm]
  split
  · exact Keeps.refl m
  · split
    · exact Keeps.refl m
    · exact keeps_cacheAdd m h xml.value

theorem metersProcess_keeps : Keeps m (metersProcess m xml).2 := by
  simp only [metersProcess, hm]
  exact Keeps.refl m

end

theorem clientProcess_keeps (m : Msgs) (xml : XMLNode) : Keeps m (clientProcess m xml).2 := by
  unfold clientProcess
  split
  · exact Keeps.refl m
  · split <;> exact Keeps.refl m

theorem serverProcess_keeps (m : Msgs) (xml : XMLNode) : Keeps m (serverProcess m xml).2 := by
  unfold serverProcess
  split
  · exact Keeps.refl m
  · split <;> exact Keeps.refl m

theorem meterMethods_same {p : List Byte × Method} (hp : p ∈ meterMethods) (m : Msgs)
    (xml : XMLNode) : (p.2 m xml).2 = m := by
  revert p
  simp only [meterMethods, List.forall_mem_cons, List.not_mem_nil, false_imp_iff, implies_true,
    and_true]
  exact ⟨rfl, rfl, rfl, rfl, rfl, rfl, rfl, rfl, rfl, rfl, rfl, rfl⟩

theorem statusMethods_mem {p : List Byte × Method} (hp : p ∈ statusMethods) :
    p.2 = statusProcess ∧ p.1 ∉ meterTags := by
  revert p
  simp only [statusMethods, List.forall_mem_cons, List.not_mem_nil, false_imp_iff, implies_true,
    and_true, true_and]
  decide

theorem configMethods_mem {p : List Byte × Method} (hp : p ∈ configMethods) :
    p.2 = configProcess := by
  revert p
  simp [configMethods]

theorem commandMethods_mem {p : List Byte × Method} (hp : p ∈ commandMethods) :
    p.2 = commandProcess ∧ p.1 ∉ meterTags := by
  revert p
  simp only [commandMethods, List.forall_mem_cons, List.not_mem_nil, false_imp_iff, implies_true,
    and_true, true_and]
  decide

theorem topMethods_keep {p : List Byte × Method} (hp : p ∈ topMethods) (m : Msgs) (xml : XMLNode) :
    Keeps m (p.2 m xml).2 := by
  revert p
  simp only [topMethods, List.forall_mem_cons, List.not_mem_nil, false_imp_iff, implies_true,
    and_true]
  exact ⟨Keeps.refl m, Keeps.refl m, clientProcess_keeps m xml, serverProcess_keeps m xml⟩

/-- Only tags that are no meters store what they get. -/
theorem methods_keep {p : List Byte × Method} (hp : p ∈ methods) {m : Msgs} {xml : XMLNode}
    (hm : m.netMode = .client) (hname : xml.name = p.1) : Keeps m (p.2 m xml).2 := by
  simp only [methods, List.mem_append, List.mem_cons] at hp
  rcases hp with (((htop | rfl | hmeter) | hstatus) | hconfig) | hcommand
  · exact topMethods_keep htop m xml
  · exact metersProcess_keeps hm
  · rw [meterMethods_same hmeter]
    exact Keeps.refl m
  · obtain ⟨hp, hno⟩ := statusMethods_mem hstatus
    rw [hp]
    exact statusProcess_keeps hm (hname ▸ hno)
  · rw [configMethods_mem hconfig]
    exact ⟨rfl, fun _ _ => rfl⟩
  · obtain ⟨hp, hno⟩ := commandMethods_mem hcommand
    rw [hp]
    exact commandProcess_keeps hm (hname ▸ hno)

theorem processNode_keeps {m m' : Msgs} {xml : XMLNode} (hm : m.netMode = .client)
    (h : processNode m xml = .ok m') : Keeps m m' := by
  obtain ⟨fptr, hf, hm'⟩ := bind_ok_iff.mp h
  rw [← Except.ok.inj hm']
  exact methods_keep (mem_of_lookup (methodGet_eq_ok_iff.mp hf)) hm rfl

theorem foldlM_keeps {m m' : Msgs} {xmls : List XMLNode} (hm : m.netMode = .client)
    (h : xmls.foldlM processNode m = .ok m') : Keeps m m' := by
  induction xmls generalizing m with
  | nil =>
    obtain rfl := Except.ok.inj h
    exact Keeps.refl m
  | cons xml xmls ih =>
    rw [List.foldlM_cons] at h
    obtain ⟨m₁, hnode, hrest⟩ := bind_ok_iff.mp h
    have hfirst := processNode_keeps hm hnode
    exact hfirst.trans (ih (hfirst.1.trans hm) hrest)

/-- A message leaves the meters of a client alone, whatever is in it. -/
theorem process_keeps {m m' : Msgs} {xml : XMLNode} (hm : m.netMode = .client)
    (h : process m xml = .ok m') : Keeps m m' := by
  rw [process_nodes] at h
  exact foldlM_keeps hm h

/-! ## Texts that arrive -/

mutual

/-- Each element becomes a node of its name. -/
theorem names_extractNode : ∀ (n : Node) (x : XMLNode), extractNode n = .ok x →
    (nodes x).map XMLNode.name = n.names
  | .element name properties children, x, h => by
      obtain ⟨as, -, xs, hxs, rfl⟩ := extractNode_element.mp h
      rw [nodes, List.map_cons, Node.names, names_extractChildren children xs hxs]
  | .text content, x, h => by
      obtain rfl := Except.ok.inj h
      rfl
  | .comment content, x, h => by
      obtain rfl := Except.ok.inj h
      rfl

theorem names_extractChildren : ∀ (ns : List Node) (xs : List XMLNode),
    extractChildren ns = .ok xs → (nodesAll xs).map XMLNode.name = namesAll ns
  | [], xs, h => by
      obtain rfl := Except.ok.inj h
      rfl
  | n :: ns, zs, h => by
      rw [extractChildren_cons] at h
      rw [namesAll]
      split at h
      · next he =>
        obtain ⟨x, hx, xs, hxs, rfl⟩ := h
        rw [if_pos he, nodesAll, List.map_append, names_extractNode n x hx,
          names_extractChildren ns xs hxs]
      · next he =>
        rw [if_neg he]
        exact names_extractChildren ns zs h

end

theorem receive_ok {libxml : Libxml} {m m' : Msgs} {text : List Byte}
    (h : receive libxml m text = .ok m') : m' = m ∨ ∃ root, process m root = .ok m' := by
  obtain ⟨⟨_, xml⟩, -, h⟩ := bind_ok_iff.mp h
  cases xml with
  | none => exact Or.inl (Except.ok.inj h).symm
  | some root => exact Or.inr ⟨root, h⟩

theorem receive_keeps {libxml : Libxml} {m m' : Msgs} {text : List Byte}
    (hm : m.netMode = .client) (h : receive libxml m text = .ok m') : Keeps m m' := by
  rcases receive_ok h with rfl | ⟨root, hroot⟩
  · exact Keeps.refl m'
  · exact process_keeps hm hroot

/-- Whatever a client receives, its meters stay as they were. -/
theorem session_keeps {libxml : Libxml} {m m' : Msgs} {texts : List (List Byte)}
    (hm : m.netMode = .client) (h : session libxml m texts = .ok m') : Keeps m m' := by
  induction texts generalizing m with
  | nil =>
    obtain rfl := Except.ok.inj h
    exact Keeps.refl m
  | cons text texts ih =>
    obtain ⟨m₁, hreceive, hrest⟩ := bind_ok_iff.mp h
    have hfirst := receive_keeps hm hreceive
    exact hfirst.trans (ih (hfirst.1.trans hm) hrest)

/-- What can be received of a tree: no attribute is empty and each tag is registered. -/
def Receivable (root : Node) : Prop := root.filled ∧ ∀ name ∈ root.names, name ∈ tags

theorem process_ok_iff (m : Msgs) {root : Node} {x : XMLNode} (hx : extractNode root = .ok x) :
    (∃ m', process m x = .ok m') ↔ ∀ name ∈ root.names, name ∈ tags := by
  rw [process_nodes, foldlM_ok_iff, ← names_extractNode root x hx, List.forall_mem_map]

theorem receive_ok_iff (libxml : Libxml) (m : Msgs) {text : List Byte} (hne : delivered text ≠ []) :
    (∃ m', receive libxml m text = .ok m') ↔
      ∀ root, libxml (delivered text) = some root → Receivable root := by
  have hl : ¬ (delivered text).length = 0 := fun h => hne (List.length_eq_zero_iff.mp h)
  cases hroot : libxml (delivered text) with
  | none =>
    refine iff_of_true ⟨m, ?_⟩ fun root h => absurd h (by simp)
    simp [receive, parseMem, hl, hroot, bind, Except.bind, pure, Except.pure, Except.mapError]
  | some root =>
    simp only [Option.some.injEq, forall_eq', Receivable]
    rw [← extractNode_ok_iff]
    cases hn : extractNode root with
    | error e =>
      refine iff_of_false ?_ fun h => absurd h.1 (by simp)
      simp [receive, parseMem, hl, hroot, hn, bind, Except.bind, Except.mapError]
    | ok x =>
      rw [and_iff_right ⟨x, rfl⟩, ← process_ok_iff m hn]
      simp [receive, parseMem, hl, hroot, hn, bind, Except.bind, pure, Except.pure,
        Except.mapError]

theorem lf_not_mem_wrapped (type : XmlMsg) {inner : List Byte} (h : LF ∉ inner) :
    LF ∉ wrapped type inner := by
  have hclass : LF ∉ type.element := by cases type <;> decide
  have hheader : LF ∉ header := by decide
  rw [wrapped_eq]
  simp only [List.mem_append, not_or]
  exact ⟨⟨⟨⟨⟨⟨⟨hheader, by decide⟩, hclass⟩, by decide⟩, h⟩, by decide⟩, hclass⟩, by decide⟩

theorem delivered_wrapped {type : XmlMsg} {inner : List Byte}
    (hl : legal (wrapped type inner) = true) (h : LF ∉ inner) :
    delivered (ends (wrapped type inner)) = wrapped type inner := by
  rw [delivered, ends, cstr_append_nul [] (nul_not_mem_of_legal hl),
    cutAtLast_of_not_mem (lf_not_mem_wrapped type h)]

theorem delivered_response_ne_nil (tag val : List Byte) :
    delivered (metersResponseCreate tag val) ≠ [] := by
  have hheader : header ≠ [] := by decide
  have hresponse : ∃ s, metersResponseCreate tag val = header ++ s :=
    ⟨_, by simp only [metersResponseCreate, ends, List.append_assoc]; rfl⟩
  obtain ⟨s, hs⟩ := hresponse
  rw [delivered, hs, cstr_append (by decide)]
  by_cases hlf : LF ∈ cstr s
  · rw [cutAtLast_append_mem header hlf]
    exact List.append_ne_nil_of_left_ne_nil hheader _
  · have hno : LF ∉ header ++ cstr s := by
      rw [List.mem_append, not_or]
      exact ⟨by decide, hlf⟩
    rw [cutAtLast_of_not_mem hno]
    exact List.append_ne_nil_of_left_ne_nil hheader _

theorem meterTags_valid {tag : List Byte} (h : tag ∈ meterTags) : validName tag = true := by
  have hall : ∀ t ∈ meterTags, validName t = true := by decide
  exact hall tag h

section
variable {libxml : Libxml}
variable (hlib : ∀ s, libxml (bytes "<powerguru" ++ s) = document (bytes "<powerguru" ++ s))
include hlib

/-- The daemon looks the tag up and writes one answer. -/
theorem receive_request {daemon : Msgs} (hd : daemon.netMode = .daemon) {tag : List Byte}
    (ht : validName tag = true) :
    receive libxml { daemon with sent := [] } (metersRequestCreate tag) =
      .ok { daemon with sent := [metersResponseCreate tag (cacheGet daemon tag)] } := by
  have hplain : Plain tag := ⟨legal_of_validName ht, verbatim_of_validName ht⟩
  have htext : delivered (metersRequestCreate tag) = wrapped .meter tag := by
    rw [metersRequestCreate_eq (nul_not_mem_name ht)]
    exact delivered_wrapped ((legal_request .meter tag).trans hplain.1) hplain.2.2.2.1
  obtain ⟨root, hroot, rfl⟩ := (decodes_request hlib .meter hplain (· = _)).mpr rfl
  rw [receive, htext, hroot]
  have htop : methodGet (bytes "powerguru") = .ok powerguruProcess := rfl
  have hmeters : methodGet XmlMsg.meter.element = .ok metersProcess := rfl
  simp only [bind, Except.bind, pure, Except.pure, Except.mapError, process, processAll,
    processNode, htop, hmeters, powerguruProcess, metersProcess, hd, writeNet, List.nil_append]
  rfl

/-- What the exchange comes to. -/
theorem coherent_iff_kept {client daemon : Msgs} (hc : client.netMode = .client)
    (hd : daemon.netMode = .daemon) {tag : List Byte} (ht : tag ∈ meterTags) :
    Coherent libxml client daemon tag ↔ cacheGet client tag = cacheGet daemon tag ∧
      ∃ client', receive libxml client (metersResponseCreate tag (cacheGet daemon tag)) =
        .ok client' := by
  have hrequest := receive_request hlib hd (meterTags_valid ht)
  constructor
  · rintro ⟨client', daemon', h, he⟩
    obtain ⟨d, hd', h⟩ := bind_ok_iff.mp h
    rw [hrequest] at hd'
    obtain rfl := Except.ok.inj hd'
    obtain ⟨c, hsession, hpair⟩ := bind_ok_iff.mp h
    obtain ⟨rfl, rfl⟩ := Prod.mk.inj (Except.ok.inj hpair)
    obtain ⟨c', hreceive, -⟩ := bind_ok_iff.mp hsession
    exact ⟨((session_keeps hc hsession).2 tag ht).symm.trans he, c', hreceive⟩
  · rintro ⟨he, client', hreceive⟩
    have hsession : session libxml client [metersResponseCreate tag (cacheGet daemon tag)] =
        .ok client' := bind_ok_iff.mpr ⟨client', hreceive, rfl⟩
    refine ⟨client', _, bind_ok_iff.mpr ⟨_, hrequest, bind_ok_iff.mpr ⟨client', hsession, rfl⟩⟩, ?_⟩
    exact ((receive_keeps hc hreceive).2 tag ht).trans he

/-- The answer without a value is received. -/
theorem receive_empty (client : Msgs) {tag : List Byte} (ht : tag ∈ meterTags) :
    ∃ client', receive libxml client (metersResponseCreate tag []) = .ok client' := by
  have hv := meterTags_valid ht
  have hnul := nul_not_mem_name hv
  have hlegal := legal_response .meter hv []
  have hlf : LF ∉ tagged tag [] := by
    have htag : LF ∉ tag := not_mem_name hv (by decide)
    simp only [LF] at htag
    simp [tagged, bytes, LF, htag]
  have htext : delivered (metersResponseCreate tag []) = wrapped .meter (tagged tag []) := by
    rw [metersResponseCreate_eq hnul, delivered_wrapped hlegal hlf]
  have hresponse := decodes_response hlib .meter hv (show Plain [] by decide)
  obtain ⟨w, v, hd⟩ := hresponse fun x => ∀ node ∈ nodes x, node.name ∈ tags
  have hnames : ∀ t ∈ meterTags, localName [bytes "xml"] t ∈ tags := by decide
  have hall : bytes "powerguru" ∈ tags ∧ XmlMsg.meter.element ∈ tags := by decide
  obtain ⟨x, hx, hregistered⟩ := hd.mpr <| by
    simpa [nodes, nodesAll] using ⟨hall.1, hall.2, hnames tag ht⟩
  obtain ⟨client', hclient⟩ := (foldlM_ok_iff client (nodes x)).mpr hregistered
  refine ⟨client', ?_⟩
  rw [← process_nodes] at hclient
  rw [receive, htext, hx]
  exact hclient

end

/-- A client in client mode, whose program has just started, and what it received since. -/
def Started (libxml : Libxml) (client : Msgs) : Prop :=
  ∃ m texts, m.netMode = .client ∧ m.cache = [] ∧ session libxml (init m) texts = .ok client

theorem started_client {libxml : Libxml} {client : Msgs} (h : Started libxml client) :
    client.netMode = .client ∧ ∀ tag ∈ meterTags, cacheGet client tag = [] := by
  obtain ⟨m, texts, hm, hcache, hrun⟩ := h
  have hinit : init m = m := by rw [init, if_neg (by rw [hm]; simp)]
  rw [hinit] at hrun
  have hkeeps := session_keeps hm hrun
  refine ⟨hkeeps.1.trans hm, ?_⟩
  intro tag ht
  rw [hkeeps.2 tag ht, cacheGet, hcache]
  rfl

/-- Client and daemon agree on a meter after the exchange if and only if they did before it and
the client survives the answer, in whose value no attribute is empty and each tag is registered;
for a client since its start this means that the daemon has no value. -/
theorem coherent_iff (libxml : Libxml)
    (hlib : ∀ s, libxml (bytes "<powerguru" ++ s) = document (bytes "<powerguru" ++ s))
    {daemon : Msgs} (hd : daemon.netMode = .daemon) {tag : List Byte} (ht : tag ∈ meterTags) :
    (∀ client : Msgs, client.netMode = .client →
      (Coherent libxml client daemon tag ↔ cacheGet client tag = cacheGet daemon tag ∧
        ∀ root, libxml (delivered (metersResponseCreate tag (cacheGet daemon tag))) = some root →
          Receivable root)) ∧
    (∀ client : Msgs, Started libxml client →
      (Coherent libxml client daemon tag ↔ cacheGet daemon tag = [])) := by
  constructor
  · intro client hc
    have hne := delivered_response_ne_nil tag (cacheGet daemon tag)
    rw [coherent_iff_kept hlib hc hd ht, receive_ok_iff libxml client hne]
  · intro client hs
    obtain ⟨hc, hempty⟩ := started_client hs
    rw [coherent_iff_kept hlib hc hd ht, hempty tag ht]
    constructor
    · rintro ⟨he, -⟩
      exact he.symm
    · intro he
      rw [he]
      exact ⟨rfl, receive_empty hlib client ht⟩

/-- A program in this mode, before `init`. -/
def fresh (mode : NetMode) : Msgs := ⟨mode, [], [], [], [], [], []⟩

theorem hertz_coherent :
    Coherent document (init (fresh .client)) (init (fresh .daemon)) (bytes "hertz") := by
  have hd : (init (fresh .daemon)).netMode = .daemon := rfl
  apply ((coherent_iff document (fun _ => rfl) hd (by decide)).2 _ ?_).mpr
  · decide
  · exact ⟨fresh .client, [], rfl, rfl, rfl⟩

/-- The battery voltage that every daemon has. -/
theorem batteryVolts_lost :
    ¬ Coherent document (init (fresh .client)) (init (fresh .daemon)) (bytes "battery-volts") := by
  rw [coherent_iff_kept (fun _ => rfl) rfl rfl (by decide)]
  rintro ⟨he, -⟩
  exact absurd he (by decide)

end PowerGuru.Net.MeterQuery
