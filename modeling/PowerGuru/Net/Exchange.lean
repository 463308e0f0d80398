import PowerGuru.Lib.Queues
import PowerGuru.Net.NodeEffects

/-!
# A client and a daemon with a connection between them

Each of them processes the texts that the other sends, one by one, in whatever order the two
get to run. Requests are answered once and in their order, and the end is the same in every
run, unless one of them has to do with a configuration: then the two warn each other of it
for ever. A text with a tag that is not registered ends the program that hears it.
-/
namespace PowerGuru.Net.Exchange

open Lib.Bytes Lib.AssocMap Lib.Queues Common Xml XmlText Commands Messages RoundTrip Encodings
open MeterQuery NodeEffects

/-- What a program makes of a text that arrives by itself, and what it sends on it. Of an empty
text there is nothing to send. -/
def hear (libxml : Libxml) (m : Msgs) (text : List Byte) : Option (Msgs × List (List Byte)) :=
  match receive libxml { m with sent := [] } text with
  | .ok m' => some ({ m' with sent := [] }, m'.sent.filter (· ≠ []))
  | .error _ => none

/-- The client is the party on the left. -/
abbrev Exchanges (libxml : Libxml) : Net Msgs Msgs (List Byte) → Net Msgs Msgs (List Byte) → Prop :=
  Step (hear libxml) (hear libxml)

/-- A question: a class element that has a method, with any name in it for a tag. `requestCreate`
writes the classes of meters, of a status and of a configuration. -/
structure Request where
  type : XmlMsg
  tag : List Byte
  valid : validName tag = true
  asked : type.element ∈ tags

theorem meter_asked : XmlMsg.meter.element ∈ tags := by decide

def Request.text (r : Request) : List Byte := requestBody r.type.element r.tag

/-- Whatever the encoders write without a value is one of these. A command is asked for as a
status. -/
theorem request_of_message {m : Message} (h : m.Proper) (hv : m.value = none) :
    ∃ r : Request, r.text = m.encode ∧ r.type = m.sent ∧ r.tag = m.tag := by
  have hc : ∀ tag value, m ≠ .config tag value := by
    rintro tag value rfl
    exact absurd hv (by simp [Message.value])
  have hinner : m.inner = m.tag := by rw [Message.inner, hv]
  have hclasses : XmlMsg.meter.element ∈ tags ∧ XmlMsg.status.element ∈ tags ∧
      XmlMsg.config.element ∈ tags := by decide
  have hasked : m.sent.element ∈ tags := by
    cases m with
    | requestMeters | metersRequestOf | metersRequest => exact hclasses.1
    | requestStatus | requestCommand => exact hclasses.2.1
    | requestConfig => exact hclasses.2.2
    | metersResponse | response | config => exact absurd hv (by simp [Message.value])
  exact ⟨⟨m.sent, m.tag, h.1, hasked⟩,
    by rw [m.encode_eq h hc, hinner, Request.text, requestBody_eq], rfl, rfl⟩

/-- What the daemon says of a status. -/
def statusReply (tag : List Byte) : Option (List Byte) :=
  if tag = bytes "sysversion" then some version
  else if tag = bytes "revision" then some (bytes "0.0")
  else if tag ∈ [bytes "opmode", bytes "warningmode", bytes "errormode"] then some (bytes "none")
  else none

/-- What it says of a command, and the class of that. -/
def commandReply (tag : List Byte) : XmlMsg × List Byte :=
  if tag = bytes "auxilary" then (.command, bytes "0.0")
  else if tag = bytes "relay" then (.command, bytes "none")
  else if tag = bytes "poll" then (.command, bytes "inverter")
  else (.response, bytes "foobar")

/-- The class and the value of the one answer to a request, if it has one. -/
def Request.reply (daemon : Msgs) (r : Request) : Option (XmlMsg × List Byte) :=
  match r.type with
  | .meter => some (.meter, cacheGet daemon r.tag)
  | .status => (statusReply r.tag).map fun val => (.status, val)
  | .command => some (commandReply r.tag)
  | .config | .heartbeat | .response => none

/-- The name under which a client gets what it asked for. -/
def Request.name (r : Request) : List Byte := localName [bytes "xml"] r.tag

/-- What a client knows after the answer. -/
def learn (daemon client : Msgs) (r : Request) : Msgs :=
  match r.reply daemon with
  | some (_, val) => stored client ⟨r.name, val, [], []⟩
  | none => client

/-- The client has a method for each tag of the answer. -/
def Request.Known (r : Request) : Prop :=
  (r.type = .meter → r.name ∈ tags) ∧ (r.type = .status → r.tag ≠ bytes "sysversion") ∧
    (r.type = .command → r.tag ∈ [bytes "auxilary", bytes "relay", bytes "poll"])

instance (r : Request) : Decidable r.Known :=
  inferInstanceAs (Decidable ((_ → _) ∧ (_ → _) ∧ (_ → _)))

/-- The daemon warns of the request, or the client of the answer. -/
def Request.Looping (r : Request) : Prop :=
  r.type = .config ∨ r.type = .meter ∧ r.name ∈ configNames

instance (r : Request) : Decidable r.Looping := inferInstanceAs (Decidable (_ ∨ _ ∧ _))

/-! ## Texts and their nodes -/

/-- Whoever gets the text processes this tree. -/
def Reads (libxml : Libxml) (text : List Byte) (root : XMLNode) : Prop :=
  ∀ m, receive libxml m text = process m root

theorem unsent {m : Msgs} (h : m.sent = []) : { m with sent := [] } = m := by rw [← h]

theorem Reads.hear {libxml : Libxml} {text : List Byte} {root : XMLNode}
    (h : Reads libxml text root) (hroot : ∀ node ∈ nodes root, node.name ∈ tags) {m : Msgs}
    (hs : m.sent = []) :
    hear libxml m text = some ({ (nodes root).foldl stored m with sent := [] },
      ((nodes root).flatMap (writes m)).filter (· ≠ [])) := by
  rw [Exchange.hear, unsent hs, h m, process_eq m hroot, hs]
  rfl

/-- One tag that is not registered is enough. -/
theorem Reads.unheard {libxml : Libxml} {text : List Byte} {root : XMLNode}
    (h : Reads libxml text root) {node : XMLNode} (hnode : node ∈ nodes root)
    (hno : node.name ∉ tags) (m : Msgs) : Exchange.hear libxml m text = none := by
  rw [Exchange.hear, h, process_nodes]
  cases hrun : (nodes root).foldlM processNode { m with sent := [] } with
  | error e => rfl
  | ok m' => exact absurd ((foldlM_ok_iff _ _).mp ⟨m', hrun⟩ node hnode) hno

/-- The whole message below the root, which does nothing itself. -/
def message (value : List Byte) (node : XMLNode) : XMLNode :=
  ⟨bytes "powerguru", value, [node], [(bytes "version", version)]⟩

theorem powerguru_idle (m : Msgs) (value : List Byte) (children : List XMLNode)
    (attributes : List (List Byte × List Byte)) :
    stored m ⟨bytes "powerguru", value, children, attributes⟩ = m ∧
      writes m ⟨bytes "powerguru", value, children, attributes⟩ = [] := by
  have hno : bytes "powerguru" ∉ statusNames ∧ bytes "powerguru" ∉ commandNames ∧
      bytes "powerguru" ∉ configNames ∧ bytes "powerguru" ≠ bytes "meters" := by decide
  constructor
  · rw [stored, if_neg]
    rintro ⟨-, ⟨h, -⟩ | ⟨h, -⟩⟩
    · exact hno.1 h
    · exact hno.2.1 h
  · simp only [writes, if_neg hno.2.2.1, if_neg hno.2.2.2, if_neg hno.1, hno.2.1, false_and,
      if_false, ite_self]

theorem delivered_ends {body tail : List Byte} (hn : NUL ∉ body) (hlf : LF ∉ body) :
    delivered (ends body ++ tail) = body := by
  have hsplit : ends body ++ tail = body ++ NUL :: tail := by
    rw [ends, List.append_assoc]
    rfl
  rw [delivered, hsplit, cstr_append_nul tail hn, cutAtLast_of_not_mem hlf]

theorem reads_of_tree {libxml : Libxml} {text body : List Byte} {root : Node} {x : XMLNode}
    (htext : delivered text = body) (hne : body ≠ []) (hroot : libxml body = some root)
    (hx : extractNode root = .ok x) : Reads libxml text x := by
  have hl : ¬ body.length = 0 := fun h => hne (List.length_eq_zero_iff.mp h)
  intro m
  simp [receive, parseMem, htext, hl, hroot, hx, bind, Except.bind, pure, Except.pure,
    Except.mapError]

def Request.node (r : Request) : XMLNode := ⟨r.type.element, r.tag, [], []⟩

/-- What a client gets: the class with a value in an element of this name. -/
def answerNode (type : XmlMsg) (value name val : List Byte) : XMLNode :=
  ⟨type.element, value, [⟨name, val, [], []⟩], []⟩

def unimplemented : List Byte := bytes "unimplemented"

/-- The value of an element is all the text below it. -/
def warningNode (name : List Byte) : XMLNode :=
  ⟨bytes "status", unimplemented, [⟨bytes "warningmode", unimplemented,
    [⟨name, unimplemented, [], []⟩], []⟩], []⟩

theorem plain_of_validName {name : List Byte} (h : validName name = true) : Plain name :=
  ⟨legal_of_validName h, verbatim_of_validName h⟩

theorem lf_not_mem_tagged {tag val : List Byte} (h : validName tag = true) (hv : LF ∉ val) :
    LF ∉ tagged tag val := by
  have htag : LF ∉ tag := not_mem_name h (by decide)
  simp only [LF] at htag hv
  simp [tagged, bytes, LF, htag, hv]

def warningmodeTag : TagName := ⟨bytes "warningmode", by decide, by decide, by decide⟩

/-- What a warning has in the class element. -/
def warningInner (name : List Byte) : List Byte :=
  warningmodeTag.start ++ (tagged name (bytes "unimplemented") ++ warningmodeTag.stop)

theorem warning_eq (name : List Byte) :
    warning name = ends (wrapped .status (warningInner name)) := by
  rw [wrapped_eq]
  simp [warning, warningInner, tagged, TagName.start, TagName.stop, warningmodeTag, XmlMsg.element,
    bytes]

theorem legal_warning {name : List Byte} (h : validName name = true) :
    legal (wrapped .status (warningInner name)) = true := by
  have hmode : (bytes "<warningmode>").all isAscii = true ∧
      (bytes "unimplemented</").all isAscii = true := by decide
  have hback : legal (62 :: (warningmodeTag.stop ++ closing .status)) = true := by decide
  have htext : warningInner name ++ closing .status = bytes "<warningmode>" ++
      (60 :: (name ++ 62 :: (bytes "unimplemented</" ++
        (name ++ 62 :: (warningmodeTag.stop ++ closing .status))))) := by
    simp [warningInner, tagged, TagName.start, warningmodeTag, bytes]
  have hname := legal_of_validName h
  rw [wrapped, (legal_frame .status _).1, htext, legal_ascii_append hmode.1,
    legal_cons (by decide), legal_append (by decide), hname, legal_cons (by decide),
    legal_ascii_append hmode.2, legal_append (by decide), hname, hback]
  rfl

theorem document_warning {name : List Byte} (h : validName name = true) :
    document (wrapped .status (warningInner name)) =
      some (.element powerguruTag.name (property versionName version)
        [.element XmlMsg.status.element [] [.element warningmodeTag.name []
          [.element (localName [bytes "xml"] name) [] (leaf (bytes "unimplemented"))]]]) := by
  have hfuel : ∃ k, (wrapped .status (warningInner name)).length = k + 6 := by
    refine ⟨_, (Nat.sub_add_cancel ?_).symm⟩
    have hclosing : 6 ≤ (closing .status).length := by decide
    simp only [wrapped, TagName.with, PropertyName.text, List.length_cons, List.length_append]
    omega
  obtain ⟨k, hk⟩ := hfuel
  have hverbatim : Verbatim (bytes "unimplemented") := by decide
  have hroot := content_stop powerguruTag (k+4) [bytes "xml"] []
  have hclass := content_stop (classTag .status) (k+3) [bytes "xml"] powerguruTag.stop
  have hmode := content_stop warningmodeTag (k+2) [bytes "xml"] (closing .status)
  rw [List.append_nil] at hroot
  have hinner : warningInner name ++ closing .status = warningmodeTag.start ++
      (tagged name (bytes "unimplemented") ++ (warningmodeTag.stop ++ closing .status)) := by
    simp [warningInner]
  apply document_attribute powerguruTag versionName (by decide) (legal_warning h)
  rw [← wrapped, hk, content_tag, hinner, content_tag, tagged_append,
    content_named h hverbatim (k+1), hmode]
  have hend := closeTag_stop (classTag .status) powerguruTag.stop
  rw [← closing] at hclass hend
  simp only [Option.map_some, enclosed, closeTag_stop, Option.bind_some, hclass, hend, hroot]
  rfl

section
variable {libxml : Libxml}
variable (hlib : ∀ s, libxml (bytes "<powerguru" ++ s) = document (bytes "<powerguru" ++ s))
include hlib

theorem reads_request (r : Request) :
    ∃ value, Reads libxml r.text (message value r.node) := by
  have hplain := plain_of_validName r.valid
  have htext : delivered r.text = wrapped r.type r.tag := by
    rw [Request.text, requestBody_eq]
    exact delivered_wrapped ((legal_request r.type r.tag).trans hplain.1) hplain.2.2.2.1
  have htree := (libxml_wrapped hlib r.type r.tag).trans (document_request r.type hplain)
  have hchildren := extractChildren_element (extractNode_leaf r.type.element hplain.2)
    extractChildren_nil
  exact ⟨_, reads_of_tree htext (wrapped_ne_nil _ _) htree (extractNode_root hchildren)⟩

/-- What stands behind the NUL of an answer is not read. -/
theorem reads_answer (type : XmlMsg) {tag val : List Byte} (h : validName tag = true)
    (hv : Plain val) (tail : List Byte) :
    ∃ value value', Reads libxml (responseCreate type tag val ++ tail)
      (message value (answerNode type value' (localName [bytes "xml"] tag) val)) := by
  have hlegal := (legal_response type h val).trans hv.1
  have htext : delivered (responseCreate type tag val ++ tail) = wrapped type (tagged tag val) := by
    rw [responseCreate_eq type (nul_not_mem_name h)]
    exact delivered_ends (nul_not_mem_of_legal hlegal)
      (lf_not_mem_wrapped type (lf_not_mem_tagged h hv.2.2.2.1))
  have htree := (libxml_wrapped hlib type (tagged tag val)).trans (document_response type h hv)
  have hleaf := extractNode_leaf (localName [bytes "xml"] tag) hv.2
  have hclass : extractNode (.element type.element []
      [.element (localName [bytes "xml"] tag) [] (leaf val)]) = .ok ⟨type.element, _, _, []⟩ :=
    extractNode_bare (extractChildren_element hleaf extractChildren_nil)
  have hchildren := extractChildren_element hclass extractChildren_nil
  exact ⟨_, _, reads_of_tree htext (wrapped_ne_nil _ _) htree (extractNode_root hchildren)⟩

theorem reads_warning {name : List Byte} (h : validName name = true)
    (hlocal : localName [bytes "xml"] name = name) :
    ∃ value, Reads libxml (warning name) (message value (warningNode name)) := by
  have hlegal := legal_warning h
  have hverbatim : Verbatim (bytes "unimplemented") := by decide
  have hlf : LF ∉ warningInner name := by
    have htagged := lf_not_mem_tagged h (show LF ∉ bytes "unimplemented" by decide)
    simp only [warningInner, List.mem_append, not_or]
    exact ⟨by decide, htagged, by decide⟩
  have htext : delivered (warning name) = wrapped .status (warningInner name) := by
    rw [warning_eq]
    exact delivered_wrapped hlegal hlf
  have htree := (libxml_wrapped hlib .status (warningInner name)).trans (document_warning h)
  rw [hlocal] at htree
  have hleaf := extractNode_leaf name hverbatim
  have hmode : extractNode (.element warningmodeTag.name [] [.element name []
      (leaf (bytes "unimplemented"))]) = .ok ⟨warningmodeTag.name, _, _, []⟩ :=
    extractNode_bare (extractChildren_element hleaf extractChildren_nil)
  have hclass : extractNode (.element XmlMsg.status.element [] [.element warningmodeTag.name []
      [.element name [] (leaf (bytes "unimplemented"))]]) =
        .ok ⟨XmlMsg.status.element, _, _, []⟩ :=
    extractNode_bare (extractChildren_element hmode extractChildren_nil)
  have hchildren := extractChildren_element hclass extractChildren_nil
  exact ⟨_, reads_of_tree htext (wrapped_ne_nil _ _) htree (extractNode_root hchildren)⟩

end

/-! ## The daemon -/

/-- What the daemon sends on a request. -/
def Request.answers (daemon : Msgs) (r : Request) : List (List Byte) :=
  if r.type = .config then [warning (bytes "config")]
  else
    match r.reply daemon with
    | some (type, val) =>
        [responseCreate type r.tag val ++ if r.type = .command then bytes "\r\n" else []]
    | none => []

theorem statusAnswer_eq (tag : List Byte) :
    statusAnswer tag = ((statusReply tag).map (responseCreate .status tag)).getD [] := by
  unfold statusAnswer statusReply
  split
  · rfl
  split
  · rfl
  · simp only [List.mem_cons, List.not_mem_nil, or_false]
    split
    · next h => simp [h]
    · next h1 =>
      split
      · next h => simp [h]
      · next h2 =>
        split
        · next h => simp [h]
        · next h3 => simp [h1, h2, h3]

theorem commandAnswer_eq {tag : List Byte} (h : tag ≠ []) :
    commandAnswer tag = responseCreate (commandReply tag).1 tag (commandReply tag).2 := by
  unfold commandAnswer commandReply
  repeat' split
  all_goals rfl

theorem responseCreate_ne_nil (type : XmlMsg) (tag val tail : List Byte) :
    responseCreate type tag val ++ tail ≠ [] := by
  simp [responseCreate, ends]

theorem warning_ne_nil (name : List Byte) : warning name ≠ [] := by simp [warning, ends]

theorem filter_one {text : List Byte} (h : text ≠ []) :
    [text].filter (· ≠ []) = [text] := by
  simp [h]

theorem writes_request {daemon : Msgs} (hd : daemon.netMode = .daemon) (r : Request) :
    (writes daemon r.node).filter (· ≠ []) = r.answers daemon := by
  have hne : r.tag ≠ [] := ne_nil_of_validName r.valid
  have hnul := nul_not_mem_name r.valid
  have hmode : ¬ daemon.netMode ≠ .daemon := not_not.mpr hd
  have hconfigs : ∀ type : XmlMsg, type.element ∈ configNames ↔ type = .config := by
    intro type
    cases type <;> decide
  have hmeters : ∀ type : XmlMsg, type.element = bytes "meters" ↔ type = .meter := by
    intro type
    cases type <;> decide
  have hstatuses : ∀ type : XmlMsg, type.element ∈ statusNames ↔ type = .status := by
    intro type
    cases type <;> decide
  have hcommands : ∀ type : XmlMsg, type.element ∈ commandNames ↔ type = .command := by
    intro type
    cases type <;> decide
  simp only [writes, Request.node, hconfigs, hmeters, hstatuses, hcommands, if_neg hmode]
  unfold Request.answers Request.reply
  cases r.type with
  | config => exact filter_one (warning_ne_nil _)
  | meter =>
    have hmeter : metersResponseCreate r.tag (cacheGet daemon r.tag) =
        responseCreate .meter r.tag (cacheGet daemon r.tag) ++ [] := by
      rw [metersResponseCreate_eq hnul, responseCreate_eq .meter hnul, List.append_nil]
    simp only [reduceCtorEq, if_false, if_true, hmeter]
    exact filter_one (responseCreate_ne_nil _ _ _ _)
  | status =>
    simp only [reduceCtorEq, if_false, if_true, statusAnswer_eq]
    cases statusReply r.tag with
    | none => rfl
    | some val =>
      have hone := responseCreate_ne_nil .status r.tag val []
      rw [List.append_nil] at hone
      simp only [Option.map_some, Option.getD_some, List.append_nil]
      exact filter_one hone
  | command =>
    simp only [reduceCtorEq, if_false, true_and, if_pos hne, commandAnswer_eq hne, if_true]
    exact filter_one (responseCreate_ne_nil _ _ _ _)
  | heartbeat => simp only [reduceCtorEq, if_false, false_and, List.filter_nil]
  | response => simp only [reduceCtorEq, if_false, false_and, List.filter_nil]

theorem nodes_message (value : List Byte) (node : XMLNode) :
    nodes (message value node) = message value node :: nodes node := by
  rw [message, nodes, nodesAll, nodesAll, List.append_nil]

theorem nodes_leaf (name value : List Byte) :
    nodes ⟨name, value, [], []⟩ = [⟨name, value, [], []⟩] := by
  rw [nodes, nodesAll]

theorem nodes_answer (type : XmlMsg) (value name val : List Byte) :
    nodes (answerNode type value name val) =
      [answerNode type value name val, ⟨name, val, [], []⟩] := by
  rw [answerNode, nodes, nodesAll, nodesAll, nodes_leaf, List.append_nil]

theorem powerguru_mem : bytes "powerguru" ∈ tags := by decide

theorem forall_nodes_message {value : List Byte} {node : XMLNode}
    (h : ∀ n ∈ nodes node, n.name ∈ tags) : ∀ n ∈ nodes (message value node), n.name ∈ tags := by
  rw [nodes_message, List.forall_mem_cons]
  exact ⟨powerguru_mem, h⟩

/-- A message is heard as its nodes below the root. -/
theorem hear_message {libxml : Libxml} {text value : List Byte} {node : XMLNode}
    (h : Reads libxml text (message value node)) (hnodes : ∀ n ∈ nodes node, n.name ∈ tags)
    {m : Msgs} (hs : m.sent = []) :
    hear libxml m text = some ({ (nodes node).foldl stored m with sent := [] },
      ((nodes node).flatMap (writes m)).filter (· ≠ [])) := by
  obtain ⟨hstored, hwrites⟩ := powerguru_idle m value [node] [(bytes "version", version)]
  rw [h.hear (forall_nodes_message hnodes) hs, nodes_message, List.foldl_cons, List.flatMap_cons,
    message, hstored, hwrites, List.nil_append]

section
variable {libxml : Libxml}
variable (hlib : ∀ s, libxml (bytes "<powerguru" ++ s) = document (bytes "<powerguru" ++ s))
include hlib

theorem hear_request {daemon : Msgs} (hd : daemon.netMode = .daemon) (hs : daemon.sent = [])
    (r : Request) : hear libxml daemon r.text = some (daemon, r.answers daemon) := by
  have hclient : daemon.netMode ≠ .client := by
    rw [hd]
    decide
  have hnodes : ∀ n ∈ nodes r.node, n.name ∈ tags := by
    rw [Request.node, nodes_leaf, List.forall_mem_singleton]
    exact r.asked
  obtain ⟨value, hreads⟩ := reads_request hlib r
  rw [hear_message hreads hnodes hs, foldl_stored_of_not_client hclient, unsent hs, Request.node,
    nodes_leaf, List.flatMap_singleton, ← Request.node, writes_request hd]

/-! ## The client -/

/-- What the client sends on an answer. -/
def objection (name : List Byte) : List (List Byte) :=
  if name ∈ configNames then [warning name] else []

/-- The client has methods for the class and for the name. -/
theorem hear_answer {client : Msgs} (hc : client.netMode = .client) (hs : client.sent = [])
    {type : XmlMsg} (htype : type ≠ .config) (hclass : type.element ∈ tags) {tag val : List Byte}
    (h : validName tag = true) (hname : localName [bytes "xml"] tag ∈ tags) (hv : Plain val)
    (tail : List Byte) :
    hear libxml client (responseCreate type tag val ++ tail) =
      some (stored client ⟨localName [bytes "xml"] tag, val, [], []⟩,
        objection (localName [bytes "xml"] tag)) := by
  obtain ⟨value, value', hreads⟩ := reads_answer hlib type h hv tail
  have hnames : type.element ∉ configNames ∧
      (type.element ∈ statusNames → type.element = bytes "status") ∧
      (type.element ∈ commandNames → type.element = bytes "command") := by
    cases type <;> first | exact absurd rfl htype | decide
  have hkeep : ∀ children, stored client ⟨type.element, value', children, []⟩ = client := by
    intro children
    rw [stored, if_neg]
    rintro ⟨-, ⟨hm, hne⟩ | ⟨hm, hne, -⟩⟩
    · exact hne (hnames.2.1 hm)
    · exact hne (hnames.2.2 hm)
  have hmode : client.netMode ≠ .daemon := by
    rw [hc]
    decide
  have hnodes : ∀ n ∈ nodes (answerNode type value' (localName [bytes "xml"] tag) val),
      n.name ∈ tags := by
    rw [nodes_answer, List.forall_mem_cons, List.forall_mem_singleton]
    exact ⟨hclass, hname⟩
  have hsent := unsent ((stored_sent client ⟨localName [bytes "xml"] tag, val, [], []⟩).trans hs)
  rw [hear_message hreads hnodes hs, nodes_answer, answerNode, List.foldl_cons, hkeep,
    List.foldl_cons, List.foldl_nil, hsent, List.flatMap_cons, List.flatMap_singleton]
  simp only [writes, if_neg hnames.1, if_pos hmode, List.nil_append, objection]
  split
  · exact congrArg some (congrArg (Prod.mk _) (filter_one (warning_ne_nil _)))
  · rfl

/-- It does not survive an answer without them. -/
theorem hear_unknown (client : Msgs) {type : XmlMsg} {tag val : List Byte}
    (h : validName tag = true)
    (hno : ¬ (type.element ∈ tags ∧ localName [bytes "xml"] tag ∈ tags)) (hv : Plain val)
    (tail : List Byte) : hear libxml client (responseCreate type tag val ++ tail) = none := by
  obtain ⟨value, value', hreads⟩ := reads_answer hlib type h hv tail
  have hmem : ∀ n ∈ nodes (answerNode type value' (localName [bytes "xml"] tag) val),
      n ∈ nodes (message value (answerNode type value' (localName [bytes "xml"] tag) val)) := by
    intro n hn
    rw [nodes_message]
    exact List.mem_cons_of_mem _ hn
  rw [nodes_answer, List.forall_mem_cons, List.forall_mem_singleton] at hmem
  by_cases hclass : type.element ∈ tags
  · exact hreads.unheard hmem.2 (fun hname => hno ⟨hclass, hname⟩) client
  · exact hreads.unheard hmem.1 hclass client

end

/-! ## Questions and answers -/

/-- The value that a client gets has neither markup nor line ends. -/
def Request.Clean (daemon : Msgs) (r : Request) : Prop :=
  r.type = .meter → Plain (cacheGet daemon r.tag)

theorem plain_reply {daemon : Msgs} {r : Request} (h : r.Clean daemon) {type : XmlMsg}
    {val : List Byte} (hr : r.reply daemon = some (type, val)) : Plain val ∧ type ≠ .config := by
  have hstatus : ∀ val, statusReply r.tag = some val → Plain val := by
    intro val hval
    unfold statusReply at hval
    split at hval
    · rw [← Option.some.inj hval]
      decide
    split at hval
    · rw [← Option.some.inj hval]
      decide
    split at hval
    · rw [← Option.some.inj hval]
      decide
    · exact absurd hval (by simp)
  have hcommand : Plain (commandReply r.tag).2 ∧ (commandReply r.tag).1 ≠ .config := by
    unfold commandReply
    repeat' split
    all_goals decide
  unfold Request.reply at hr
  cases htype : r.type with
  | meter =>
    simp only [htype, Option.some.injEq, Prod.mk.injEq] at hr
    obtain ⟨rfl, rfl⟩ := hr
    exact ⟨h htype, by decide⟩
  | status =>
    simp only [htype, Option.map_eq_some_iff, Prod.mk.injEq] at hr
    obtain ⟨val', hval, rfl, rfl⟩ := hr
    exact ⟨hstatus val' hval, by decide⟩
  | command =>
    simp only [htype, Option.some.injEq] at hr
    rw [hr] at hcommand
    exact hcommand
  | config => simp [htype] at hr
  | heartbeat => simp [htype] at hr
  | response => simp [htype] at hr

/-- The words of a status with an answer. -/
theorem statusReply_words {tag val : List Byte} (h : statusReply tag = some val) :
    tag = bytes "sysversion" ∨
      tag ∈ [bytes "revision", bytes "opmode", bytes "warningmode", bytes "errormode"] := by
  unfold statusReply at h
  split at h
  · next he => exact Or.inl he
  split at h
  · next he => exact Or.inr (he ▸ List.mem_cons_self)
  split at h
  · next he => exact Or.inr (List.mem_cons_of_mem _ he)
  · exact absurd h (by simp)

/-- The class and the name of the answer are those tags. -/
theorem known_iff {daemon : Msgs} {r : Request} {type : XmlMsg} {val : List Byte}
    (h : r.reply daemon = some (type, val)) :
    r.Known ↔ type.element ∈ tags ∧ r.name ∈ tags := by
  have hclasses : XmlMsg.meter.element ∈ tags ∧ XmlMsg.status.element ∈ tags ∧
      XmlMsg.command.element ∈ tags ∧ XmlMsg.response.element ∉ tags := by decide
  obtain ⟨hmeter, hstatus, hcommand, hresponse⟩ := hclasses
  unfold Request.reply at h
  unfold Request.Known
  cases htype : r.type with
  | meter =>
    simp only [htype, Option.some.injEq, Prod.mk.injEq] at h
    obtain ⟨rfl, rfl⟩ := h
    simp [hmeter]
  | status =>
    simp only [htype, Option.map_eq_some_iff, Prod.mk.injEq] at h
    obtain ⟨val', hval, rfl, rfl⟩ := h
    simp only [reduceCtorEq, false_imp_iff, true_imp_iff, and_true, true_and, hstatus]
    rcases statusReply_words hval with he | hword
    · refine iff_of_false (not_not.mpr he) ?_
      rw [Request.name, he]
      decide
    · have hall : ∀ tag ∈ [bytes "revision", bytes "opmode", bytes "warningmode",
          bytes "errormode"], tag ≠ bytes "sysversion" ∧ localName [bytes "xml"] tag ∈ tags := by
        decide
      obtain ⟨hne, hname⟩ := hall r.tag hword
      exact iff_of_true hne hname
  | command =>
    simp only [htype, Option.some.injEq, commandReply] at h
    simp only [reduceCtorEq, false_imp_iff, true_imp_iff, true_and]
    have hall : ∀ tag ∈ [bytes "auxilary", bytes "relay", bytes "poll"],
        localName [bytes "xml"] tag ∈ tags := by decide
    by_cases hword : r.tag ∈ [bytes "auxilary", bytes "relay", bytes "poll"]
    · have htype' : type = .command := by
        split_ifs at h <;> simp_all
      exact iff_of_true hword ⟨htype' ▸ hcommand, hall r.tag hword⟩
    · refine iff_of_false hword fun hk => hresponse ?_
      simp only [List.mem_cons, List.not_mem_nil, or_false, not_or] at hword
      rw [if_neg hword.1, if_neg hword.2.1, if_neg hword.2.2, Prod.mk.injEq] at h
      exact h.1 ▸ hk.1
  | config => simp [htype] at h
  | heartbeat => simp [htype] at h
  | response => simp [htype] at h

/-- What the client does not know is an answer. -/
theorem reply_of_not_known (daemon : Msgs) {r : Request} (h : ¬ r.Known) :
    r.type ≠ .config ∧ ∃ p, r.reply daemon = some p := by
  unfold Request.Known at h
  unfold Request.reply
  cases htype : r.type with
  | meter => exact ⟨by simp, _, rfl⟩
  | command => exact ⟨by simp, _, rfl⟩
  | status =>
    simp only [htype, reduceCtorEq, false_imp_iff, true_imp_iff, and_true, true_and, not_not] at h
    exact ⟨by simp, (.status, version), by simp [statusReply, h]⟩
  | config | heartbeat | response => simp [htype] at h

/-- A status or a command whose answer the client knows is no configuration. -/
theorem objects_iff (daemon : Msgs) {r : Request} (hne : r.type ≠ .config) (hk : r.Known) :
    r.Looping ↔ (r.reply daemon).isSome = true ∧ r.name ∈ configNames := by
  have hcommands : ∀ tag ∈ [bytes "auxilary", bytes "relay", bytes "poll"],
      localName [bytes "xml"] tag ∉ configNames := by decide
  have hstatuses : ∀ val, statusReply r.tag = some val → r.name ∉ configNames := by
    intro val hval
    have hall : ∀ tag ∈ bytes "sysversion" :: [bytes "revision", bytes "opmode",
        bytes "warningmode", bytes "errormode"], localName [bytes "xml"] tag ∉ configNames := by
      decide
    exact hall r.tag (List.mem_cons.mpr (statusReply_words hval))
  obtain ⟨-, -, hcommand⟩ := hk
  unfold Request.Looping Request.reply
  cases htype : r.type with
  | meter => simp
  | command =>
    simp only [reduceCtorEq, false_or, false_and, false_iff, not_and]
    exact fun _ => hcommands r.tag (hcommand htype)
  | status =>
    simp only [reduceCtorEq, false_or, false_and, false_iff, not_and, Option.isSome_map]
    intro hsome
    obtain ⟨val, hval⟩ := Option.isSome_iff_exists.mp hsome
    exact hstatuses val hval
  | config => exact absurd htype hne
  | heartbeat => simp
  | response => simp

theorem learn_client {client : Msgs} (hc : client.netMode = .client) (hs : client.sent = [])
    (daemon : Msgs) (r : Request) :
    (learn daemon client r).netMode = .client ∧ (learn daemon client r).sent = [] := by
  unfold learn
  split
  · exact ⟨(stored_netMode client _).trans hc, (stored_sent client _).trans hs⟩
  · exact ⟨hc, hs⟩

section
variable {libxml : Libxml}
variable (hlib : ∀ s, libxml (bytes "<powerguru" ++ s) = document (bytes "<powerguru" ++ s))
include hlib

theorem hears_requests {daemon : Msgs} (hd : daemon.netMode = .daemon) (hs : daemon.sent = [])
    (requests : List Request) :
    Hears (hear libxml) daemon (requests.map Request.text) daemon
      (requests.flatMap (Request.answers daemon)) := by
  induction requests with
  | nil => exact .nil daemon
  | cons r requests ih => exact .cons (hear_request hlib hd hs r) ih

theorem hears_answers {daemon : Msgs} {requests : List Request}
    (hclean : ∀ r ∈ requests, r.Clean daemon) (hknown : ∀ r ∈ requests, r.Known)
    (hloop : ∀ r ∈ requests, ¬ r.Looping) {client : Msgs} (hc : client.netMode = .client)
    (hs : client.sent = []) :
    Hears (hear libxml) client (requests.flatMap (Request.answers daemon))
      (requests.foldl (learn daemon) client) [] := by
  induction requests generalizing client with
  | nil => exact .nil client
  | cons r requests ih =>
    obtain ⟨hr, hrest⟩ := List.forall_mem_cons.mp hclean
    obtain ⟨hl, hloops⟩ := List.forall_mem_cons.mp hloop
    obtain ⟨hk, hknowns⟩ := List.forall_mem_cons.mp hknown
    have hne : r.type ≠ .config := fun he => hl (Or.inl he)
    obtain ⟨hc', hs'⟩ := learn_client hc hs daemon r
    have hfirst : Hears (hear libxml) client (r.answers daemon) (learn daemon client r) [] := by
      rw [objects_iff daemon hne hk] at hl
      rw [Request.answers, if_neg hne, learn]
      cases hreply : r.reply daemon with
      | none => exact .nil client
      | some p =>
        obtain ⟨type, val⟩ := p
        obtain ⟨hv, htype⟩ := plain_reply hr hreply
        have hname : r.name ∉ configNames := fun h => hl ⟨by rw [hreply]; rfl, h⟩
        obtain ⟨hclass, hregistered⟩ := (known_iff hreply).mp hk
        have hanswer := hear_answer hlib hc hs htype hclass r.valid hregistered hv
          (if r.type = .command then bytes "\r\n" else [])
        rw [← Request.name, objection, if_neg hname] at hanswer
        exact .cons hanswer (.nil _)
    rw [List.flatMap_cons, List.foldl_cons]
    exact hfirst.append (ih hrest hknowns hloops hc' hs')

end

/-- The requests in front of the first whose answer the client does not know. -/
def heard (requests : List Request) : List Request := requests.takeWhile fun r => decide r.Known

def unheard (requests : List Request) : List Request := requests.dropWhile fun r => decide r.Known

theorem heard_append (requests : List Request) : heard requests ++ unheard requests = requests :=
  List.takeWhile_append_dropWhile

theorem mem_heard {requests : List Request} {r : Request} (h : r ∈ heard requests) :
    r ∈ requests ∧ r.Known := by
  have hknown := List.mem_takeWhile_imp (p := fun r : Request => decide r.Known) h
  refine ⟨?_, of_decide_eq_true hknown⟩
  rw [← heard_append requests]
  exact List.mem_append_left _ h

/-- The daemon's answers: those that the client hears, and those that it does not. -/
theorem hears_split {libxml : Libxml}
    (hlib : ∀ s, libxml (bytes "<powerguru" ++ s) = document (bytes "<powerguru" ++ s))
    {daemon : Msgs} (hd : daemon.netMode = .daemon) (hs : daemon.sent = [])
    (requests : List Request) :
    Hears (hear libxml) daemon (requests.map Request.text) daemon
      ((heard requests).flatMap (Request.answers daemon) ++
        (unheard requests).flatMap (Request.answers daemon)) := by
  rw [← List.flatMap_append, heard_append]
  exact hears_requests hlib hd hs requests

/-- The client does not survive the next answer. -/
theorem unheard_ends {libxml : Libxml}
    (hlib : ∀ s, libxml (bytes "<powerguru" ++ s) = document (bytes "<powerguru" ++ s))
    {daemon : Msgs} {requests : List Request} (hclean : ∀ r ∈ requests, r.Clean daemon)
    (client : Msgs) :
    ∀ msg ∈ ((unheard requests).flatMap (Request.answers daemon)).head?,
      hear libxml client msg = none := by
  cases hrest : unheard requests with
  | nil => exact fun msg hmsg => absurd hmsg (by simp)
  | cons r rs =>
    have hr : r ∈ requests := by
      rw [← heard_append requests, hrest]
      exact List.mem_append_right _ List.mem_cons_self
    have hunknown : ¬ r.Known := by
      have hhead := List.head?_dropWhile_not (fun r : Request => decide r.Known) requests
      rw [← unheard, hrest] at hhead
      simpa using hhead
    obtain ⟨hne, ⟨type, val⟩, hreply⟩ := reply_of_not_known daemon hunknown
    obtain ⟨hv, -⟩ := plain_reply (hclean r hr) hreply
    have hno := hear_unknown hlib client r.valid (mt (known_iff hreply).mpr hunknown) hv
      (if r.type = .command then bytes "\r\n" else [])
    intro msg hmsg
    rw [List.flatMap_cons, Request.answers, if_neg hne, hreply] at hmsg
    exact Option.some.inj hmsg ▸ hno

/-- What a client is sent. The flag says whether it objects. -/
inductive ForClient : Bool → List Byte → Prop
  | answer {type : XmlMsg} {tag val : List Byte} (htype : type ≠ .config)
      (hclass : type.element ∈ tags) (h : validName tag = true)
      (hname : localName [bytes "xml"] tag ∈ tags) (hv : Plain val) (tail : List Byte) :
      ForClient (decide (localName [bytes "xml"] tag ∈ configNames))
        (responseCreate type tag val ++ tail)
  | warning {name : List Byte} (h : name ∈ configNames) : ForClient true (warning name)

/-- What a daemon is sent. -/
inductive ForDaemon (daemon : Msgs) : Bool → List Byte → Prop
  | request {r : Request} (h : r.Clean daemon) (hk : r.Known) :
      ForDaemon daemon (decide r.Looping) r.text
  | warning {name : List Byte} (h : name ∈ configNames) : ForDaemon daemon true (warning name)

theorem configNames_ok {name : List Byte} (h : name ∈ configNames) :
    validName name = true ∧ localName [bytes "xml"] name = name ∧ name ∈ tags := by
  have hall : ∀ name ∈ configNames,
      validName name = true ∧ localName [bytes "xml"] name = name ∧ name ∈ tags := by decide
  exact hall name h

theorem nodes_warning (name : List Byte) :
    nodes (warningNode name) =
      [warningNode name,
        ⟨bytes "warningmode", unimplemented, [⟨name, unimplemented, [], []⟩], []⟩,
        ⟨name, unimplemented, [], []⟩] := by
  simp only [warningNode, nodes, nodesAll, List.append_nil]

theorem statusAnswer_unimplemented : statusAnswer unimplemented = [] := by decide

/-- What a daemon says to a request is for its client. -/
theorem request_speaks {daemon : Msgs} {r : Request} (hclean : r.Clean daemon) (hk : r.Known) :
    (∀ o ∈ r.answers daemon, ∃ b, ForClient b o) ∧
      (decide r.Looping = true → ∃ o ∈ r.answers daemon, ForClient true o) := by
  have hconfig : bytes "config" ∈ configNames := by decide
  unfold Request.answers
  by_cases htype : r.type = .config
  · rw [if_pos htype]
    refine ⟨?_, fun _ => ⟨_, List.mem_singleton_self _, .warning hconfig⟩⟩
    exact fun o ho => ⟨true, List.mem_singleton.mp ho ▸ .warning hconfig⟩
  rw [if_neg htype]
  have hobjects := objects_iff daemon htype hk
  cases hreply : r.reply daemon with
  | none =>
    refine ⟨fun o ho => absurd ho List.not_mem_nil, fun hb => ?_⟩
    have hl := (hobjects.mp (of_decide_eq_true hb)).1
    rw [hreply] at hl
    exact absurd hl (by simp)
  | some p =>
    obtain ⟨type, val⟩ := p
    obtain ⟨hv, hne⟩ := plain_reply hclean hreply
    obtain ⟨hclass, hname⟩ := (known_iff hreply).mp hk
    have hanswer := ForClient.answer hne hclass r.valid hname hv
      (if r.type = .command then bytes "\r\n" else [])
    refine ⟨?_, fun hb => ⟨_, List.mem_singleton_self _, ?_⟩⟩
    · intro o ho
      rw [List.mem_singleton.mp ho]
      exact ⟨_, hanswer⟩
    · have hl := (hobjects.mp (of_decide_eq_true hb)).2
      rw [Request.name] at hl
      rw [decide_eq_true hl] at hanswer
      exact hanswer

section
variable {libxml : Libxml}
variable (hlib : ∀ s, libxml (bytes "<powerguru" ++ s) = document (bytes "<powerguru" ++ s))
include hlib

/-- Whoever is warned of a configuration sends a warning of it. -/
theorem hear_warning {m : Msgs} (hs : m.sent = []) {name : List Byte} (h : name ∈ configNames) :
    ∃ m', hear libxml m (warning name) = some (m', [warning name]) ∧ m'.netMode = m.netMode ∧
      m'.sent = [] ∧ (m.netMode ≠ .client → m' = m) := by
  obtain ⟨hvalid, hlocal, hmem⟩ := configNames_ok h
  obtain ⟨value, hreads⟩ := reads_warning hlib hvalid hlocal
  have hclass : bytes "status" ∈ tags ∧ bytes "warningmode" ∈ tags := by decide
  have hnodes : ∀ n ∈ nodes (warningNode name), n.name ∈ tags := by
    rw [nodes_warning, List.forall_mem_cons, List.forall_mem_cons, List.forall_mem_singleton]
    exact ⟨hclass.1, hclass.2, hmem⟩
  have hwords : ∀ k ∈ [bytes "status", bytes "warningmode"],
      k ∈ statusNames ∧ k ∉ configNames ∧ k ≠ bytes "meters" := by decide
  have hquiet : ∀ xml : XMLNode, xml.name ∈ [bytes "status", bytes "warningmode"] →
      xml.value = unimplemented → (writes m xml).filter (· ≠ []) = [] := by
    intro xml hname hvalue
    obtain ⟨hstatus, hconfig, hmeters⟩ := hwords _ hname
    rw [writes, if_neg hconfig, if_neg hmeters, if_pos hstatus, hvalue, statusAnswer_unimplemented]
    split <;> rfl
  have hwarn : writes m ⟨name, unimplemented, [], []⟩ = [warning name] := if_pos h
  have hwarned : ((nodes (warningNode name)).flatMap (writes m)).filter (· ≠ []) =
      [warning name] := by
    rw [nodes_warning, List.flatMap_cons, List.flatMap_cons, List.flatMap_singleton, hwarn,
      List.filter_append, List.filter_append, hquiet (warningNode name) (by simp [warningNode]) rfl,
      hquiet _ (by simp) rfl, filter_one (warning_ne_nil name)]
    rfl
  have hhear := hear_message hreads hnodes hs
  rw [hwarned] at hhear
  refine ⟨_, hhear, foldl_stored_netMode m _, rfl, ?_⟩
  intro hm
  rw [foldl_stored_of_not_client hm, unsent hs]

theorem client_speaks (daemon : Msgs) :
    Speaks (hear libxml) (fun c => c.netMode = .client ∧ c.sent = []) ForClient
      (ForDaemon daemon) := by
  rintro c b msg ⟨hc, hs⟩ hmsg
  cases hmsg with
  | @answer type tag val htype hclass h hname hv tail =>
    refine ⟨_, _, hear_answer hlib hc hs htype hclass h hname hv tail, ?_, ?_, ?_⟩
    · exact ⟨(stored_netMode c _).trans hc, (stored_sent c _).trans hs⟩
    · intro o ho
      unfold objection at ho
      split at ho
      · next hname =>
        rw [List.mem_singleton.mp ho]
        exact ⟨true, .warning hname⟩
      · exact absurd ho List.not_mem_nil
    · intro hb
      have hname := of_decide_eq_true hb
      rw [objection, if_pos hname]
      exact ⟨_, List.mem_singleton_self _, .warning hname⟩
  | @warning name h =>
    obtain ⟨m', hhear, hmode, hsent, -⟩ := hear_warning hlib hs h
    refine ⟨m', _, hhear, ⟨hmode.trans hc, hsent⟩, ?_, ?_⟩
    · exact fun o ho => ⟨true, List.mem_singleton.mp ho ▸ .warning h⟩
    · exact fun _ => ⟨_, List.mem_singleton_self _, .warning h⟩

theorem daemon_speaks {daemon : Msgs} (hd : daemon.netMode = .daemon) (hs : daemon.sent = []) :
    Speaks (hear libxml) (fun m => m = daemon) (ForDaemon daemon) ForClient := by
  rintro m b msg rfl hmsg
  have hclient : m.netMode ≠ .client := by
    rw [hd]
    decide
  cases hmsg with
  | @request r hclean hk =>
    refine ⟨m, _, hear_request hlib hd hs r, rfl, ?_⟩
    exact request_speaks hclean hk
  | @warning name h =>
    obtain ⟨m', hhear, -, -, hsame⟩ := hear_warning hlib hs h
    refine ⟨m', _, hhear, hsame hclient, ?_, ?_⟩
    · exact fun o ho => ⟨true, List.mem_singleton.mp ho ▸ .warning h⟩
    · exact fun _ => ⟨_, List.mem_singleton_self _, .warning h⟩

/-- Requests with answers that the client knows, and one that loops: they warn each other for
ever. -/
theorem restless_of_known {client daemon : Msgs} (hc : client.netMode = .client)
    (hcs : client.sent = []) (hd : daemon.netMode = .daemon) (hds : daemon.sent = [])
    {requests : List Request} (hclean : ∀ r ∈ requests, r.Clean daemon)
    (hknown : ∀ r ∈ requests, r.Known) (hloop : ∃ r ∈ requests, r.Looping) :
    (∀ n, ∃ net, Runs (Exchanges libxml) n ⟨client, daemon, [], requests.map Request.text⟩ net) ∧
      ∀ n net, Runs (Exchanges libxml) n ⟨client, daemon, [], requests.map Request.text⟩ net →
        ¬ net.Quiet := by
  obtain ⟨r, hr, hloop⟩ := hloop
  apply restless_of_live (client_speaks hlib daemon) (daemon_speaks hlib hd hds)
  · refine ⟨⟨hc, hcs⟩, rfl, fun msg hmsg => absurd hmsg List.not_mem_nil, ?_⟩
    intro msg hmsg
    obtain ⟨r', hr', rfl⟩ := List.mem_map.mp hmsg
    exact ⟨_, .request (hclean r' hr') (hknown r' hr')⟩
  · refine Or.inr ⟨r.text, List.mem_map_of_mem hr, ?_⟩
    have hrequest := ForDaemon.request (hclean r hr) (hknown r hr)
    rw [decide_eq_true hloop] at hrequest
    exact hrequest

/-- With an answer that the client does not know the warnings end, and the rest stays on its
way. -/
theorem ends_of_unknown {client daemon : Msgs} (hc : client.netMode = .client)
    (hcs : client.sent = []) (hd : daemon.netMode = .daemon) (hds : daemon.sent = [])
    {requests : List Request} (hclean : ∀ r ∈ requests, r.Clean daemon)
    (hunknown : ∃ r ∈ requests, ¬ r.Known) :
    ∃ N, ∀ n net, Runs (Exchanges libxml) n
      ⟨client, daemon, [], requests.map Request.text⟩ net → n ≤ N ∧ ¬ net.Quiet := by
  have hrest : ∃ msg rest, (unheard requests).flatMap (Request.answers daemon) = msg :: rest := by
    refine List.exists_cons_of_ne_nil ?_
    obtain ⟨r, hr, hno⟩ := hunknown
    have hmem : r ∈ unheard requests := by
      rw [← heard_append requests, List.mem_append] at hr
      exact hr.resolve_left fun hh => hno (mem_heard hh).2
    obtain ⟨hne, ⟨type, val⟩, hreply⟩ := reply_of_not_known daemon hno
    have hanswer : responseCreate type r.tag val ++
        (if r.type = .command then bytes "\r\n" else []) ∈
          (unheard requests).flatMap (Request.answers daemon) := by
      refine List.mem_flatMap.mpr ⟨r, hmem, ?_⟩
      rw [Request.answers, if_neg hne, hreply]
      exact List.mem_singleton_self _
    exact List.ne_nil_of_mem hanswer
  obtain ⟨msg, rest, hrest⟩ := hrest
  have hasked := hears_split hlib hd hds requests
  rw [hrest] at hasked
  have hanswers : ∀ msg ∈ (heard requests).flatMap (Request.answers daemon),
      ∃ b, ForClient b msg := by
    intro msg hmsg
    obtain ⟨r, hr, hmsg⟩ := List.mem_flatMap.mp hmsg
    exact (request_speaks (hclean r (mem_heard hr).1) (mem_heard hr).2).1 msg hmsg
  obtain ⟨client', objections, hheard, -, hobject⟩ :=
    (client_speaks hlib daemon).hears ⟨hc, hcs⟩ hanswers
  obtain ⟨daemon', replies, hreplies, -, -⟩ := (daemon_speaks hlib hd hds).hears rfl hobject
  have hno := unheard_ends hlib hclean client'
  rw [hrest] at hno
  refine ⟨(requests.map Request.text).length +
    ((heard requests).flatMap (Request.answers daemon)).length + objections.length, ?_⟩
  intro n net h
  exact ends_of_unheard hasked hheard hreplies (hno msg rfl) h

end

/-- Client and daemon come to an end after requests if and only if none of these loops or the
client does not survive one of the answers; otherwise they go on for ever. In either case but that
in which none loops and all are survived there is always something on its way. -/
theorem exchange_rests_iff (libxml : Libxml)
    (hlib : ∀ s, libxml (bytes "<powerguru" ++ s) = document (bytes "<powerguru" ++ s))
    {client daemon : Msgs} (hc : client.netMode = .client) (hcs : client.sent = [])
    (hd : daemon.netMode = .daemon) (hds : daemon.sent = []) {requests : List Request}
    (hclean : ∀ r ∈ requests, r.Clean daemon) :
    ((∃ N, ∀ n net, Runs (Exchanges libxml) n
        ⟨client, daemon, [], requests.map Request.text⟩ net → n ≤ N) ↔
      (∀ r ∈ requests, ¬ r.Looping) ∨ ∃ r ∈ requests, ¬ r.Known) ∧
    ((∃ r ∈ requests, r.Looping ∨ ¬ r.Known) → ∀ n net, Runs (Exchanges libxml) n
      ⟨client, daemon, [], requests.map Request.text⟩ net → ¬ net.Quiet) := by
  by_cases hunknown : ∃ r ∈ requests, ¬ r.Known
  · obtain ⟨N, hends⟩ := ends_of_unknown hlib hc hcs hd hds hclean hunknown
    refine ⟨iff_of_true ⟨N, fun n net h => (hends n net h).1⟩ (Or.inr hunknown), ?_⟩
    exact fun _ n net h => (hends n net h).2
  have hknown : ∀ r ∈ requests, r.Known := by
    intro r hr
    by_contra hno
    exact hunknown ⟨r, hr, hno⟩
  have hrestless := restless_of_known hlib hc hcs hd hds hclean hknown
  rw [or_iff_left hunknown]
  refine ⟨⟨?_, ?_⟩, ?_⟩
  · rintro ⟨N, hN⟩ r hr hloop
    obtain ⟨net, hrun⟩ := (hrestless ⟨r, hr, hloop⟩).1 (N + 1)
    exact absurd (hN _ net hrun) (by omega)
  · intro hloop
    refine ⟨requests.length + (requests.flatMap (Request.answers daemon)).length, ?_⟩
    intro n net h
    have hasked := hears_requests hlib hd hds requests
    rw [← List.append_nil (requests.flatMap _)] at hasked
    have hall := completes_of_answered hasked (hears_answers hlib hclean hknown hloop hc hcs)
      (fun msg hmsg => absurd hmsg (by simp)) h
    rw [List.length_map] at hall
    exact hall.1
  · rintro ⟨r, hr, hloop⟩
    exact (hrestless ⟨r, hr, hloop.resolve_right (not_not.mpr (hknown r hr))⟩).2

/-- The client asks for the configuration of the grid. -/
def gridRequest : Request := ⟨.config, bytes "grid", by decide, by decide⟩

theorem gridRequest_restless :
    ¬ ∃ n net, Runs (Exchanges document) n ⟨fresh .client, init (fresh .daemon), [],
      [gridRequest].map Request.text⟩ net ∧ net.Quiet := by
  rintro ⟨n, net, hrun, hquiet⟩
  have hclean : ∀ r ∈ [gridRequest], r.Clean (init (fresh .daemon)) := by
    intro r hr htype
    rw [List.mem_singleton.mp hr] at htype
    exact absurd htype (by decide)
  exact (exchange_rests_iff document (fun _ => rfl) rfl rfl rfl rfl hclean).2
    ⟨gridRequest, by simp, Or.inl (by decide)⟩ n net hrun hquiet

/-! ## Any texts at all -/

/-- The names under which a client stores something. -/
def keptNames : List (List Byte) :=
  (statusNames ++ commandNames).filter fun name => name != bytes "status" && name != bytes "command"

/-- The same program, but for what it keeps under these names and what it sent. -/
structure SameBut (names : List (List Byte)) (m m' : Msgs) : Prop where
  netMode : m'.netMode = m.netMode
  thisip : m'.thisip = m.thisip
  thishost : m'.thishost = m.thishost
  remoteip : m'.remoteip = m.remoteip
  remotehost : m'.remotehost = m.remotehost
  cache : ∀ name, name ∉ names → m'.cache.lookup name = m.cache.lookup name

theorem SameBut.refl (names : List (List Byte)) (m : Msgs) : SameBut names m m :=
  ⟨rfl, rfl, rfl, rfl, rfl, fun _ _ => rfl⟩

theorem SameBut.trans {names : List (List Byte)} {m m' m'' : Msgs} (h : SameBut names m m')
    (h' : SameBut names m' m'') : SameBut names m m'' where
  netMode := h'.netMode.trans h.netMode
  thisip := h'.thisip.trans h.thisip
  thishost := h'.thishost.trans h.thishost
  remoteip := h'.remoteip.trans h.remoteip
  remotehost := h'.remotehost.trans h.remotehost
  cache := fun name hn => (h'.cache name hn).trans (h.cache name hn)

/-- What holds of the two whatever is sent. -/
structure Safe (client daemon : Msgs) (toDaemon : List (List Byte))
    (net : Net Msgs Msgs (List Byte)) : Prop where
  client : SameBut keptNames client net.left
  daemon : SameBut [] daemon net.right
  toDaemon : ∀ text ∈ net.toRight, text ∈ toDaemon ∨ ∃ name ∈ configNames, text = warning name

end PowerGuru.Net.Exchange
