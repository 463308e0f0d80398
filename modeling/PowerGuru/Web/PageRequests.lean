import PowerGuru.Web.Control

/-!
# What the daemon answers to `control.php`

The page writes an older version and a blank in front of its one element. The daemon reads
neither, so a request of the page is answered like that of a client.
-/
namespace PowerGuru.Web.PageRequests

open Lib.Bytes Common Net Xml XmlText Messages Encodings NodeEffects Exchange
open RoundTrip XmlBarrier MeterQuery Control

/-- What the daemon sends back on what the page sends. -/
def answers (libxml : Libxml) (daemon : Msgs) (text : List Byte) : List (List Byte) :=
  if text = [] then []
  else
    match hear libxml daemon text with
    | some (_, outs) => outs
    | none => []

/-- The answers to what stands in the variables of the page. -/
def reply (daemon : Msgs) (v : Choice) : List (List Byte) :=
  if v .toptag = bytes "status" then [responseCreate .status (v .status) (bytes "none")]
  else if v .toptag = bytes "meters" then
    [responseCreate .meter (v .meters) (cacheGet daemon (v .meters))]
  else if v .toptag = bytes "config" ∧ subtagOf v ≠ [] then
    [warning (bytes "config"), warning (v .config), warning (subtagOf v)]
  else []

/-- There is something to send that the daemon answers. -/
def Answerable (v : Choice) : Prop :=
  v .toptag = bytes "status" ∨ v .toptag = bytes "meters" ∨
    v .toptag = bytes "config" ∧ subtagOf v ≠ []

instance (v : Choice) : Decidable (Answerable v) := inferInstanceAs (Decidable (_ ∨ _ ∨ _ ∧ _))

theorem reply_ne_nil_iff (daemon : Msgs) (v : Choice) : reply daemon v ≠ [] ↔ Answerable v := by
  unfold reply Answerable
  split_ifs with hstatus hmeters hconfig
  · simp [hstatus]
  · simp [hmeters]
  · simp [hconfig]
  · simp only [ne_eq, not_true_eq_false, hstatus, hmeters, false_or, false_iff]
    exact hconfig

/-! ## Texts of the page -/

/-- The version that the page writes. -/
def pageVersion : List Byte := bytes "0.3"

def pageText (top : TagName) (inner : List Byte) : List Byte :=
  powerguruTag.with versionName pageVersion
    (32 :: (top.start ++ (inner ++ (top.stop ++ powerguruTag.stop))))

theorem requestCreate_eq (top : TagName) (tag : List Byte) :
    requestCreate top.name tag = pageText top tag := by
  simp [requestCreate, Control.head, pageText, TagName.with, PropertyName.text, TagName.start,
    TagName.stop, powerguruTag, versionName, pageVersion, bytes]

theorem configRequestCreate_eq (top tag sub : TagName) :
    configRequestCreate top.name tag.name sub.name =
      pageText top (tag.start ++ (sub.start ++ (sub.stop ++ tag.stop))) := by
  simp [configRequestCreate, Control.head, pageText, TagName.with, PropertyName.text,
    TagName.start, TagName.stop, powerguruTag, versionName, pageVersion, bytes]

theorem document_page {top : TagName} {inner : List Byte} {children : List Node}
    (hl : legal (pageText top inner) = true)
    (hc : ∀ n, content (n+4) [bytes "xml"] (inner ++ (top.stop ++ powerguruTag.stop)) =
      some (children, top.stop ++ powerguruTag.stop)) :
    document (pageText top inner) =
      some (.element powerguruTag.name (property versionName pageVersion)
        [.text [32], .element top.name [] children]) := by
  have hfuel : ∃ k, (pageText top inner).length = k + 6 := by
    refine ⟨(pageText top inner).length - 6, (Nat.sub_add_cancel ?_).symm⟩
    have hstop : 6 ≤ powerguruTag.stop.length := by decide
    simp only [pageText, TagName.with, PropertyName.text, List.length_cons, List.length_append]
    omega
  obtain ⟨k, hk⟩ := hfuel
  have hend := content_stop powerguruTag (k+3) [bytes "xml"] []
  rw [List.append_nil] at hend
  have hblank := content_verbatim (x := [32]) (by decide) (by simp) (k+5) [bytes "xml"]
    (top.name ++ 62 :: (inner ++ (top.stop ++ powerguruTag.stop)))
  have hstart : top.start ++ (inner ++ (top.stop ++ powerguruTag.stop)) =
      60 :: (top.name ++ 62 :: (inner ++ (top.stop ++ powerguruTag.stop))) := by
    simp [TagName.start]
  rw [← hstart, content_tag, hc k, enclosed, closeTag_stop] at hblank
  simp only [Option.map_some, Option.bind_some, hend] at hblank
  apply document_attribute powerguruTag versionName (by decide) hl
  rw [← pageText, hk]
  exact hblank

theorem page_frame (type : XmlMsg) (inner : List Byte) :
    pageText (classTag type) inner =
      powerguruTag.with versionName pageVersion (32 :: (classTag type).start) ++
        (inner ++ closing type) := by
  simp [pageText, TagName.with, PropertyName.text, closing]

theorem legal_page (type : XmlMsg) (inner : List Byte) :
    legal (pageText (classTag type) inner) = legal inner := by
  have hfront : (powerguruTag.with versionName pageVersion
      (32 :: (classTag type).start)).all isAscii = true := by
    cases type <;> decide
  have hclosing := (legal_frame type []).2
  rw [page_frame, legal_ascii_append hfront]
  rw [closing_cons] at hclosing ⊢
  rw [legal_append (by decide), hclosing, Bool.and_true]

theorem lf_not_mem_page (type : XmlMsg) {inner : List Byte} (h : LF ∉ inner) :
    LF ∉ pageText (classTag type) inner := by
  have hframe : LF ∉ powerguruTag.with versionName pageVersion (32 :: (classTag type).start) ∧
      LF ∉ closing type := by
    cases type <;> decide
  rw [page_frame]
  simp only [List.mem_append, not_or]
  exact ⟨hframe.1, h, hframe.2⟩

/-- One element in another, with nothing in it. -/
def nested (tag sub : TagName) : List Byte :=
  tag.start ++ (sub.start ++ (sub.stop ++ tag.stop))

theorem legal_tags {tag : TagName} {s : List Byte} (h : legal s = true) :
    legal (tag.start ++ s) = true ∧ legal (tag.stop ++ s) = true := by
  have hname := legal_of_validName tag.valid
  have hstart : tag.start ++ s = 60 :: (tag.name ++ 62 :: s) := by simp [TagName.start]
  have hstop : tag.stop ++ s = 60 :: 47 :: (tag.name ++ 62 :: s) := by simp [TagName.stop, bytes]
  have hrest : legal (tag.name ++ 62 :: s) = true := by
    rw [legal_append (by decide), legal_cons (by decide), hname, h]
    rfl
  rw [hstart, hstop, legal_cons (by decide), legal_cons (by decide), legal_cons (by decide)]
  exact ⟨hrest, hrest⟩

theorem legal_nested (tag sub : TagName) : legal (nested tag sub) = true := by
  have hend : legal tag.stop = true := by
    rw [← List.append_nil tag.stop]
    exact (legal_tags (by decide)).2
  exact (legal_tags (legal_tags (legal_tags hend).2).1).1

theorem lf_not_mem_nested (tag sub : TagName) : LF ∉ nested tag sub := by
  have htags : ∀ t : TagName, LF ∉ t.start ∧ LF ∉ t.stop := by
    intro t
    have hname : LF ∉ t.name := not_mem_name t.valid (by decide)
    simp only [LF] at hname
    simp [TagName.start, TagName.stop, bytes, LF, hname]
  simp [nested, htags]

theorem content_nested (tag sub : TagName) (n : Nat) (scope : Scope) (z : TagName) (y : List Byte) :
    content (n+4) scope (nested tag sub ++ (z.stop ++ y)) =
      some ([.element tag.name [] [.element sub.name [] []]], z.stop ++ y) := by
  have hsub := content_stop sub (n+1) scope (tag.stop ++ (z.stop ++ y))
  have htag := content_stop tag (n+1) scope (z.stop ++ y)
  have htext : nested tag sub ++ (z.stop ++ y) =
      tag.start ++ (sub.start ++ (sub.stop ++ (tag.stop ++ (z.stop ++ y)))) := by
    simp [nested]
  rw [htext, content_tag, content_tag, hsub, enclosed, closeTag_stop]
  simp only [Option.map_some, Option.bind_some, htag, enclosed, closeTag_stop, content_stop]

/-- Without a name for the inner element there is none. -/
theorem document_unnamed {behind : List Byte} (h : EndsNothing behind) (front : List Byte) :
    document (front ++ (bytes "<></>" ++ behind)) = none := by
  have hwall : Barrier (bytes "<></>" ++ behind) := by
    refine ⟨rfl, rfl, h.append (by decide), ?_⟩
    intro inside scope
    rfl
  exact hwall.document_eq_none front

/-! ## What the daemon makes of them -/

section
variable {libxml : Libxml}
variable (hlib : ∀ s, libxml (bytes "<powerguru" ++ s) = document (bytes "<powerguru" ++ s))
include hlib

/-- The daemon sends what the element alone makes it send. -/
theorem answers_page {top : TagName} {inner value : List Byte} {children : List Node}
    {xs : List XMLNode} {daemon : Msgs} (hs : daemon.sent = [])
    (hl : legal (pageText top inner) = true) (hlf : LF ∉ pageText top inner)
    (hc : ∀ n, content (n+4) [bytes "xml"] (inner ++ (top.stop ++ powerguruTag.stop)) =
      some (children, top.stop ++ powerguruTag.stop))
    (hx : extractNode (.element top.name [] children) = .ok ⟨top.name, value, xs, []⟩)
    (hregistered : ∀ node ∈ nodes ⟨top.name, value, xs, []⟩, node.name ∈ tags) :
    answers libxml daemon (pageText top inner) =
      ((nodes ⟨top.name, value, xs, []⟩).flatMap (writes daemon)).filter (· ≠ []) := by
  have htext : delivered (pageText top inner) = pageText top inner := by
    have hnul := nul_not_mem_of_legal hl
    rw [delivered, cstr_of_not_mem hnul, cutAtLast_of_not_mem hlf]
  have htree : libxml (pageText top inner) = _ := (hlib _).trans (document_page hl hc)
  have hchildren : extractChildren [.text [32], .element top.name [] children] =
      .ok [⟨top.name, value, xs, []⟩] := by
    rw [extractChildren_cons, if_neg (by decide)]
    exact extractChildren_element hx extractChildren_nil
  have hroot : extractNode (.element powerguruTag.name (property versionName pageVersion)
      [.text [32], .element top.name [] children]) = .ok ⟨bytes "powerguru", _,
        [⟨top.name, value, xs, []⟩], [(bytes "version", pageVersion)]⟩ :=
    extractNode_element.mpr ⟨_, rfl, _, hchildren, rfl⟩
  have hne : pageText top inner ≠ [] := by simp [pageText, TagName.with]
  have hidle := powerguru_idle daemon
  have hnodes : ∀ value' attributes, nodes ⟨bytes "powerguru", value', [⟨top.name, value, xs, []⟩],
      attributes⟩ = ⟨bytes "powerguru", value', [⟨top.name, value, xs, []⟩], attributes⟩ ::
        nodes ⟨top.name, value, xs, []⟩ := by
    intro value' attributes
    rw [nodes, nodesAll, nodesAll, List.append_nil]
  have hall : ∀ value' attributes, ∀ node ∈ nodes ⟨bytes "powerguru", value',
      [⟨top.name, value, xs, []⟩], attributes⟩, node.name ∈ tags := by
    intro value' attributes
    rw [hnodes, List.forall_mem_cons]
    exact ⟨powerguru_mem, hregistered⟩
  rw [answers, if_neg hne, (reads_of_tree htext hne htree hroot).hear (hall _ _) hs]
  dsimp only
  rw [hnodes, List.flatMap_cons, (hidle _ _ _).2, List.nil_append]

/-- A status or a meter is answered as if a client had asked. -/
theorem answers_request {daemon : Msgs} (hd : daemon.netMode = .daemon) (hs : daemon.sent = [])
    (r : Request) :
    answers libxml daemon (requestCreate r.type.element r.tag) = r.answers daemon := by
  have hplain := plain_of_validName r.valid
  have htext : requestCreate r.type.element r.tag = pageText (classTag r.type) r.tag :=
    requestCreate_eq (classTag r.type) r.tag
  have hl := (legal_page r.type r.tag).trans hplain.1
  have hlf := lf_not_mem_page r.type hplain.2.2.2.1
  have hc : ∀ n, content (n+4) [bytes "xml"] (r.tag ++ ((classTag r.type).stop ++
      powerguruTag.stop)) = some (leaf r.tag, (classTag r.type).stop ++ powerguruTag.stop) :=
    fun n => content_leaf hplain.2 (classTag r.type) (n+2) _ powerguruTag.stop
  have hregistered : ∀ node ∈ nodes ⟨(classTag r.type).name, r.tag, [], []⟩, node.name ∈ tags := by
    rw [nodes_leaf, List.forall_mem_singleton]
    exact r.asked
  rw [htext, answers_page hlib hs hl hlf hc (extractNode_leaf r.type.element hplain.2) hregistered,
    nodes_leaf, List.flatMap_singleton]
  exact writes_request hd r

/-- A configuration is objected to at each of its three elements. -/
theorem answers_config {daemon : Msgs} (hs : daemon.sent = []) {tag sub : TagName}
    (htag : tag.name ∈ configNames) (hsub : sub.name ∈ configNames) :
    answers libxml daemon (configRequestCreate (bytes "config") tag.name sub.name) =
      [warning (bytes "config"), warning tag.name, warning sub.name] := by
  have htext : configRequestCreate (bytes "config") tag.name sub.name =
      pageText (classTag .config) (nested tag sub) :=
    configRequestCreate_eq (classTag .config) tag sub
  have hl := (legal_page .config (nested tag sub)).trans (legal_nested tag sub)
  have hlf := lf_not_mem_page .config (lf_not_mem_nested tag sub)
  have hinner : extractNode (.element sub.name [] []) = .ok ⟨sub.name, [], [], []⟩ :=
    extractNode_bare extractChildren_nil
  have houter : extractNode (.element tag.name [] [.element sub.name [] []]) =
      .ok ⟨tag.name, _, [⟨sub.name, [], [], []⟩], []⟩ :=
    extractNode_bare (extractChildren_element hinner extractChildren_nil)
  have hx : extractNode (.element (classTag .config).name []
      [.element tag.name [] [.element sub.name [] []]]) = .ok ⟨(classTag .config).name, _, _, []⟩ :=
    extractNode_bare (extractChildren_element houter extractChildren_nil)
  have hconfig : (classTag .config).name ∈ configNames := by decide
  have hregistered : ∀ value value', ∀ node ∈ nodes ⟨(classTag .config).name, value,
      [⟨tag.name, value', [⟨sub.name, [], [], []⟩], []⟩], []⟩, node.name ∈ tags := by
    intro value value'
    simp only [nodes, nodesAll, List.append_nil, List.forall_mem_cons, List.not_mem_nil,
      false_imp_iff, implies_true, and_true]
    exact ⟨(configNames_ok hconfig).2.2, (configNames_ok htag).2.2, (configNames_ok hsub).2.2⟩
  rw [htext, answers_page hlib hs hl hlf (fun n => content_nested tag sub n _ _ _) hx
    (hregistered _ _)]
  simp only [nodes, nodesAll, List.append_nil, List.flatMap_cons, List.flatMap_nil, writes,
    hconfig, htag, hsub, if_true]
  simp only [List.singleton_append, List.filter_cons, warning_ne_nil, ne_eq, not_false_eq_true,
    decide_true, if_true, List.filter_nil]
  rfl

/-- One without a name in it is not XML. -/
theorem answers_unnamed (daemon : Msgs) (hs : daemon.sent = []) {tag : TagName}
    (hdash : 45 ∉ tag.name) :
    answers libxml daemon (configRequestCreate (bytes "config") tag.name []) = [] := by
  have htext : configRequestCreate (bytes "config") tag.name [] =
      (Control.head ++ bytes " <config><" ++ tag.name ++ bytes ">") ++ (bytes "<></>" ++
        (bytes "</" ++ tag.name ++ bytes "></config></powerguru>")) := by
    simp [configRequestCreate, bytes]
  have hno : ∀ b, isNameByte b = false → b ∉ tag.name := fun b hb => not_mem_name tag.valid hb
  have hends : EndsNothing (bytes "</" ++ tag.name ++ bytes "></config></powerguru>") := by
    refine EndsNothing.append (by decide) ⟨?_, ?_, ?_⟩
    · simpa [bytes] using hdash
    · simpa [bytes] using hno 93 (by decide)
    · simpa [bytes] using hno 63 (by decide)
  have hnone : document _ = none := document_unnamed hends
    (Control.head ++ bytes " <config><" ++ tag.name ++ bytes ">")
  have hdelivered : delivered (configRequestCreate (bytes "config") tag.name []) =
      configRequestCreate (bytes "config") tag.name [] := by
    have hnul := hno NUL (by decide)
    have hlf := hno LF (by decide)
    simp only [NUL, LF] at hnul hlf
    rw [delivered, cstr_of_not_mem, cutAtLast_of_not_mem]
    · rw [htext]
      simp [Control.head, bytes, LF, hlf]
    · rw [htext]
      simp [Control.head, bytes, NUL, hnul]
  have htree : libxml (configRequestCreate (bytes "config") tag.name []) = none := by
    rw [← htext] at hnone
    exact (hlib _).trans hnone
  have hne : configRequestCreate (bytes "config") tag.name [] ≠ [] := by
    simp [configRequestCreate, Control.head, bytes]
  have hlen : ¬ (configRequestCreate (bytes "config") tag.name []).length = 0 :=
    fun h => hne (List.length_eq_zero_iff.mp h)
  rw [answers, if_neg hne, hear, unsent hs, receive, hdelivered, parseMem, if_neg hlen, htree]
  simp [bind, Except.bind, pure, Except.pure, Except.mapError, hs]

end

/-! ## A session -/

/-- All that the page can take for a group. -/
def offered (f : Field) : List (List Byte) :=
  f.default :: f.buttons.flatMap fun b => [b.value, b.checked]

theorem values_offered (s : Submission) (c : Clicks) (f : Field) :
    values (submit s c) f ∈ offered f := by
  rw [values_submit]
  split_ifs with hposted
  · exact List.mem_cons_self
  have hbutton : ∀ b ∈ f.buttons, ∀ v, v = b.value ∨ v = b.checked → v ∈ offered f := by
    intro b hb v hv
    refine List.mem_cons_of_mem _ (List.mem_flatMap.mpr ⟨b, hb, ?_⟩)
    simpa using hv
  rw [posted] at hposted ⊢
  cases hclick : (c.field f).bind fun i => f.buttons[i]? with
  | some b =>
    obtain ⟨i, -, hi⟩ := Option.bind_eq_some_iff.mp hclick
    rw [chosen_pressed hclick, Option.getD_some]
    exact hbutton b (List.mem_of_getElem? hi) _ (by split_ifs <;> simp)
  | none =>
    rw [chosen_kept hclick] at hposted ⊢
    cases hfind : f.buttons.reverse.find? fun b => decide (values s f = b.value) with
    | some b =>
      exact hbutton b (List.mem_reverse.mp (List.mem_of_find?_eq_some hfind)) _ (Or.inr rfl)
    | none =>
      rw [hfind] at hposted
      exact absurd (Or.inl rfl) hposted

/-- The page offers nothing else to send. -/
theorem xmlmsg_submit (s : Submission) (c : Clicks) :
    opts (submit s c) (bytes "xmlmsg") [] = [] := by
  have hnames : ∀ f : Field, (bytes "xmlmsg" == f.name) = false := by
    intro f
    cases f <;> decide
  have hnone : (submit s c).post.lookup (bytes "xmlmsg") = none := by
    rw [submit, List.append_assoc, List.lookup_append, Option.or_eq_none_iff]
    constructor
    · rw [List.lookup_eq_none_iff]
      intro p hp
      obtain ⟨f, -, hf⟩ := List.mem_filterMap.mp hp
      obtain ⟨v, -, rfl⟩ := Option.map_eq_some_iff.mp hf
      simp [bne, hnames f]
    · cases chosen (shown commandButtons []) c.command with
      | none => rfl
      | some v => rfl
  have hget : (submit s c).get = [] := rfl
  rw [opts, hnone, hget]
  rfl

/-- A visit from the page's own form, or the first. -/
def Ordinary (s : Submission) : Prop :=
  (∀ f, values s f ∈ offered f) ∧ opts s (bytes "xmlmsg") [] = []

theorem session_ordinary {s : Submission} (hs : Ordinary s) (cs : List Clicks) :
    ∀ t ∈ session s cs, Ordinary t := by
  induction cs generalizing s with
  | nil =>
    intro t ht
    rw [List.mem_singleton.mp ht]
    exact hs
  | cons c cs ih =>
    intro t ht
    rcases List.mem_cons.mp ht with rfl | ht
    · exact hs
    · exact ih ⟨values_offered s c, xmlmsg_submit s c⟩ t ht

theorem ordinary_start : Ordinary start :=
  ⟨fun _ => values_start ▸ List.mem_cons_self, rfl⟩

theorem offered_status {tag : List Byte} (h : tag ∈ offered .status) :
    validName tag = true ∧ statusReply tag = some (bytes "none") := by
  have hall : ∀ tag ∈ offered .status,
      validName tag = true ∧ statusReply tag = some (bytes "none") := by decide
  exact hall tag h

theorem offered_meters {tag : List Byte} (h : tag ∈ offered .meters) : validName tag = true := by
  have hall : ∀ tag ∈ offered .meters, validName tag = true := by decide
  exact hall tag h

/-- The elements of a configuration. -/
theorem offered_config {f : Field} (hf : f = .config ∨ f = .genconfig ∨ f = .gridconfig)
    {tag : List Byte} (h : tag ∈ offered f) (hne : tag ≠ []) :
    ∃ t : TagName, t.name = tag ∧ t.name ∈ configNames ∧ 45 ∉ t.name := by
  have hall : ∀ f ∈ [Field.config, .genconfig, .gridconfig], ∀ tag ∈ offered f, tag ≠ [] →
      (tag.all isNameByte = true ∧ validName tag = true ∧ 58 ∉ tag) ∧ tag ∈ configNames ∧
        45 ∉ tag := by decide
  obtain ⟨⟨hbytes, hvalid, hlocal⟩, hname, hdash⟩ := hall f (by simpa using hf) tag h hne
  exact ⟨⟨tag, hbytes, hvalid, hlocal⟩, rfl, hname, hdash⟩

section
variable {libxml : Libxml}
variable (hlib : ∀ s, libxml (bytes "<powerguru" ++ s) = document (bytes "<powerguru" ++ s))
include hlib

theorem answers_ordinary {daemon : Msgs} (hd : daemon.netMode = .daemon) (hs : daemon.sent = [])
    {s : Submission} (ho : Ordinary s) :
    answers libxml daemon (xmlmsg s) = reply daemon (values s) := by
  obtain ⟨hoffered, hmsg⟩ := ho
  have htops : ∀ top ∈ offered .toptag, top = bytes "status" ∨ top = bytes "meters" ∨
      top = bytes "command" ∨ top = bytes "config" := by decide
  have hnothing : answers libxml daemon [] = [] := if_pos rfl
  rcases htops _ (hoffered .toptag) with htop | htop | htop | htop
  · -- a status
    obtain ⟨hvalid, hreply⟩ := offered_status (hoffered .status)
    have htag : Control.tagOf (values s) = values s .status := by
      rw [Control.tagOf, htop, if_neg (by decide), if_pos rfl]
    have hrequest := answers_request hlib hd hs ⟨.status, values s .status, hvalid, by decide⟩
    rw [xmlmsg, htag, if_neg (ne_nil_of_validName hvalid), htop, if_pos (by decide)]
    refine hrequest.trans ?_
    simp [Request.answers, Request.reply, hreply, reply, htop]
  · -- a meter
    have hvalid := offered_meters (hoffered .meters)
    have htag : Control.tagOf (values s) = values s .meters := by
      rw [Control.tagOf, htop, if_pos rfl]
    have hrequest := answers_request hlib hd hs ⟨.meter, values s .meters, hvalid, by decide⟩
    have hno : bytes "meters" ≠ bytes "status" := by decide
    rw [xmlmsg, htag, if_neg (ne_nil_of_validName hvalid), htop, if_pos (by decide)]
    refine hrequest.trans ?_
    simp [Request.answers, Request.reply, reply, htop, hno]
  · -- a command, for which there is no tag
    have htag : Control.tagOf (values s) = [] := by
      rw [Control.tagOf, htop, if_neg (by decide), if_neg (by decide), if_pos rfl]
    have hno : bytes "command" ∉ [bytes "status", bytes "meters", bytes "config"] := by decide
    simp only [List.mem_cons, List.not_mem_nil, or_false, not_or] at hno
    rw [xmlmsg, htag, if_pos rfl, hmsg, hnothing, reply, htop, if_neg hno.1, if_neg hno.2.1,
      if_neg fun h => hno.2.2 h.1]
  · -- a configuration
    have htag : Control.tagOf (values s) = values s .config := by
      rw [Control.tagOf, htop, if_neg (by decide), if_neg (by decide), if_neg (by decide),
        if_pos rfl]
    have hreply : reply daemon (values s) = if subtagOf (values s) ≠ [] then
        [warning (bytes "config"), warning (values s .config), warning (subtagOf (values s))]
        else [] := by
      rw [reply, htop, if_neg (by decide), if_neg (by decide)]
      simp only [true_and]
    rw [xmlmsg, htag, hreply, htop]
    by_cases hempty : values s .config = []
    · have hsub : subtagOf (values s) = [] := by
        rw [subtagOf, hempty, if_neg (by decide), if_neg (by decide)]
      rw [if_pos hempty, hmsg, hnothing, hsub, if_neg (by simp)]
    obtain ⟨t, ht, hname, hdash⟩ := offered_config (Or.inl rfl) (hoffered .config) hempty
    rw [if_neg hempty, if_neg (by simp), ← ht]
    by_cases hsub : subtagOf (values s) = []
    · rw [hsub, if_neg (by simp), answers_unnamed hlib daemon hs hdash]
    have hsubs : subtagOf (values s) ∈ offered .genconfig := by
      unfold subtagOf at hsub ⊢
      split_ifs at hsub ⊢
      · exact hoffered .gridconfig
      · exact hoffered .genconfig
      · exact absurd rfl hsub
    obtain ⟨u, hu, hname', -⟩ := offered_config (Or.inr (Or.inl rfl)) hsubs hsub
    rw [if_pos hsub, ← hu, answers_config hlib hs hname hname']

/-- On each visit of a session the daemon answers what stands in the variables of the page, and it
answers anything if and only if the visitor last pressed for a status, for a meter, or for a
configuration and one of its times. -/
theorem session_answers {daemon : Msgs} (hd : daemon.netMode = .daemon) (hs : daemon.sent = [])
    (cs : List Clicks) :
    List.Forall₂ (fun s choice =>
        answers libxml daemon (xmlmsg s) = reply daemon (values s) ∧
        (answers libxml daemon (xmlmsg s) ≠ [] ↔ Answerable choice))
      (session start cs) (choices Field.default cs) := by
  have hfirst : ∀ f ≠ .meters, Known f Field.default ∧ values start f = f.default :=
    fun f _ => ⟨Or.inl rfl, congrFun values_start f⟩
  have hpressed := session_pressed hfirst cs
  have hordinary := session_ordinary ordinary_start cs
  refine (List.forall₂_and_left _ _).mpr ⟨hordinary, hpressed⟩ |>.imp ?_
  rintro s choice ⟨ho, hsame⟩
  have hanswers := answers_ordinary hlib hd hs ho
  have hsubtag : subtagOf (values s) = subtagOf choice := by
    rw [subtagOf, subtagOf, hsame .config (by decide), hsame .gridconfig (by decide),
      hsame .genconfig (by decide)]
  refine ⟨hanswers, ?_⟩
  rw [hanswers, reply_ne_nil_iff, Answerable, Answerable, hsame .toptag (by decide), hsubtag]

end

/-- The visitor wants to send a command for the relay. -/
def relayCommand : Clicks := ⟨fun f => if f = .toptag then some 2 else none, some 2⟩

theorem relayCommand_unanswered :
    answers document (init (fresh .daemon)) (xmlmsg (submit start relayCommand)) = [] := by
  have hd : (init (fresh .daemon)).netMode = .daemon := rfl
  have hsession := session_answers (fun _ => rfl) hd rfl [relayCommand]
  obtain ⟨-, hrest⟩ := List.forall₂_cons.mp hsession
  obtain ⟨⟨-, hiff⟩, -⟩ := List.forall₂_cons.mp hrest
  have hno : ¬ Answerable (press Field.default relayCommand) := by decide
  exact not_not.mp fun hne => hno (hiff.mp hne)

end PowerGuru.Web.PageRequests
