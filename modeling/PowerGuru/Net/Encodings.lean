import PowerGuru.Net.Messages
import PowerGuru.Net.XmlAttribute
import PowerGuru.Net.XmlRoundTrip

/-!
# What the encoders of `Msgs` say

A message has a class, a tag and, unless it asks for something, a value. Parsing shows
them as they were given, but for the requests of a command, which are sent as a status,
and for `configCreate`, which names neither the version nor the class.
-/
namespace PowerGuru.Net.Encodings

open Lib.Bytes Common Xml XmlText Commands Messages RoundTrip

/-! ## Messages -/

/-- The calls of the encoders. -/
inductive Message where
  | requestMeters (tag : XmlMeters)
  | requestStatus (tag : XmlStatus)
  | requestConfig (tag : XmlConfig)
  | requestCommand (tag : XmlCommand)
  | metersRequestOf (val : XmlMeters)
  | metersRequest (str : List Byte)
  | metersResponse (type val : List Byte)
  | response (type : XmlMsg) (tag val : List Byte)
  | config (tag value : List Byte)

def Message.encode : Message → List Byte
  | .requestMeters tag => requestCreateMeters tag
  | .requestStatus tag => requestCreateStatus tag
  | .requestConfig tag => requestCreateConfig tag
  | .requestCommand tag => requestCreateCommand tag
  | .metersRequestOf val => metersRequestCreateOf val
  | .metersRequest str => metersRequestCreate str
  | .metersResponse type val => metersResponseCreate type val
  | .response type tag val => responseCreate type tag val
  | .config tag value => configCreate tag value

def Message.kind : Message → XmlMsg
  | .requestMeters _ | .metersRequestOf _ | .metersRequest _ | .metersResponse _ _ => .meter
  | .requestStatus _ => .status
  | .requestConfig _ | .config _ _ => .config
  | .requestCommand _ => .command
  | .response type _ _ => type

def Message.tag : Message → List Byte
  | .requestMeters tag | .metersRequestOf tag => tag.word
  | .requestStatus tag => tag.word
  | .requestConfig tag => tag.word
  | .requestCommand tag => tag.word
  | .metersRequest tag | .metersResponse tag _ | .response _ tag _ | .config tag _ => tag

def Message.value : Message → Option (List Byte)
  | .metersResponse _ val | .response _ _ val | .config _ val => some val
  | _ => none

/-- The tag is a name of XML, the value has neither markup nor line ends. -/
def Message.Proper (m : Message) : Prop :=
  validName m.tag = true ∧ ∀ v ∈ m.value, Verbatim v

/-- What the tree of the message has to show. -/
def Message.Shown (m : Message) (x : XMLNode) : Prop :=
  x.name = bytes "powerguru" ∧ x.attributes = [(bytes "version", version)] ∧
    ∃ c, x.children = [c] ∧ c.name = m.kind.element ∧
      match m.value with
      | none => c.value = m.tag ∧ c.children = []
      | some v => ∃ t, c.children = [t] ∧ t.name = m.tag ∧ t.value = v

/-- `ends` is not part of the document. -/
def Message.text (m : Message) : List Byte := m.encode.dropLast

/-! ## Two texts -/

def powerguruTag : TagName := ⟨bytes "powerguru", by decide, by decide, by decide⟩

def versionName : PropertyName := ⟨⟨bytes "version", by decide, by decide, by decide⟩, by decide⟩

def classTag (type : XmlMsg) : TagName :=
  ⟨type.element, by cases type <;> decide, by cases type <;> decide, by cases type <;> decide⟩

/-- What stands behind the content of the class element. -/
def closing (type : XmlMsg) : List Byte := (classTag type).stop ++ powerguruTag.stop

def wrapped (type : XmlMsg) (inner : List Byte) : List Byte :=
  powerguruTag.with versionName version ((classTag type).start ++ (inner ++ closing type))

theorem wrapped_eq (type : XmlMsg) (inner : List Byte) :
    wrapped type inner = header ++ bytes "<" ++ type.element ++ bytes ">" ++ inner ++ bytes "</" ++
      type.element ++ bytes "></powerguru>" := by
  simp [wrapped, closing, TagName.with, TagName.start, TagName.stop, PropertyName.text,
    powerguruTag, versionName, classTag, header, bytes]

theorem requestBody_eq (type : XmlMsg) (word : List Byte) :
    requestBody type.element word = ends (wrapped type word) := by
  rw [wrapped_eq]
  simp [requestBody, header, bytes]

theorem metersRequestCreate_eq {str : List Byte} (h : NUL ∉ str) :
    metersRequestCreate str = ends (wrapped .meter str) := by
  rw [wrapped_eq]
  simp [metersRequestCreate, XmlMsg.element, cstr_of_not_mem h, bytes]

theorem responseCreate_eq (type : XmlMsg) {tag : List Byte} (h : NUL ∉ tag) (val : List Byte) :
    responseCreate type tag val = ends (wrapped type (tagged tag val)) := by
  rw [wrapped_eq]
  simp [responseCreate, tagged, header, cstr_of_not_mem h, bytes]

theorem metersResponseCreate_eq {tag : List Byte} (h : NUL ∉ tag) (val : List Byte) :
    metersResponseCreate tag val = ends (wrapped .meter (tagged tag val)) := by
  rw [wrapped_eq]
  simp [metersResponseCreate, tagged, XmlMsg.element, cstr_of_not_mem h, bytes]

theorem configCreate_eq (tag value : List Byte) :
    configCreate tag value =
      ends (powerguruTag.start ++ (tagged tag value ++ powerguruTag.stop)) := by
  simp [configCreate, tagged, TagName.start, TagName.stop, powerguruTag, bytes]

theorem dropLast_ends (body : List Byte) : (ends body).dropLast = body := by simp [ends]

theorem meters_word_valid (tag : XmlMeters) : validName tag.word = true := by
  cases tag <;> decide

theorem status_word_valid (tag : XmlStatus) : validName tag.word = true := by
  cases tag <;> decide

theorem config_word_valid (tag : XmlConfig) : validName tag.word = true := by
  cases tag <;> decide

theorem command_word_valid (tag : XmlCommand) : validName tag.word = true := by
  cases tag <;> decide

theorem nul_not_mem_name {name : List Byte} (h : validName name = true) : NUL ∉ name :=
  not_mem_name h (by decide)

/-- Every word of the enumerations makes a proper message. -/
theorem requests_proper (meter : XmlMeters) (status : XmlStatus) (config : XmlConfig)
    (command : XmlCommand) :
    (Message.requestMeters meter).Proper ∧ (Message.metersRequestOf meter).Proper ∧
      (Message.requestStatus status).Proper ∧ (Message.requestConfig config).Proper ∧
      (Message.requestCommand command).Proper :=
  ⟨⟨meters_word_valid meter, by simp [Message.value]⟩,
    ⟨meters_word_valid meter, by simp [Message.value]⟩,
    ⟨status_word_valid status, by simp [Message.value]⟩,
    ⟨config_word_valid config, by simp [Message.value]⟩,
    ⟨command_word_valid command, by simp [Message.value]⟩⟩

/-- The class that is sent. -/
def Message.sent : Message → XmlMsg
  | .requestCommand _ => .status
  | m => m.kind

theorem sent_eq_kind {m : Message} (h : ∀ tag, m ≠ .requestCommand tag) : m.sent = m.kind := by
  unfold Message.sent
  split
  · exact absurd rfl (h _)
  · rfl

/-- What is in the class element. -/
def Message.inner (m : Message) : List Byte :=
  match m.value with
  | none => m.tag
  | some v => tagged m.tag v

/-- Every message but that of `configCreate` is a class element in the same frame. -/
theorem Message.encode_eq {m : Message} (h : m.Proper) (hc : ∀ tag value, m ≠ .config tag value) :
    m.encode = ends (wrapped m.sent m.inner) := by
  cases m with
  | requestMeters tag => exact requestBody_eq .meter tag.word
  | requestStatus tag => exact requestBody_eq .status tag.word
  | requestConfig tag => exact requestBody_eq .config tag.word
  | requestCommand tag => exact requestBody_eq .status tag.word
  | metersRequestOf val => exact metersRequestCreate_eq (nul_not_mem_name h.1)
  | metersRequest str => exact metersRequestCreate_eq (nul_not_mem_name h.1)
  | metersResponse type val => exact metersResponseCreate_eq (nul_not_mem_name h.1) val
  | response type tag val => exact responseCreate_eq type (nul_not_mem_name h.1) val
  | config tag value => exact absurd rfl (hc tag value)

/-! ## Parsing them -/

/-- The frame is ASCII. -/
theorem legal_frame (type : XmlMsg) (s : List Byte) :
    legal (powerguruTag.with versionName version ((classTag type).start ++ s)) = legal s ∧
      legal (closing type) = true := by
  have hfront : (powerguruTag.with versionName version (classTag type).start).all isAscii = true ∧
      legal (closing type) = true := by
    cases type <;> decide
  have hsplit : powerguruTag.with versionName version ((classTag type).start ++ s) =
      powerguruTag.with versionName version (classTag type).start ++ s := by
    simp [TagName.with, PropertyName.text]
  rw [hsplit]
  exact ⟨legal_ascii_append hfront.1 s, hfront.2⟩

theorem closing_cons (type : XmlMsg) :
    closing type = 60 :: (47 :: (type.element ++ [62]) ++ powerguruTag.stop) := rfl

theorem legal_request (type : XmlMsg) (word : List Byte) :
    legal (wrapped type word) = legal word := by
  obtain ⟨hfront, hclosing⟩ := legal_frame type (word ++ closing type)
  rw [wrapped, hfront]
  rw [closing_cons] at hclosing ⊢
  rw [legal_append (by decide), hclosing, Bool.and_true]

theorem tagged_append (tag val z : List Byte) :
    tagged tag val ++ z = 60 :: (tag ++ 62 :: (val ++ (bytes "</" ++ tag ++ 62 :: z))) := by
  simp [tagged, bytes]

theorem legal_response (type : XmlMsg) {tag : List Byte} (h : validName tag = true)
    (val : List Byte) : legal (wrapped type (tagged tag val)) = legal val := by
  obtain ⟨hfront, hclosing⟩ := legal_frame type (tagged tag val ++ closing type)
  have htag := legal_of_validName h
  have hend : bytes "</" ++ tag ++ 62 :: closing type =
      60 :: 47 :: (tag ++ 62 :: closing type) := rfl
  have hback : legal (60 :: 47 :: (tag ++ 62 :: closing type)) = true := by
    rw [legal_cons (by decide), legal_cons (by decide), legal_append (by decide),
      legal_cons (by decide), htag, hclosing]
    rfl
  rw [wrapped, hfront, tagged_append, legal_cons (by decide), legal_append (by decide),
    legal_cons (by decide), hend, legal_append (by decide), htag, hback, Bool.and_true,
    Bool.true_and]

theorem document_wrapped {type : XmlMsg} {inner : List Byte} {children : List Node}
    (hl : legal (wrapped type inner) = true)
    (hc : ∀ n, content (n+3) [bytes "xml"] (inner ++ closing type) =
      some (children, closing type)) :
    document (wrapped type inner) = some (.element powerguruTag.name (property versionName version)
      [.element type.element [] children]) := by
  have hfuel : ∃ k, (wrapped type inner).length = k + 4 := by
    refine ⟨(wrapped type inner).length - 4, (Nat.sub_add_cancel ?_).symm⟩
    have hclosing : 4 ≤ (closing type).length := by cases type <;> decide
    simp only [wrapped, TagName.with, PropertyName.text, List.length_cons, List.length_append]
    omega
  obtain ⟨k, hk⟩ := hfuel
  have hstop := content_stop powerguruTag (k+2) [bytes "xml"] []
  rw [List.append_nil] at hstop
  apply document_attribute powerguruTag versionName (by decide) hl
  rw [← wrapped, hk, content_tag, hc, enclosed]
  rw [closing, show (classTag type).name = type.element from rfl,
    show closeTag type.element ((classTag type).stop ++ powerguruTag.stop) = some powerguruTag.stop
      from closeTag_stop (classTag type) powerguruTag.stop]
  simp only [Option.map_some, Option.bind_some, hstop]

theorem document_request (type : XmlMsg) {word : List Byte} (h : Plain word) :
    document (wrapped type word) = some (.element powerguruTag.name (property versionName version)
      [.element type.element [] (leaf word)]) := by
  apply document_wrapped ((legal_request type word).trans h.1)
  intro n
  exact content_leaf h.2 (classTag type) (n+1) _ powerguruTag.stop

theorem document_response (type : XmlMsg) {tag val : List Byte} (h : validName tag = true)
    (hv : Plain val) :
    document (wrapped type (tagged tag val)) =
      some (.element powerguruTag.name (property versionName version)
        [.element type.element [] [.element (localName [bytes "xml"] tag) [] (leaf val)]]) := by
  apply document_wrapped ((legal_response type h val).trans hv.1)
  intro n
  have hstop := content_stop (classTag type) (n+1) [bytes "xml"] powerguruTag.stop
  rw [← closing] at hstop
  rw [tagged_append, content_named h hv.2, hstop]
  rfl

theorem extractNode_root {children : List Node} {xs : List XMLNode}
    (h : extractChildren children = .ok xs) :
    extractNode (.element powerguruTag.name (property versionName version) children) =
      .ok ⟨bytes "powerguru", valueOf children, xs, [(bytes "version", version)]⟩ :=
  extractNode_element.mpr ⟨_, rfl, xs, h, rfl⟩

/-- A tree that is known decides what the text decodes to. -/
theorem decodes_of_tree {libxml : Libxml} {s : List Byte} {root : Node} {x : XMLNode}
    (hs : libxml s = some root) (hx : extractNode root = .ok x) (hne : s ≠ [])
    (P : XMLNode → Prop) : Decodes libxml s P ↔ P x := by
  rw [decodes_iff hne]
  constructor
  · rintro ⟨root', y, hroot, hy, hp⟩
    rw [hs] at hroot
    obtain rfl := Option.some.inj hroot
    rw [hx] at hy
    obtain rfl := Except.ok.inj hy
    exact hp
  · intro hp
    exact ⟨root, x, hs, hx, hp⟩

theorem wrapped_ne_nil (type : XmlMsg) (inner : List Byte) : wrapped type inner ≠ [] := by
  simp [wrapped, TagName.with]

section
variable {libxml : Libxml}
variable (hlib : ∀ s, libxml (bytes "<powerguru" ++ s) = document (bytes "<powerguru" ++ s))
include hlib

theorem libxml_wrapped (type : XmlMsg) (inner : List Byte) :
    libxml (wrapped type inner) = document (wrapped type inner) :=
  hlib (versionName.text version ((classTag type).start ++ (inner ++ closing type)))

theorem decodes_request (type : XmlMsg) {word : List Byte} (h : Plain word) (P : XMLNode → Prop) :
    Decodes libxml (wrapped type word) P ↔
      P ⟨bytes "powerguru", valueOf [.element type.element [] (leaf word)],
        [⟨type.element, word, [], []⟩], [(bytes "version", version)]⟩ := by
  have htree := (libxml_wrapped hlib type word).trans (document_request type h)
  have hchildren := extractChildren_element (extractNode_leaf type.element h.2) extractChildren_nil
  exact decodes_of_tree htree (extractNode_root hchildren) (wrapped_ne_nil type word) P

theorem decodes_response (type : XmlMsg) {tag val : List Byte} (h : validName tag = true)
    (hv : Plain val) (P : XMLNode → Prop) :
    ∃ w v, Decodes libxml (wrapped type (tagged tag val)) P ↔
      P ⟨bytes "powerguru", w,
        [⟨type.element, v, [⟨localName [bytes "xml"] tag, val, [], []⟩], []⟩],
        [(bytes "version", version)]⟩ := by
  have htree := (libxml_wrapped hlib type (tagged tag val)).trans (document_response type h hv)
  have hleaf := extractNode_leaf (localName [bytes "xml"] tag) hv.2
  have hclass : extractNode (.element type.element []
      [.element (localName [bytes "xml"] tag) [] (leaf val)]) = .ok ⟨type.element, _, _, []⟩ :=
    extractNode_bare (extractChildren_element hleaf extractChildren_nil)
  have hchildren := extractChildren_element hclass extractChildren_nil
  exact ⟨_, _, decodes_of_tree htree (extractNode_root hchildren) (wrapped_ne_nil _ _) P⟩

/-- A value that is not legal makes the whole text so. -/
theorem not_decodes_response (type : XmlMsg) {tag val : List Byte} (h : validName tag = true)
    (hv : legal val = false) (P : XMLNode → Prop) :
    ¬ Decodes libxml (wrapped type (tagged tag val)) P := by
  intro hd
  obtain ⟨root, x, hroot, -, -⟩ := (decodes_iff (wrapped_ne_nil _ _)).mp hd
  have hl := legal_response type h val
  rw [hv] at hl
  rw [libxml_wrapped hlib, document, hl] at hroot
  exact absurd hroot (by simp)

/-- No text of `configCreate` has a version. -/
theorem not_shown_config (tag value : List Byte) :
    ¬ Decodes libxml (Message.config tag value).text (Message.config tag value).Shown := by
  have htext : (Message.config tag value).text =
      powerguruTag.start ++ (tagged tag value ++ powerguruTag.stop) := by
    rw [Message.text, Message.encode, configCreate_eq, dropLast_ends]
  rw [htext]
  intro hd
  have hne : powerguruTag.start ++ (tagged tag value ++ powerguruTag.stop) ≠ [] := by
    simp [TagName.start]
  obtain ⟨root, x, hroot, hx, -, hversion, -⟩ := (decodes_iff hne).mp hd
  have hdoc := hlib (62 :: (tagged tag value ++ powerguruTag.stop))
  have hstart : bytes "<powerguru" ++ 62 :: (tagged tag value ++ powerguruTag.stop) =
      powerguruTag.start ++ (tagged tag value ++ powerguruTag.stop) := by
    simp [TagName.start, powerguruTag, bytes]
  rw [hstart] at hdoc
  rw [hdoc] at hroot
  obtain ⟨-, -, children, -, -, -, -, rfl⟩ := document_inv hroot
  obtain ⟨as, has, xs, -, rfl⟩ := extractNode_element.mp hx
  rw [extractAttributes, Except.ok.injEq] at has
  rw [← has] at hversion
  exact absurd hversion (by simp)

/-- The class element is the one of a status. -/
theorem not_shown_command (tag : XmlCommand) :
    ¬ Decodes libxml (Message.requestCommand tag).text (Message.requestCommand tag).Shown := by
  have hplain : Plain tag.word :=
    ⟨legal_of_validName (command_word_valid tag), verbatim_of_validName (command_word_valid tag)⟩
  have htext : (Message.requestCommand tag).text = wrapped .status tag.word := by
    rw [Message.text, Message.encode, requestCreateCommand,
      show bytes "status" = XmlMsg.status.element from rfl, requestBody_eq, dropLast_ends]
  rw [htext, decodes_request hlib .status hplain]
  rintro ⟨-, -, c, hc, hname, -⟩
  obtain rfl := (List.cons.inj hc).1
  exact absurd (show bytes "status" = bytes "command" from hname) (by decide)

/-- When a message shows what it was made of. -/
def Message.Clear (m : Message) : Prop :=
  (∀ tag, m ≠ .requestCommand tag) ∧ (∀ tag value, m ≠ .config tag value) ∧
    ∀ v ∈ m.value, legal v = true ∧ localName [bytes "xml"] m.tag = m.tag

theorem shown_iff_clear {m : Message} (h : m.Proper) :
    Decodes libxml m.text m.Shown ↔ m.Clear := by
  by_cases hconfig : ∃ tag value, m = .config tag value
  · obtain ⟨tag, value, rfl⟩ := hconfig
    exact iff_of_false (not_shown_config hlib tag value) fun hc => hc.2.1 tag value rfl
  by_cases hcommand : ∃ tag, m = .requestCommand tag
  · obtain ⟨tag, rfl⟩ := hcommand
    exact iff_of_false (not_shown_command hlib tag) fun hc => hc.1 tag rfl
  have hno : ∀ tag value, m ≠ .config tag value := fun tag value he => hconfig ⟨tag, value, he⟩
  have hno' : ∀ tag, m ≠ .requestCommand tag := fun tag he => hcommand ⟨tag, he⟩
  rw [Message.text, m.encode_eq h hno, dropLast_ends, sent_eq_kind hno', Message.inner]
  cases hv : m.value with
  | none =>
    have hplain : Plain m.tag := ⟨legal_of_validName h.1, verbatim_of_validName h.1⟩
    rw [decodes_request hlib m.kind hplain]
    refine iff_of_true ?_ ⟨hno', hno, by simp [hv]⟩
    rw [Message.Shown, hv]
    exact ⟨rfl, rfl, _, rfl, rfl, rfl, rfl⟩
  | some v =>
    by_cases hl : legal v = true
    · obtain ⟨w, u, hd⟩ := decodes_response hlib m.kind h.1 ⟨hl, h.2 v hv⟩ m.Shown
      rw [hd, Message.Shown, hv]
      constructor
      · rintro ⟨-, -, c, hc, -, t, ht, hname, -⟩
        obtain rfl := (List.cons.inj hc).1
        obtain rfl := (List.cons.inj ht).1
        refine ⟨hno', hno, ?_⟩
        intro v' hv'
        rw [hv, Option.mem_some_iff] at hv'
        rw [← hv']
        exact ⟨hl, hname⟩
      · intro hc
        exact ⟨rfl, rfl, _, rfl, rfl, _, rfl, (hc.2.2 v hv).2, rfl⟩
    · refine iff_of_false ?_ fun hc => hl (hc.2.2 v hv).1
      exact not_decodes_response hlib m.kind h.1 (by simpa using hl) m.Shown

end

/-! ## Different messages -/

theorem ends_inj {x y : List Byte} (h : ends x = ends y) : x = y := List.append_cancel_right h

theorem tagged_inj {tag tag' val val' z z' : List Byte} (h : validName tag = true)
    (h' : validName tag' = true) (hz : z.length = z'.length)
    (he : tagged tag val ++ z = tagged tag' val' ++ z') : tag = tag' ∧ val = val' := by
  have hgt : (62 : Byte) ∉ tag := not_mem_name h (by decide)
  have hgt' : (62 : Byte) ∉ tag' := not_mem_name h' (by decide)
  rw [tagged_append, tagged_append] at he
  obtain ⟨rfl, hrest⟩ := append_cons_inj hgt hgt' (List.cons.inj he).2
  refine ⟨rfl, ?_⟩
  exact (List.append_inj' hrest (by simp [hz])).1

theorem element_of_class (type type' : XmlMsg) (h : type.element = type'.element) :
    type = type' := by
  cases type <;> cases type' <;> first | rfl | exact absurd h (by decide)

theorem gt_not_mem_class (type : XmlMsg) : (62 : Byte) ∉ type.element := by
  cases type <;> decide

theorem wrapped_inj {type type' : XmlMsg} {inner inner' : List Byte}
    (h : wrapped type inner = wrapped type' inner') : type = type' ∧ inner = inner' := by
  have hsplit : ∀ type inner, wrapped type inner = (header ++ bytes "<") ++
      (type.element ++ 62 :: (inner ++ closing type)) := by
    intro type inner
    rw [wrapped_eq]
    simp [closing, TagName.stop, classTag, powerguruTag, bytes]
  rw [hsplit, hsplit] at h
  obtain ⟨hclass, hrest⟩ := append_cons_inj (gt_not_mem_class type) (gt_not_mem_class type')
    (List.append_cancel_left h)
  obtain rfl := element_of_class type type' hclass
  exact ⟨rfl, List.append_cancel_right hrest⟩

/-- No name is an element. -/
theorem name_ne_tagged {name : List Byte} (h : validName name = true) (tag val : List Byte) :
    name ≠ tagged tag val := by
  intro he
  have hlt : (60 : Byte) ∉ name := not_mem_name h (by decide)
  exact hlt (by rw [he]; simp [tagged, bytes])

theorem inner_inj {m m' : Message} (h : m.Proper) (h' : m'.Proper) (he : m.inner = m'.inner) :
    m.tag = m'.tag ∧ m.value = m'.value := by
  unfold Message.inner at he
  cases hv : m.value with
  | none =>
    cases hv' : m'.value with
    | none => rw [hv, hv'] at he; exact ⟨he, rfl⟩
    | some v' => rw [hv, hv'] at he; exact absurd he (name_ne_tagged h.1 _ _)
  | some v =>
    cases hv' : m'.value with
    | none => rw [hv, hv'] at he; exact absurd he.symm (name_ne_tagged h'.1 _ _)
    | some v' =>
      rw [hv, hv'] at he
      have hends : tagged m.tag v ++ [] = tagged m'.tag v' ++ [] := congrArg (· ++ []) he
      obtain ⟨htag, hval⟩ := tagged_inj h.1 h'.1 rfl hends
      exact ⟨htag, by rw [hval]⟩

/-- Only requests of a status and of a command are sent as a status without a value. -/
theorem request_of_sent {m : Message} (hs : m.sent = .status) (hv : m.value = none) :
    (∃ tag, m = .requestCommand tag) ∨ ∃ tag, m = .requestStatus tag := by
  cases m with
  | requestCommand tag => exact Or.inl ⟨tag, rfl⟩
  | requestStatus tag => exact Or.inr ⟨tag, rfl⟩
  | requestMeters tag => exact absurd hs (by simp [Message.sent, Message.kind])
  | requestConfig tag => exact absurd hs (by simp [Message.sent, Message.kind])
  | metersRequestOf val => exact absurd hs (by simp [Message.sent, Message.kind])
  | metersRequest str => exact absurd hs (by simp [Message.sent, Message.kind])
  | metersResponse type val => exact absurd hv (by simp [Message.value])
  | response type tag val => exact absurd hv (by simp [Message.value])
  | config tag value => exact absurd hv (by simp [Message.value])

/-- The words of a command are not those of a status. -/
theorem command_of_sent {m : Message} {tag : XmlCommand} (hs : m.sent = .status)
    (ht : m.tag = tag.word) (hv : m.value = none) : ∃ tag, m = .requestCommand tag := by
  rcases request_of_sent hs hv with hc | ⟨s, rfl⟩
  · exact hc
  · have hwords : s.word ≠ tag.word := by cases s <;> cases tag <;> decide
    exact absurd ht hwords

theorem kind_of_sent {m m' : Message} (hs : m.sent = m'.sent) (ht : m.tag = m'.tag)
    (hv : m.value = m'.value) : m.kind = m'.kind := by
  by_cases hc : ∃ tag, m = .requestCommand tag
  · obtain ⟨tag, rfl⟩ := hc
    obtain ⟨tag', rfl⟩ := command_of_sent hs.symm ht.symm hv.symm
    rfl
  · by_cases hc' : ∃ tag, m' = .requestCommand tag
    · obtain ⟨tag', rfl⟩ := hc'
      exact absurd (command_of_sent hs ht hv) hc
    · rw [← sent_eq_kind fun tag he => hc ⟨tag, he⟩, ← sent_eq_kind fun tag he => hc' ⟨tag, he⟩]
      exact hs

theorem config_ne_wrapped (tag value : List Byte) (type : XmlMsg) (inner : List Byte) :
    configCreate tag value ≠ ends (wrapped type inner) := by
  rw [configCreate_eq]
  intro he
  have hne := ends_inj he
  simp [TagName.start, wrapped, TagName.with, PropertyName.text, powerguruTag] at hne

/-- Different messages have different encodings, whatever they show. -/
theorem same_of_encode {m m' : Message} (h : m.Proper) (h' : m'.Proper)
    (he : m.encode = m'.encode) : m.kind = m'.kind ∧ m.tag = m'.tag ∧ m.value = m'.value := by
  by_cases hc : ∃ tag value, m = .config tag value
  · obtain ⟨tag, value, rfl⟩ := hc
    by_cases hc' : ∃ tag value, m' = .config tag value
    · obtain ⟨tag', value', rfl⟩ := hc'
      have htexts : powerguruTag.start ++ (tagged tag value ++ powerguruTag.stop) =
          powerguruTag.start ++ (tagged tag' value' ++ powerguruTag.stop) := by
        apply ends_inj
        rw [← configCreate_eq, ← configCreate_eq]
        exact he
      obtain ⟨rfl, rfl⟩ := tagged_inj h.1 h'.1 rfl (List.append_cancel_left htexts)
      exact ⟨rfl, rfl, rfl⟩
    · have henc := m'.encode_eq h' fun tag value he => hc' ⟨tag, value, he⟩
      exact absurd (he.trans henc) (config_ne_wrapped tag value _ _)
  · have henc := m.encode_eq h fun tag value he => hc ⟨tag, value, he⟩
    by_cases hc' : ∃ tag value, m' = .config tag value
    · obtain ⟨tag', value', rfl⟩ := hc'
      exact absurd (he.symm.trans henc) (config_ne_wrapped tag' value' _ _)
    · have henc' := m'.encode_eq h' fun tag value he => hc' ⟨tag, value, he⟩
      rw [henc, henc'] at he
      obtain ⟨hsent, hinner⟩ := wrapped_inj (ends_inj he)
      obtain ⟨htag, hvalue⟩ := inner_inj h h' hinner
      exact ⟨kind_of_sent hsent htag hvalue, htag, hvalue⟩

/-! ## All messages -/

/-- If libxml2 parses what begins like a message exactly as XML has it, a message is shown as it
was made if and only if it is clear; and no two messages are sent as the same text. -/
theorem encodings_iff_clear (libxml : Libxml)
    (hlib : ∀ s, libxml (bytes "<powerguru" ++ s) = document (bytes "<powerguru" ++ s)) :
    (∀ m : Message, m.Proper → (Decodes libxml m.text m.Shown ↔ m.Clear)) ∧
    (∀ m m' : Message, m.Proper → m'.Proper → m.encode = m'.encode →
      m.kind = m'.kind ∧ m.tag = m'.tag ∧ m.value = m'.value) := by
  constructor
  · intro m h
    exact shown_iff_clear hlib h
  · intro m m' h h' he
    exact same_of_encode h h' he

/-- The battery voltage of a daemon. -/
def batteryReading : Message := .metersResponse (bytes "battery-volts") (bytes "24.6")

theorem batteryReading_shown : Decodes document batteryReading.text batteryReading.Shown := by
  have hproper : batteryReading.Proper := by
    refine ⟨by decide, ?_⟩
    intro v hv
    obtain rfl := Option.some.inj hv
    decide
  apply ((encodings_iff_clear document fun _ => rfl).1 batteryReading hproper).mpr
  refine ⟨fun tag => by simp [batteryReading], fun tag value => by simp [batteryReading], ?_⟩
  intro v hv
  obtain rfl := Option.some.inj hv
  decide

/-- A request of the relay is sent as a status. -/
theorem relayRequest_not_shown :
    ¬ Decodes document (Message.requestCommand .relay).text
      (Message.requestCommand .relay).Shown :=
  not_shown_command (fun _ => rfl) .relay

end PowerGuru.Net.Encodings
