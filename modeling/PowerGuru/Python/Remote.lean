import PowerGuru.Daemon.CommandStream

/-!
# `remote.py`: the other daemon's `client_handler`

It looks for the command in the root of the document. The clients' commands all come in a
root of their own.
-/
namespace PowerGuru.Python.Remote

open Lib.Bytes Common Net.Xml Net.Commands Daemon.ClientHandler Daemon.CommandStream

/-- `bytes.strip()`. -/
def isSpace (b : Byte) : Bool := b == 32 || (9 ≤ b && b ≤ 13)

def strip (data : List Byte) : List Byte :=
  ((data.dropWhile isSpace).reverse.dropWhile isSpace).reverse

/-- `str.upper()`, as far as it matters for names of ASCII letters. -/
def upper (s : List Byte) : List Byte := s.map fun b => if 97 ≤ b && b ≤ 122 then b - 32 else b

/-- `data.decode('utf8')` succeeds. -/
def decodes (data : List Byte) : Bool := ByteArray.validateUTF8 ⟨data.toArray⟩

def isText : Node → Bool
  | .text _ => true
  | _ => false

/-- `xml.text`: what stands before the first child, `None` if that is nothing. -/
def elementText (xml : Node) : Option (List Byte) :=
  match xml.children.takeWhile isText with
  | [] => none
  | ns => some (charactersAll ns)

/-- `xml[0]`; comments count as children. -/
def elementFirst (xml : Node) : Option Node := (xml.children.filter fun n => !isText n).head?

inductive Outcome where
  /-- The client is gone. -/
  | closed
  | notXml
  /-- An exception leaves the handler. -/
  | raised
  | listCommand (text : Option (List Byte))
  /-- The tag is an allowed one. -/
  | logged (tag : List Byte) (text : Option (List Byte))
  /-- The handler returns. -/
  | unsupported (tag : List Byte)
  deriving DecidableEq

/-- The tags besides LIST. -/
def allowed : List (List Byte) := [bytes "NOP", bytes "HELO", bytes "POLL", bytes "TRIGGER"]

section
variable (etree : Libxml)

/-- What a root tag leads to. -/
def dispatch (xml : Node) : Outcome :=
  let tag := upper xml.name
  if tag = bytes "LIST" then
    match elementFirst xml with
    | none => .listCommand (elementText xml)
    | some n =>
        if n.isElement then
          if upper n.name = bytes "SENSORS" then .listCommand (elementText n)
          else .logged tag (elementText xml)
        else .raised
  else if tag ∈ allowed then .logged tag (elementText xml)
  else .unsupported tag

/-- One pass of `handle` over what `recv` returned. -/
def receive (received : List Byte) : Outcome :=
  let data := strip received
  if data.length = 0 then .closed
  else if !decodes data then .raised
  else if data.head? ≠ some langle then .notXml
  else
    match etree data with
    | none => .raised
    | some xml => dispatch xml

def Outcome.continues : Outcome → Bool
  | .notXml | .listCommand _ | .logged .. => true
  | _ => false

/-- `while True`. -/
def handle : List (List Byte) → List Outcome
  | [] => []
  | r :: rs =>
      let o := receive etree (r.take 1024)
      if o.continues then o :: handle rs else [o]

end

/-- The command that an outcome recognises, and its argument. -/
def Outcome.command : Outcome → Option (List Byte × List Byte)
  | .listCommand text => some (bytes "LIST", text.getD [])
  | .logged tag text => some (tag, text.getD [])
  | _ => none

/-- What `client_handler` of the C++ daemon sees in a message. -/
def reading (libxml : Libxml) (str : List Byte) : Option (List Byte × List Byte) :=
  match parseMem libxml none str with
  | .ok (_, some nodes) => nodes.children.head?.map fun n => (n.name, n.value)
  | _ => none

/-- Both daemons see one command and the same argument. -/
def Agree (o : Outcome) (r : Option (List Byte × List Byte)) : Prop :=
  ∃ tag name args, o.command = some (tag, args) ∧ r = some (name, args) ∧ upper name = tag

/-! ## What the root decides -/

/-- The root of a document that begins with the tag `<command>`. -/
def RootTag (etree : Libxml) : Prop :=
  ∀ rest root, etree (bytes "<command>" ++ rest) = some root → root.name = bytes "command"

theorem strip_command (s : List Byte) :
    ∃ rest, strip (bytes "<command>" ++ s) = bytes "<command>" ++ rest := by
  have hfront : (bytes "<command>" ++ s).dropWhile isSpace = bytes "<command>" ++ s :=
    List.dropWhile_cons_of_neg (by decide)
  have hback : (bytes "<command>").reverse.dropWhile isSpace = (bytes "<command>").reverse :=
    List.dropWhile_cons_of_neg (by decide)
  refine ⟨(s.reverse.dropWhile isSpace).reverse, ?_⟩
  rw [strip, hfront, List.reverse_append, List.dropWhile_append, hback]
  split
  · rename_i he
    rw [List.isEmpty_iff.mp he]
    simp
  · simp

theorem dispatch_command {xml : Node} (h : xml.name = bytes "command") :
    dispatch xml = .unsupported (bytes "COMMAND") := by
  have hu : upper (bytes "command") = bytes "COMMAND" := by decide
  have hl : bytes "COMMAND" ≠ bytes "LIST" := by decide
  have ha : bytes "COMMAND" ∉ allowed := by decide
  unfold dispatch
  rw [h, hu, if_neg hl, if_neg ha]

/-- Data in a `<command>` root is refused. -/
theorem receive_command {etree : Libxml} (h : RootTag etree) (s : List Byte) :
    receive etree (bytes "<command>" ++ s) = .raised ∨
      receive etree (bytes "<command>" ++ s) = .unsupported (bytes "COMMAND") := by
  obtain ⟨rest, hs⟩ := strip_command s
  have hlen : (bytes "<command>" ++ rest).length ≠ 0 := by simp [bytes]
  have hhead : ¬ (bytes "<command>" ++ rest).head? ≠ some langle := by simp [bytes, langle]
  unfold receive
  rw [hs, if_neg hlen, if_neg hhead]
  split
  · exact Or.inl rfl
  · cases hx : etree (bytes "<command>" ++ rest) with
    | none => exact Or.inl rfl
    | some xml => exact Or.inr (dispatch_command (h rest xml hx))

theorem Command.text_start (c : Command) : ∃ s, c.text.take 1024 = bytes "<command>" ++ s := by
  have ht : c.text = bytes "<command>" ++ (createBody c.cmd c.args ++ bytes "</command>\n") := by
    rw [Command.text, createCommand, if_neg c.sent.1, List.append_assoc]
  have hlen : (bytes "<command>").length ≤ 1024 := by decide
  refine ⟨(createBody c.cmd c.args ++ bytes "</command>\n").take (1024 - 9), ?_⟩
  rw [ht, List.take_append, List.take_of_length_le hlen]
  rfl

/-- Whatever the client sends, the session ends with its first command. -/
theorem handle_command {etree : Libxml} (h : RootTag etree) (c : Command) (rs : List (List Byte)) :
    handle etree (c.text :: rs) = [.raised] ∨
      handle etree (c.text :: rs) = [.unsupported (bytes "COMMAND")] := by
  obtain ⟨s, hs⟩ := Command.text_start c
  rcases receive_command h s with ho | ho
  · exact Or.inl (by simp [handle, hs, ho, Outcome.continues])
  · exact Or.inr (by simp [handle, hs, ho, Outcome.continues])

theorem refused {etree : Libxml} (h : RootTag etree) (c : Command) (rs : List (List Byte))
    {o : Outcome} (ho : o ∈ handle etree (c.text :: rs)) : o.command = none := by
  rcases handle_command h c rs with hr | hr
  · rw [hr, List.mem_singleton] at ho
    rw [ho]
    rfl
  · rw [hr, List.mem_singleton] at ho
    rw [ho]
    rfl

/-- No command of the clients is one that both daemons see. -/
theorem daemons_disagree {etree : Libxml} (h : RootTag etree) (libxml : Libxml) (c : Command)
    (rs : List (List Byte)) :
    ¬ ∃ o ∈ handle etree (c.text :: rs), Agree o (reading libxml (arrived c.text)) := by
  intro hex
  obtain ⟨o, ho, tag, name, args, hc, -⟩ := hex
  rw [refused h c rs ho] at hc
  exact absurd hc (by simp)

/-! ## `list all` -/

def listAll : Command := { cmd := .list, args := bytes "all" }

/-- A parser that knows this one command. -/
def onlyListAll (text : List Byte) : Option Node :=
  if text ∈ [listAll.bare, arrived listAll.text] then some listAll.document else none

theorem onlyListAll_rootTag : RootTag onlyListAll := by
  intro rest root hr
  unfold onlyListAll at hr
  split at hr
  · rw [← Option.some.inj hr]
    rfl
  · exact absurd hr (by simp)

theorem daemons_disagree_listAll :
    ¬ ∃ o ∈ handle onlyListAll [listAll.text],
      Agree o (reading onlyListAll (arrived listAll.text)) :=
  daemons_disagree onlyListAll_rootTag onlyListAll listAll []

/-- The C++ daemon sees the command and its argument. -/
theorem listAll_refused :
    reading onlyListAll (arrived listAll.text) = some (bytes "list", bytes "all") ∧
      ∀ o ∈ handle onlyListAll [listAll.text], o.command = none := by
  constructor
  · have hp : onlyListAll (arrived listAll.text) = some listAll.document :=
      if_pos (List.mem_cons_of_mem _ List.mem_cons_self)
    have hm : (arrived listAll.text).head? = some langle := rfl
    unfold reading
    rw [parseMem_marked hm, hp]
    rfl
  · intro o ho
    exact refused onlyListAll_rootTag listAll [] ho

end PowerGuru.Python.Remote
