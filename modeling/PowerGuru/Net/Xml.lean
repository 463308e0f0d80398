import Mathlib.Data.List.Forall2
import PowerGuru.Common
import PowerGuru.Lib.Bytes

/-!
# `XMLNode`, `XML` and `extractNode`

libxml2 is a parameter: a function from a text to the root element of its document,
`none` when the text is not well formed. Reading through a pointer that is null, past
the end or never set is a `Fault`.
-/
namespace PowerGuru.Net.Xml

open Lib.Bytes Common

/-- A node of libxml2's tree. A property holds the content of its first child, which an
empty value does not have; `comment` stands for processing instructions as well. -/
inductive Node where
  | element (name : List Byte) (properties : List (List Byte × Option (List Byte)))
      (children : List Node)
  | text (content : List Byte)
  | comment (content : List Byte)

abbrev Libxml := List Byte → Option Node

inductive Fault where
  /-- `attr->children` is NULL. -/
  | emptyAttribute
  /-- `_nodes` was never set. -/
  | noDocument
  /-- A member function of the NULL that `operator[]` returned. -/
  | noChild
  /-- `_children[0]` of an empty vector. -/
  | badIndex
  deriving DecidableEq, Repr

def Node.isElement : Node → Bool
  | .element .. => true
  | _ => false

def Node.name : Node → List Byte
  | .element name _ _ => name
  | .text _ => bytes "text"
  | .comment _ => bytes "comment"

def Node.properties : Node → List (List Byte × Option (List Byte))
  | .element _ properties _ => properties
  | _ => []

def Node.children : Node → List Node
  | .element _ _ children => children
  | _ => []

/-- The children that `extractNode` follows. -/
def Node.elements (n : Node) : List Node := n.children.filter Node.isElement

mutual

/-- The text of a subtree, as `xmlNodeGetContent` collects it below an element. -/
def Node.characters : Node → List Byte
  | .element _ _ children => charactersAll children
  | .text content => content
  | .comment _ => []

def charactersAll : List Node → List Byte
  | [] => []
  | n :: ns => n.characters ++ charactersAll ns

end

/-- `xmlNodeGetContent`. -/
def Node.getContent : Node → List Byte
  | .comment content => content
  | n => n.characters

structure XMLNode where
  name : List Byte
  value : List Byte
  children : List XMLNode
  attributes : List (List Byte × List Byte)

/-- `_attributes[name] = value`. -/
def attribAdd (attributes : List (List Byte × List Byte)) (name value : List Byte) :
    List (List Byte × List Byte) :=
  attributes.filter (fun a => a.1 != name) ++ [(name, value)]

def extractAttributes (attributes : List (List Byte × List Byte)) :
    List (List Byte × Option (List Byte)) → Except Fault (List (List Byte × List Byte))
  | [] => .ok attributes
  | (_, none) :: _ => .error .emptyAttribute
  | (name, some value) :: rest => extractAttributes (attribAdd attributes name value) rest

/-- `value.substr(0, value.find('\n'))`. -/
def firstLine (value : List Byte) : List Byte := value.takeWhile (· != LF)

/-- The second `valueSet` overrides the first. -/
def valueOf : List Node → List Byte
  | [] => []
  | n :: _ => firstLine n.getContent

mutual

def extractNode : Node → Except Fault XMLNode
  | .element name properties children => do
      let attributes ← extractAttributes [] properties
      let xs ← extractChildren children
      return ⟨name, valueOf children, xs, attributes⟩
  | .text _ => .ok ⟨bytes "text", [], [], []⟩
  | .comment _ => .ok ⟨bytes "comment", [], [], []⟩

def extractChildren : List Node → Except Fault (List XMLNode)
  | [] => .ok []
  | n :: ns =>
      if n.isElement then do
        let x ← extractNode n
        let xs ← extractChildren ns
        return x :: xs
      else extractChildren ns

end

/-- `_nodes` of an `XML` object. -/
abbrev XML := Option XMLNode

/-- The result and the object that `parseMem` leaves. -/
def parseMem (libxml : Libxml) (xml : XML) (xml_in : List Byte) : Except Fault (Bool × XML) :=
  if xml_in.length = 0 then .ok (false, xml)
  else
    match libxml xml_in with
    | none => .ok (false, xml)
    | some root => do
        let nodes ← extractNode root
        return (true, some nodes)

/-- `xml.nameGet()`. -/
def nameGet (xml : XML) : Except Fault (List Byte) :=
  match xml with
  | none => .error .noDocument
  | some nodes => .ok nodes.name

/-- `xml[0]`, which is NULL when there is no child. -/
def first (xml : XML) : Except Fault (Option XMLNode) :=
  match xml with
  | none => .error .noDocument
  | some nodes => .ok nodes.children.head?

/-- Following the pointer. -/
def deref (node : Option XMLNode) : Except Fault XMLNode :=
  match node with
  | none => .error .noChild
  | some n => .ok n

/-- `childGet(0)`. -/
def childGet0 (node : XMLNode) : Except Fault XMLNode :=
  match node.children with
  | [] => .error .badIndex
  | n :: _ => .ok n

/-! ## What `extractNode` keeps -/

mutual

/-- No attribute of the element or of an element below it is empty. -/
def Node.filled : Node → Prop
  | .element _ properties children => (∀ p ∈ properties, p.2.isSome = true) ∧ filledAll children
  | _ => True

def filledAll : List Node → Prop
  | [] => True
  | n :: ns => n.filled ∧ filledAll ns

end

mutual

/-- The names that the nodes made of a tree get, in the order of the text. -/
def Node.names : Node → List (List Byte)
  | .element name _ children => name :: namesAll children
  | .text _ => [bytes "text"]
  | .comment _ => [bytes "comment"]

def namesAll : List Node → List (List Byte)
  | [] => []
  | n :: ns => if n.isElement then n.names ++ namesAll ns else namesAll ns

end

theorem extractAttributes_ok_iff (acc : List (List Byte × List Byte))
    (properties : List (List Byte × Option (List Byte))) :
    (∃ as, extractAttributes acc properties = .ok as) ↔ ∀ p ∈ properties, p.2.isSome = true := by
  induction properties generalizing acc with
  | nil => simp [extractAttributes]
  | cons p rest ih =>
    obtain ⟨name, value⟩ := p
    cases value with
    | none => simp [extractAttributes]
    | some value => simp [extractAttributes, ih]

theorem extractNode_element {name : List Byte} {properties : List (List Byte × Option (List Byte))}
    {children : List Node} {x : XMLNode} :
    extractNode (.element name properties children) = .ok x ↔
      ∃ as, extractAttributes [] properties = .ok as ∧
        ∃ xs, extractChildren children = .ok xs ∧ ⟨name, valueOf children, xs, as⟩ = x := by
  simp only [extractNode, bind_ok_iff, pure, Except.pure, Except.ok.injEq]

theorem extractChildren_cons {n : Node} {ns : List Node} {zs : List XMLNode} :
    extractChildren (n :: ns) = .ok zs ↔
      if n.isElement = true then
        ∃ x, extractNode n = .ok x ∧ ∃ xs, extractChildren ns = .ok xs ∧ x :: xs = zs
      else extractChildren ns = .ok zs := by
  rw [extractChildren]
  split
  · simp only [bind_ok_iff, pure, Except.pure, Except.ok.injEq]
  · rfl

/-- One extracted child for each element, in order. -/
theorem extractChildren_forall {ns : List Node} {zs : List XMLNode}
    (h : extractChildren ns = .ok zs) :
    List.Forall₂ (fun n x => extractNode n = .ok x) (ns.filter Node.isElement) zs := by
  induction ns generalizing zs with
  | nil =>
    rw [extractChildren, Except.ok.injEq] at h
    rw [← h]
    exact .nil
  | cons n ns ih =>
    rw [extractChildren_cons] at h
    by_cases he : n.isElement = true
    · rw [if_pos he] at h
      obtain ⟨x, hn, xs, hns, rfl⟩ := h
      rw [List.filter_cons_of_pos he]
      exact .cons hn (ih hns)
    · rw [if_neg he] at h
      rw [List.filter_cons_of_neg he]
      exact ih h

theorem extractNode_spec {n : Node} {x : XMLNode} (h : extractNode n = .ok x) :
    x.name = n.name ∧ List.Forall₂ (fun n x => extractNode n = .ok x) n.elements x.children := by
  cases n with
  | element name properties children =>
    obtain ⟨as, -, xs, hc, rfl⟩ := extractNode_element.mp h
    exact ⟨rfl, extractChildren_forall hc⟩
  | text content =>
    rw [extractNode, Except.ok.injEq] at h
    rw [← h]
    exact ⟨rfl, .nil⟩
  | comment content =>
    rw [extractNode, Except.ok.injEq] at h
    rw [← h]
    exact ⟨rfl, .nil⟩

mutual

/-- Extraction goes through exactly when there is no empty attribute to follow. -/
theorem extractNode_ok_iff : ∀ n : Node, (∃ x, extractNode n = .ok x) ↔ n.filled
  | .element name properties children => by
      rw [Node.filled, ← extractAttributes_ok_iff [] properties, ← extractChildren_ok_iff children]
      simp only [extractNode_element]
      constructor
      · rintro ⟨x, as, ha, xs, hc, -⟩
        exact ⟨⟨as, ha⟩, ⟨xs, hc⟩⟩
      · rintro ⟨⟨as, ha⟩, ⟨xs, hc⟩⟩
        exact ⟨_, as, ha, xs, hc, rfl⟩
  | .text content => by simp [extractNode, Node.filled]
  | .comment content => by simp [extractNode, Node.filled]

theorem extractChildren_ok_iff :
    ∀ ns : List Node, (∃ xs, extractChildren ns = .ok xs) ↔ filledAll ns
  | [] => by simp [extractChildren, filledAll]
  | n :: ns => by
      have hn := extractNode_ok_iff n
      rw [filledAll, ← hn, ← extractChildren_ok_iff ns]
      simp only [extractChildren_cons]
      by_cases he : n.isElement = true
      · simp only [he, if_true]
        constructor
        · rintro ⟨zs, x, hx, xs, hxs, -⟩
          exact ⟨⟨x, hx⟩, ⟨xs, hxs⟩⟩
        · rintro ⟨⟨x, hx⟩, ⟨xs, hxs⟩⟩
          exact ⟨x :: xs, x, hx, xs, hxs, rfl⟩
      · have hok : ∃ x, extractNode n = .ok x := by
          cases n with
          | element name properties children => exact absurd rfl he
          | text content => exact ⟨_, by rw [extractNode]⟩
          | comment content => exact ⟨_, by rw [extractNode]⟩
        simp only [he]
        exact ⟨fun h => ⟨hok, h⟩, fun h => h.2⟩

end

end PowerGuru.Net.Xml
