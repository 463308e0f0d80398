import PowerGuru.Lib.AssocMap
import PowerGuru.Net.Xml

/-!
# When the converted tree is the document's

`extractNode` follows the first child of each attribute, and keeps attributes in a map
under their local names.
-/
namespace PowerGuru.Net.Xml

open Lib.Bytes Lib.AssocMap Common

/-- The attributes of an element as the document has them; an empty value has no child. -/
def pairs (properties : List (List Byte × Option (List Byte))) : List (List Byte × List Byte) :=
  properties.map fun p => (p.1, p.2.getD [])

mutual

/-- Same name, the attributes of the document, and the element children in order. -/
def Node.Kept : Node → XMLNode → Prop
  | .element name properties children, x =>
      x.name = name ∧ (∀ a, a ∈ x.attributes ↔ a ∈ pairs properties) ∧ keptAll children x.children
  | .text _, _ => False
  | .comment _, _ => False

def keptAll : List Node → List XMLNode → Prop
  | [], xs => xs = []
  | n :: ns, xs =>
      if n.isElement then ∃ x ys, xs = x :: ys ∧ n.Kept x ∧ keptAll ns ys
      else keptAll ns xs

end

mutual

/-- No element has two attributes with the same local name and different values. -/
def Node.consistent : Node → Prop
  | .element _ properties children => Functional (pairs properties) ∧ consistentAll children
  | _ => True

def consistentAll : List Node → Prop
  | [] => True
  | n :: ns => n.consistent ∧ consistentAll ns

end

theorem extractAttributes_eq {acc : List (List Byte × List Byte)}
    {properties : List (List Byte × Option (List Byte))} {as : List (List Byte × List Byte)}
    (h : extractAttributes acc properties = .ok as) : as = assignAll acc (pairs properties) := by
  induction properties generalizing acc with
  | nil =>
    rw [extractAttributes, Except.ok.injEq] at h
    exact h.symm
  | cons p rest ih =>
    obtain ⟨name, value⟩ := p
    cases value with
    | none =>
      rw [extractAttributes] at h
      exact absurd h (by simp)
    | some value =>
      rw [extractAttributes] at h
      exact ih h

/-- The attribute map of a converted element is complete exactly if no value was overwritten. -/
theorem extractAttributes_complete_iff {properties : List (List Byte × Option (List Byte))}
    {as : List (List Byte × List Byte)} (h : extractAttributes [] properties = .ok as) :
    (∀ a, a ∈ as ↔ a ∈ pairs properties) ↔ Functional (pairs properties) := by
  rw [extractAttributes_eq h]
  exact assignAll_complete_iff (pairs properties)

mutual

theorem kept_iff : ∀ {n : Node} {x : XMLNode}, n.isElement = true → extractNode n = .ok x →
    (n.Kept x ↔ n.consistent)
  | .element name properties children, x, _, h => by
      obtain ⟨as, ha, xs, hc, rfl⟩ := extractNode_element.mp h
      rw [Node.Kept, Node.consistent, extractAttributes_complete_iff ha, keptAll_iff hc]
      exact and_iff_right rfl

theorem keptAll_iff : ∀ {ns : List Node} {xs : List XMLNode}, extractChildren ns = .ok xs →
    (keptAll ns xs ↔ consistentAll ns)
  | [], xs, h => by
      rw [extractChildren, Except.ok.injEq] at h
      rw [keptAll, consistentAll, ← h]
      exact iff_of_true rfl trivial
  | n :: ns, xs, h => by
      rw [extractChildren_cons] at h
      rw [keptAll, consistentAll]
      by_cases he : n.isElement = true
      · rw [if_pos he] at h ⊢
        obtain ⟨x, hn, ys, hns, rfl⟩ := h
        rw [← kept_iff he hn, ← keptAll_iff hns]
        constructor
        · intro hk
          obtain ⟨x', ys', heq, hx, hxs⟩ := hk
          obtain ⟨rfl, rfl⟩ := List.cons.inj heq
          exact ⟨hx, hxs⟩
        · intro hk
          exact ⟨x, ys, rfl, hk⟩
      · rw [if_neg he] at h ⊢
        have hn : n.consistent := by
          cases n with
          | element name properties children => exact absurd rfl he
          | text content => trivial
          | comment content => trivial
        rw [keptAll_iff h, and_iff_right hn]

end

/-- A document is converted without a fault and without a loss exactly if none of its
attributes is empty and none overwrites another. -/
theorem extractNode_faithful_iff (name : List Byte)
    (properties : List (List Byte × Option (List Byte))) (children : List Node) :
    (∃ x, extractNode (.element name properties children) = .ok x ∧
      (Node.element name properties children).Kept x) ↔
    (Node.element name properties children).filled ∧
      (Node.element name properties children).consistent := by
  rw [← extractNode_ok_iff]
  constructor
  · intro h
    obtain ⟨x, hx, hk⟩ := h
    exact ⟨⟨x, hx⟩, (kept_iff rfl hx).mp hk⟩
  · intro h
    obtain ⟨⟨x, hx⟩, hc⟩ := h
    exact ⟨x, hx, (kept_iff rfl hx).mpr hc⟩

/-- `<a b=""/>`. -/
theorem extractNode_emptyAttribute :
    extractNode (.element (bytes "a") [(bytes "b", none)] []) = .error .emptyAttribute := rfl

end PowerGuru.Net.Xml
