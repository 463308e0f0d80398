import PowerGuru.Net.Xml

/-!
# Values of converted nodes

`extractNode` sets a value twice, and the second time it takes all the text below the first
child, whatever that child is.
-/
namespace PowerGuru.Net.Xml

open Lib.Bytes Common

/-- The text in front of everything else. -/
def leadingText : List Node → List Byte
  | .text content :: ns => content ++ leadingText ns
  | _ => []

mutual

/-- Every node of the tree has the first line of its own leading text as its value. -/
def Node.Owned : Node → XMLNode → Prop
  | .element _ _ children, x =>
      x.value = firstLine (leadingText children) ∧ ownedAll children x.children
  | _, _ => True

def ownedAll : List Node → List XMLNode → Prop
  | [], _ => True
  | n :: ns, xs =>
      if n.isElement then ∃ x ys, xs = x :: ys ∧ n.Owned x ∧ ownedAll ns ys
      else ownedAll ns xs

end

/-- A first child that is no text has none in its first line, and one that is a text has the
whole first line. -/
def Leads : List Node → Prop
  | [] => True
  | .text content :: ns => LF ∈ content ∨ firstLine (leadingText ns) = []
  | n :: _ => firstLine n.getContent = []

mutual

def Node.allLead : Node → Prop
  | .element _ _ children => Leads children ∧ allLeadAll children
  | _ => True

def allLeadAll : List Node → Prop
  | [] => True
  | n :: ns => n.allLead ∧ allLeadAll ns

end

theorem firstLine_append_of_not_mem {s : List Byte} (t : List Byte) (h : LF ∉ s) :
    firstLine (s ++ t) = s ++ firstLine t :=
  List.takeWhile_append_of_pos fun _ hb => bne_iff_ne.mpr fun he => h (he ▸ hb)

theorem firstLine_leads_iff (s t : List Byte) :
    firstLine s = firstLine (s ++ t) ↔ LF ∈ s ∨ firstLine t = [] := by
  by_cases h : LF ∈ s
  · exact iff_of_true (takeWhile_append_of_mem h t).symm (.inl h)
  · have hs : firstLine s = s := by
      simpa [firstLine] using firstLine_append_of_not_mem [] h
    rw [firstLine_append_of_not_mem t h, hs, List.self_eq_append_right, or_iff_right h]

theorem valueOf_eq_iff (children : List Node) :
    valueOf children = firstLine (leadingText children) ↔ Leads children := by
  cases children with
  | nil => exact iff_of_true rfl trivial
  | cons n ns =>
    cases n with
    | element name properties grandchildren => exact Iff.rfl
    | text content => exact firstLine_leads_iff content (leadingText ns)
    | comment content => exact Iff.rfl

mutual

theorem owned_iff : ∀ {n : Node} {x : XMLNode}, extractNode n = .ok x → (n.Owned x ↔ n.allLead)
  | .element name properties children, x, h => by
      obtain ⟨as, -, xs, hc, rfl⟩ := extractNode_element.mp h
      rw [Node.Owned, Node.allLead, valueOf_eq_iff, ownedAll_iff hc]
  | .text _, _, _ => by simp [Node.Owned, Node.allLead]
  | .comment _, _, _ => by simp [Node.Owned, Node.allLead]

theorem ownedAll_iff : ∀ {ns : List Node} {xs : List XMLNode}, extractChildren ns = .ok xs →
    (ownedAll ns xs ↔ allLeadAll ns)
  | [], _, _ => by simp [ownedAll, allLeadAll]
  | n :: ns, zs, h => by
      rw [extractChildren_cons] at h
      rw [ownedAll, allLeadAll]
      by_cases he : n.isElement = true
      · rw [if_pos he] at h ⊢
        obtain ⟨x, hn, xs, hns, rfl⟩ := h
        rw [← owned_iff hn, ← ownedAll_iff hns]
        constructor
        · rintro ⟨y, ys, heq, hy, hys⟩
          obtain ⟨rfl, rfl⟩ := List.cons.inj heq
          exact ⟨hy, hys⟩
        · rintro ⟨hy, hys⟩
          exact ⟨x, xs, rfl, hy, hys⟩
      · rw [if_neg he] at h ⊢
        have hlead : n.allLead := by
          cases n with
          | element name properties children => exact absurd rfl he
          | text content => trivial
          | comment content => trivial
        rw [ownedAll_iff h, and_iff_right hlead]

end

/-- The value of every node is its own exactly if the first child of every element leads. -/
theorem value_own_iff (n : Node) :
    (∀ x, extractNode n = .ok x → n.Owned x) ↔ (n.filled → n.allLead) := by
  rw [← extractNode_ok_iff]
  constructor
  · rintro h ⟨x, hx⟩
    exact (owned_iff hx).mp (h x hx)
  · intro h x hx
    exact (owned_iff hx).mpr (h ⟨x, hx⟩)

/-- A document whose root has no text of its own. -/
def listAll : Node :=
  .element (bytes "command") [] [.element (bytes "list") [] [.text (bytes "all")]]

/-- The root has the text of its only child as its value. -/
theorem listAll_inherits :
    ¬ ∀ (n : Node) (x : XMLNode), extractNode n = .ok x → n.Owned x := by
  intro h
  have hroot := (h listAll ⟨_, _, _, _⟩ rfl).1
  exact absurd hroot (by decide)

end PowerGuru.Net.Xml
