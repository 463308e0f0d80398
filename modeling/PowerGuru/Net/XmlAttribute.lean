import PowerGuru.Net.XmlVerbatim

/-!
# Names and attributes

A name of XML as the reader takes it, and an element whose start tag has one attribute.
-/
namespace PowerGuru.Net.XmlText

open Lib.Bytes Lib.Utf8 Xml

/-! ## Names -/

theorem isChar_of_nameChar {c : Nat} (h : isNameChar c = true) : isChar c = true := by
  simp only [isNameChar, isNameStart, isChar, Bool.or_eq_true, Bool.and_eq_true, beq_iff_eq,
    decide_eq_true_eq] at h ⊢
  omega

/-- The characters of a name. -/
theorem codes_of_validName {name : List Byte} (h : validName name = true) :
    ∃ c cs, codes none name = some (c :: cs) ∧ ∀ d ∈ c :: cs, isNameChar d = true := by
  unfold validName at h
  split at h
  · next c cs hc =>
    rw [Bool.and_eq_true] at h
    refine ⟨c, cs, hc, ?_⟩
    intro d hd
    rcases List.mem_cons.mp hd with rfl | hd
    · simp [isNameChar, h.1]
    · exact List.all_eq_true.mp h.2 d hd
  · exact absurd h (by simp)

theorem nameBytes_of_validName {name : List Byte} (h : validName name = true) :
    name.all isNameByte = true := by
  obtain ⟨c, cs, hc, hall⟩ := codes_of_validName h
  apply List.all_eq_true.mpr
  intro b hb
  rw [isNameByte, Bool.or_eq_true, decide_eq_true_eq]
  by_cases hlow : b.toNat < 0x80
  · exact Or.inr (hall _ (mem_codes hc hb hlow))
  · left
    omega

theorem legal_of_validName {name : List Byte} (h : validName name = true) : legal name = true := by
  obtain ⟨c, cs, hc, hall⟩ := codes_of_validName h
  rw [legal, hc]
  exact List.all_eq_true.mpr fun d hd => isChar_of_nameChar (hall d hd)

/-- A byte that no name has. -/
theorem not_mem_name {name : List Byte} (h : validName name = true) {b : Byte}
    (hb : isNameByte b = false) : b ∉ name := by
  intro hm
  have hn := List.all_eq_true.mp (nameBytes_of_validName h) b hm
  rw [hb] at hn
  exact absurd hn (by simp)

theorem verbatim_of_validName {name : List Byte} (h : validName name = true) : Verbatim name := by
  refine ⟨not_mem_name h (by decide), not_mem_name h (by decide), not_mem_name h (by decide),
    not_mem_name h (by decide), ?_⟩
  have hclose : (93 : Byte) ∉ name := not_mem_name h (by decide)
  clear h
  induction name with
  | nil => rfl
  | cons b name ih =>
    have hb : b ≠ 93 := fun he => hclose (by simp [he])
    have hfront : (bytes "]]>").isPrefixOf (b :: name) = false := by
      simp [bytes, List.isPrefixOf, Ne.symm hb]
    rw [occursIn, ih fun hm => hclose (List.mem_cons_of_mem b hm), hfront]
    rfl

theorem ne_nil_of_validName {name : List Byte} (h : validName name = true) : name ≠ [] := by
  intro he
  rw [he] at h
  exact absurd h (by decide)

/-- An end tag, whatever its name. -/
theorem closeTag_name (name z : List Byte) :
    closeTag name (bytes "</" ++ name ++ 62 :: z) = some z := by
  have hdrop : (62 :: z).dropWhile isS = 62 :: z := rfl
  rw [closeTag, strip_append]
  simp only [hdrop, if_true]

/-- An element whose name may have a prefix, with text in it. -/
theorem content_named {name x : List Byte} (h : validName name = true) (hx : Verbatim x) (n : Nat)
    (scope : Scope) (z : List Byte) :
    content (n+3) scope (60 :: (name ++ 62 :: (x ++ (bytes "</" ++ name ++ 62 :: z)))) =
      (content (n+2) scope z).map fun q =>
        (.element (localName scope name) [] (leaf x) :: q.1, q.2) := by
  have hb := nameBytes_of_validName h
  obtain ⟨c, cs, hc⟩ := List.exists_cons_of_ne_nil (ne_nil_of_validName h)
  have hcb : isNameByte c = true := List.all_eq_true.mp hb c (by rw [hc]; simp)
  have hend : bytes "</" ++ name ++ 62 :: z = 60 :: (47 :: name ++ 62 :: z) := rfl
  have hinside : content (n+2) scope (x ++ (bytes "</" ++ name ++ 62 :: z)) =
      some (leaf x, bytes "</" ++ name ++ 62 :: z) := by
    have hstop : ∀ m, content (m+1) scope (bytes "</" ++ name ++ 62 :: z) =
        some ([], bytes "</" ++ name ++ 62 :: z) := by
      intro m
      rw [content, if_pos]
      right
      simp [bytes]
    by_cases hnil : x = []
    · rw [hnil, List.nil_append, hstop]
      rfl
    · rw [hend, content_verbatim hx hnil, ← hend, hstop, leaf, if_neg hnil]
      rfl
  have hread := readName_of_valid hb h (show isNameByte 62 = false by decide)
    (x ++ (bytes "</" ++ name ++ 62 :: z))
  have hempty : ∀ t : List Byte, strip (bytes "/>") (62 :: t) = none := fun _ => rfl
  have hopen : ∀ t : List Byte, strip (bytes ">") (62 :: t) = some t := fun t => strip_append [62] t
  have helement : element (content (n+2)) scope
      (name ++ 62 :: (x ++ (bytes "</" ++ name ++ 62 :: z))) =
        some (.element (localName scope name) [] (leaf x), z) := by
    rw [element, hread]
    dsimp only
    rw [readAttributes_end]
    simp only [List.map_nil, List.nodup_nil, if_true, hempty, hopen, declared, properties,
      List.filterMap_nil, List.filter_nil, List.nil_append, hinside, closeTag_name, Option.map_some]
  have hcons : name ++ 62 :: (x ++ (bytes "</" ++ name ++ 62 :: z)) =
      c :: (cs ++ 62 :: (x ++ (bytes "</" ++ name ++ 62 :: z))) := by
    rw [hc]
    rfl
  rw [hcons, content_element hcb, ← hcons, helement]
  rfl

/-! ## One attribute -/

/-- Text that can stand between double quotes and is read as it is written. -/
def Quotable (x : List Byte) : Prop :=
  34 ∉ x ∧ 60 ∉ x ∧ 38 ∉ x ∧ ∀ b ∈ x, isS b = true → b = 32

instance (x : List Byte) : Decidable (Quotable x) :=
  haveI := List.decidableBAll (fun b => isS b = true → b = 32) x
  inferInstanceAs (Decidable (34 ∉ x ∧ 60 ∉ x ∧ 38 ∉ x ∧ ∀ b ∈ x, isS b = true → b = 32))

theorem readValue_quoted {x : List Byte} (h : Quotable x) (z : List Byte) :
    readValue (61 :: 34 :: (x ++ 34 :: z)) = some (x, z) := by
  obtain ⟨hquote, hlt, hamp, hblank⟩ := h
  have hall : ∀ b ∈ x, (b != 34) = true := fun b hb => bne_iff_ne.mpr fun he => hquote (he ▸ hb)
  have htake : (x ++ 34 :: z).takeWhile (· != 34) = x := by
    rw [List.takeWhile_append_of_pos hall]
    simp
  have hdrop : (x ++ 34 :: z).dropWhile (· != 34) = 34 :: z := by
    rw [List.dropWhile_append_of_pos hall]
    simp
  have hcr : CR ∉ x := by
    intro hm
    exact absurd (hblank CR hm (by decide)) (by decide)
  have hspaces : (x.map fun b => if isS b = true then 32 else b) = x := by
    conv_rhs => rw [← List.map_id x]
    apply List.map_congr_left
    intro b hb
    by_cases hs : isS b = true
    · rw [if_pos hs, hblank b hb hs]
      rfl
    · rw [if_neg hs]
      rfl
  have he : (61 :: 34 :: (x ++ 34 :: z)).dropWhile isS = 61 :: 34 :: (x ++ 34 :: z) := rfl
  have hq : (34 :: (x ++ 34 :: z)).dropWhile isS = 34 :: (x ++ 34 :: z) := rfl
  rw [readValue, he]
  dsimp only
  rw [hq]
  simp [htake, hdrop, hlt, normalize_of_not_mem hcr, hspaces, expand_of_not_mem hamp]

/-- The name of a property, which is no declaration of a namespace. -/
structure PropertyName extends TagName where
  no_xmlns : name ≠ bytes "xmlns" := by decide

/-- What stands in the start tag behind the name. -/
def PropertyName.text (attr : PropertyName) (x z : List Byte) : List Byte :=
  32 :: (attr.name ++ 61 :: 34 :: (x ++ 34 :: 62 :: z))

theorem readAttributes_one (attr : PropertyName) {x : List Byte} (h : Quotable x) (n : Nat)
    (z : List Byte) :
    readAttributes (n+2) (attr.text x z) = some ([(attr.name, x)], 62 :: z) := by
  obtain ⟨c, cs, hc, hb⟩ := attr.head_ok
  have hgt : c ≠ 62 := by intro he; rw [he] at hb; exact absurd hb (by decide)
  have hslash : c ≠ 47 := by intro he; rw [he] at hb; exact absurd hb (by decide)
  have hspace : isS c = false := by
    rw [Bool.eq_false_iff]
    intro hs
    simp only [isS, Bool.or_eq_true, beq_iff_eq] at hs
    rcases hs with ((rfl | rfl) | rfl) | rfl <;> exact absurd hb (by decide)
  have hdrop : (attr.text x z).dropWhile isS =
      attr.name ++ 61 :: 34 :: (x ++ 34 :: 62 :: z) := by
    simp [PropertyName.text, hc, hspace, show isS 32 = true from rfl]
  have hread := readName_of_valid attr.bytes_ok attr.valid (show isNameByte 61 = false by decide)
    (34 :: (x ++ 34 :: 62 :: z))
  rw [readAttributes, hdrop]
  rw [if_neg (by simp [hc, hgt, hslash]), if_neg (by simp [PropertyName.text, isS]), hread]
  dsimp only
  rw [readValue_quoted h]
  dsimp only
  rw [readAttributes_end]
  rfl

theorem PropertyName.not_declared (attr : PropertyName) :
    (bytes "xmlns:").isPrefixOf attr.name = false := by
  rw [Bool.eq_false_iff]
  intro hp
  obtain ⟨t, ht⟩ := List.isPrefixOf_iff_prefix.mp hp
  exact attr.local_ok (by rw [← ht]; simp [bytes])

/-- The property of an attribute; the node of an empty one has no child. -/
def property (attr : PropertyName) (x : List Byte) : List (List Byte × Option (List Byte)) :=
  [(attr.name, if x = [] then none else some x)]

/-- Children up to the end tag, in their node. -/
def inNode (name : List Byte) (node : List Node → Node) (read : Option (List Node × List Byte)) :
    Option (Node × List Byte) :=
  match read with
  | none => none
  | some (children, t) => (closeTag name t).map fun r => (node children, r)

/-- An element with one attribute, from behind `<`. -/
theorem element_attribute (tag : TagName) (attr : PropertyName) {x : List Byte} (h : Quotable x)
    (inside : Scope → List Byte → Option (List Node × List Byte)) (scope : Scope) (z : List Byte) :
    element inside scope (tag.name ++ attr.text x z) =
      inNode tag.name (.element tag.name (property attr x)) (inside scope z) := by
  have hread := readName_of_valid tag.bytes_ok tag.valid (show isNameByte 32 = false by decide)
    (attr.name ++ 61 :: 34 :: (x ++ 34 :: 62 :: z))
  have hfuel : (attr.text x z).length + 1 = (attr.text x z).length - 1 + 2 := by
    simp [PropertyName.text]
  have hprefix := attr.not_declared
  have hstrip : strip (bytes "xmlns:") attr.name = none := by
    rw [strip, hprefix]
    rfl
  have hdeclared : declared [(attr.name, x)] = [] := by
    simp [declared, hstrip]
  have hproperties : properties scope [(attr.name, x)] = property attr x := by
    simp [properties, property, hprefix, attr.no_xmlns, localName_tag]
  have hempty : strip (bytes "/>") (62 :: z) = none := rfl
  have hopen : strip (bytes ">") (62 :: z) = some z := strip_append [62] z
  rw [element, PropertyName.text, hread, ← PropertyName.text]
  dsimp only
  rw [hfuel, readAttributes_one attr h]
  simp only [List.map_cons, List.map_nil, List.nodup_cons, List.not_mem_nil, not_false_eq_true,
    List.nodup_nil, and_self, if_true, hempty, hopen, hdeclared, List.nil_append, hproperties,
    localName_tag]
  rfl

/-- A start tag with an attribute, and what follows it. -/
def TagName.with (tag : TagName) (attr : PropertyName) (x z : List Byte) : List Byte :=
  60 :: (tag.name ++ attr.text x z)

theorem content_attribute (tag : TagName) (attr : PropertyName) {x : List Byte} (h : Quotable x)
    {y : List Byte} (hy : Verbatim y) (n : Nat) (scope : Scope) (z : List Byte) :
    content (n+3) scope (tag.with attr x (y ++ (tag.stop ++ z))) =
      (content (n+2) scope z).map fun q =>
        (.element tag.name (property attr x) (leaf y) :: q.1, q.2) := by
  obtain ⟨c, cs, hc, hb⟩ := tag.head_ok
  have hcons : tag.with attr x (y ++ (tag.stop ++ z)) =
      60 :: c :: (cs ++ attr.text x (y ++ (tag.stop ++ z))) := by
    simp [TagName.with, hc]
  have hrest : c :: (cs ++ attr.text x (y ++ (tag.stop ++ z))) =
      tag.name ++ attr.text x (y ++ (tag.stop ++ z)) := by
    rw [hc]
    rfl
  rw [hcons, content_element hb, hrest, element_attribute tag attr h, content_leaf hy, inNode]
  rw [closeTag_stop]
  rfl

/-- A document whose root has one attribute, with nothing behind the root. -/
theorem document_attribute (tag : TagName) (attr : PropertyName) {x : List Byte} (h : Quotable x)
    {z : List Byte} {children : List Node} (hl : legal (tag.with attr x z) = true)
    (hc : content (tag.with attr x z).length [bytes "xml"] z = some (children, tag.stop)) :
    document (tag.with attr x z) = some (.element tag.name (property attr x) children) := by
  have hstrip : strip (bytes "<") (tag.with attr x z) = some (tag.name ++ attr.text x z) :=
    strip_append [60] _
  have hstop := closeTag_stop tag []
  rw [List.append_nil] at hstop
  have hmisc : misc ([] : List Byte).length.succ [] = true := rfl
  rw [document, if_pos hl, hstrip]
  dsimp only
  rw [element_attribute tag attr h, hc, inNode]
  rw [hstop]
  simp only [Option.map_some]
  exact if_pos hmisc

end PowerGuru.Net.XmlText
