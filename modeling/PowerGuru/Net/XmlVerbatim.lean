import PowerGuru.Net.XmlCost

/-!
# Text that is read as it is written

A tag of letters is read as the tag. What stands behind it is the value of the element
exactly if it is character data without a reference or a line end, or else the element
takes more bytes than there are.
-/
namespace PowerGuru.Net.XmlText

open Lib.Bytes Lib.Utf8 Xml

/-! ## Tags of letters -/

/-- A name without a prefix. -/
structure TagName where
  name : List Byte
  bytes_ok : name.all isNameByte = true := by decide
  valid : validName name = true := by decide
  local_ok : 58 ∉ name := by decide

def TagName.start (tag : TagName) : List Byte := 60 :: (tag.name ++ [62])

def TagName.stop (tag : TagName) : List Byte := bytes "</" ++ tag.name ++ [62]

theorem TagName.ne_nil (tag : TagName) : tag.name ≠ [] := by
  intro h
  have hv := tag.valid
  rw [h] at hv
  exact absurd hv (by decide)

theorem readName_of_valid {name : List Byte} (hb : name.all isNameByte = true)
    (hv : validName name = true) {c : Byte} (hc : isNameByte c = false) (z : List Byte) :
    readName (name ++ c :: z) = some (name, c :: z) := by
  have hall := List.all_eq_true.mp hb
  have htake : (name ++ c :: z).takeWhile isNameByte = name := by
    rw [List.takeWhile_append_of_pos hall]
    simp [hc]
  have hdrop : (name ++ c :: z).dropWhile isNameByte = c :: z := by
    rw [List.dropWhile_append_of_pos hall]
    simp [hc]
  rw [readName, htake, hdrop]
  exact if_pos hv

theorem readName_tag (tag : TagName) (z : List Byte) :
    readName (tag.name ++ 62 :: z) = some (tag.name, 62 :: z) :=
  readName_of_valid tag.bytes_ok tag.valid (by decide) z

theorem localName_tag (tag : TagName) (scope : Scope) : localName scope tag.name = tag.name := by
  have hdrop : tag.name.dropWhile (· != 58) = [] := by
    apply List.dropWhile_eq_nil_iff.mpr
    intro b hb
    exact bne_iff_ne.mpr fun he => tag.local_ok (he ▸ hb)
  simp [localName, hdrop]

theorem readAttributes_end (n : Nat) (z : List Byte) :
    readAttributes (n+1) (62 :: z) = some ([], 62 :: z) := by
  have hdrop : (62 :: z).dropWhile isS = 62 :: z := rfl
  rw [readAttributes, hdrop]
  exact if_pos (Or.inl rfl)

/-- Children up to the end tag. -/
def enclosed (tag : TagName) (read : Option (List Node × List Byte)) : Option (Node × List Byte) :=
  match read with
  | none => none
  | some (children, t) =>
      (closeTag tag.name t).map fun r => (Node.element tag.name [] children, r)

theorem element_tag (tag : TagName) (inside : Scope → List Byte → Option (List Node × List Byte))
    (scope : Scope) (z : List Byte) :
    element inside scope (tag.name ++ 62 :: z) = enclosed tag (inside scope z) := by
  have hempty : strip (bytes "/>") (62 :: z) = none := rfl
  have hend : strip (bytes ">") (62 :: z) = some z := strip_append [62] z
  rw [element, readName_tag]
  dsimp only
  rw [readAttributes_end]
  simp only [List.map_nil, List.nodup_nil, if_true, hempty, hend, declared, properties,
    List.filterMap_nil, List.filter_nil, List.nil_append, localName_tag]
  rfl

/-- Markup that begins with a byte of a name is an element. -/
theorem content_element {c : Byte} (hb : isNameByte c = true) (n : Nat) (scope : Scope)
    (s : List Byte) :
    content (n+1) scope (60 :: c :: s) =
      (element (content n) scope (c :: s)).bind fun p =>
        (content n scope p.2).map fun q => (p.1 :: q.1, q.2) := by
  have hslash : c ≠ 47 := by intro he; rw [he] at hb; exact absurd hb (by decide)
  have hbang : c ≠ 33 := by intro he; rw [he] at hb; exact absurd hb (by decide)
  have hquest : c ≠ 63 := by intro he; rw [he] at hb; exact absurd hb (by decide)
  have hno : ¬ (60 :: c :: s = [] ∨ (bytes "</").isPrefixOf (60 :: c :: s) = true) := by
    simp [bytes, Ne.symm hslash]
  have h1 : strip (bytes "<!--") (60 :: c :: s) = none := by
    simp [strip, bytes, Ne.symm hbang]
  have h2 : strip (bytes "<![CDATA[") (60 :: c :: s) = none := by
    simp [strip, bytes, Ne.symm hbang]
  have h3 : strip (bytes "<?") (60 :: c :: s) = none := by
    simp [strip, bytes, Ne.symm hquest]
  have h4 : strip (bytes "<") (60 :: c :: s) = some (c :: s) := strip_append [60] _
  have hitem : item (content n) scope (60 :: c :: s) = element (content n) scope (c :: s) := by
    rw [item, h1, h2, h3, h4]
  rw [content, if_neg hno, if_pos (show (60 :: c :: s).head? = some 60 from rfl), hitem]
  cases element (content n) scope (c :: s) <;> rfl

theorem TagName.head_ok (tag : TagName) : ∃ c cs, tag.name = c :: cs ∧ isNameByte c = true := by
  obtain ⟨c, cs, hc⟩ := List.exists_cons_of_ne_nil tag.ne_nil
  exact ⟨c, cs, hc, List.all_eq_true.mp tag.bytes_ok c (by rw [hc]; simp)⟩

theorem content_tag (tag : TagName) (n : Nat) (scope : Scope) (z : List Byte) :
    content (n+1) scope (tag.start ++ z) =
      (enclosed tag (content n scope z)).bind fun p =>
        (content n scope p.2).map fun q => (p.1 :: q.1, q.2) := by
  obtain ⟨c, cs, hc, hb⟩ := tag.head_ok
  have hstart : tag.start ++ z = 60 :: c :: (cs ++ 62 :: z) := by simp [TagName.start, hc]
  have hrest : c :: (cs ++ 62 :: z) = tag.name ++ 62 :: z := by rw [hc]; rfl
  rw [hstart, content_element hb, hrest, element_tag]

theorem content_stop (tag : TagName) (n : Nat) (scope : Scope) (z : List Byte) :
    content (n+1) scope (tag.stop ++ z) = some ([], tag.stop ++ z) := by
  rw [content, if_pos]
  right
  simp [TagName.stop, bytes]

theorem closeTag_stop (tag : TagName) (z : List Byte) :
    closeTag tag.name (tag.stop ++ z) = some z := by
  have hstop : tag.stop ++ z = (bytes "</" ++ tag.name) ++ 62 :: z := by simp [TagName.stop]
  have hdrop : (62 :: z).dropWhile isS = 62 :: z := rfl
  rw [closeTag, hstop, strip_append]
  simp only [hdrop, if_true]

/-- Reading back what `content_tag` says. -/
theorem content_tag_inv {tag : TagName} {n : Nat} {scope : Scope} {z r : List Byte}
    {ns : List Node} (h : content n scope (tag.start ++ z) = some (ns, r)) :
    ∃ m children t u sibs, content m scope z = some (children, t) ∧
      closeTag tag.name t = some u ∧ content m scope u = some (sibs, r) ∧
      ns = .element tag.name [] children :: sibs := by
  cases n with
  | zero => exact absurd h (by simp [content])
  | succ m =>
    rw [content_tag, Option.bind_eq_some_iff] at h
    obtain ⟨⟨node, u⟩, hnode, hrest⟩ := h
    obtain ⟨⟨sibs, r'⟩, hsibs, he⟩ := Option.map_eq_some_iff.mp hrest
    obtain ⟨rfl, rfl⟩ : node :: sibs = ns ∧ r' = r := by simpa using he
    cases hchildren : content m scope z with
    | none => rw [hchildren] at hnode; exact absurd hnode (by simp [enclosed])
    | some p =>
      obtain ⟨children, t⟩ := p
      rw [hchildren] at hnode
      obtain ⟨v, hv, hn⟩ := Option.map_eq_some_iff.mp hnode
      obtain ⟨rfl, rfl⟩ := Prod.mk.inj hn
      exact ⟨m, children, t, v, sibs, hchildren, hv, hsibs, rfl⟩

/-! ## Verbatim text -/

/-- Character data without a reference, on one line. -/
def Verbatim (x : List Byte) : Prop :=
  60 ∉ x ∧ 38 ∉ x ∧ LF ∉ x ∧ CR ∉ x ∧ occursIn (bytes "]]>") x = false

instance (x : List Byte) : Decidable (Verbatim x) :=
  inferInstanceAs (Decidable (60 ∉ x ∧ 38 ∉ x ∧ LF ∉ x ∧ CR ∉ x ∧ _))

/-- The children of an element with this text. -/
def leaf (x : List Byte) : List Node := if x = [] then [] else [.text x]

theorem firstLine_of_not_mem {x : List Byte} (h : LF ∉ x) : firstLine x = x := by
  apply List.takeWhile_eq_self_iff.mpr
  intro b hb
  exact bne_iff_ne.mpr fun he => h (he ▸ hb)

theorem valueOf_leaf {x : List Byte} (h : LF ∉ x) : valueOf (leaf x) = x := by
  by_cases hx : x = []
  · rw [leaf, if_pos hx, hx]
    rfl
  · rw [leaf, if_neg hx]
    exact firstLine_of_not_mem h

theorem takeWhile_lt (x z : List Byte) :
    (x ++ 60 :: z).takeWhile (· != 60) = x.takeWhile (· != 60) := by
  induction x with
  | nil => rfl
  | cons b x ih =>
    by_cases hb : b = 60
    · simp [hb]
    · simp [hb, ih]

theorem takeWhile_lt_of_not_mem {x : List Byte} (h : 60 ∉ x) : x.takeWhile (· != 60) = x := by
  apply List.takeWhile_eq_self_iff.mpr
  intro b hb
  exact bne_iff_ne.mpr fun he => h (he ▸ hb)

theorem chars_verbatim {x : List Byte} (h : Verbatim x) (z : List Byte) :
    chars (x ++ 60 :: z) = some (.text x, 60 :: z) := by
  obtain ⟨hlt, hamp, -, hcr, hend⟩ := h
  have htake : (x ++ 60 :: z).takeWhile (· != 60) = x := by
    rw [takeWhile_lt, takeWhile_lt_of_not_mem hlt]
  have hdrop : (x ++ 60 :: z).dropWhile (· != 60) = 60 :: z := by
    rw [List.dropWhile_append_of_pos (List.takeWhile_eq_self_iff.mp (takeWhile_lt_of_not_mem hlt))]
    simp
  rw [chars]
  simp [htake, hdrop, hend, normalize_of_not_mem hcr, expand_of_not_mem hamp]

theorem content_verbatim {x : List Byte} (h : Verbatim x) (hx : x ≠ []) (n : Nat) (scope : Scope)
    (z : List Byte) :
    content (n+1) scope (x ++ 60 :: z) =
      (content n scope (60 :: z)).map fun p => (Node.text x :: p.1, p.2) := by
  obtain ⟨b, y, rfl⟩ := List.exists_cons_of_ne_nil hx
  have hb : b ≠ 60 := fun he => h.1 (by simp [he])
  have hno : ¬ (b :: y ++ 60 :: z = [] ∨
      (bytes "</").isPrefixOf (b :: y ++ 60 :: z) = true) := by
    simp [bytes, Ne.symm hb]
  have hhead : ¬ (b :: y ++ 60 :: z).head? = some 60 := by simpa using hb
  rw [content, if_neg hno, if_neg hhead, chars_verbatim h]

theorem content_leaf {x : List Byte} (h : Verbatim x) (tag : TagName) (n : Nat) (scope : Scope)
    (z : List Byte) :
    content (n+2) scope (x ++ (tag.stop ++ z)) = some (leaf x, tag.stop ++ z) := by
  by_cases hx : x = []
  · rw [hx, List.nil_append, content_stop]
    rfl
  · have hstop : tag.stop ++ z = 60 :: (47 :: (tag.name ++ [62]) ++ z) := rfl
    rw [hstop, content_verbatim h hx, ← hstop, content_stop, leaf, if_neg hx]
    rfl

/-- The same whatever the fuel, if it was enough. -/
theorem content_leaf_inv {x : List Byte} (h : Verbatim x) {tag : TagName} {n : Nat} {scope : Scope}
    {z r : List Byte} {ns : List Node}
    (hc : content n scope (x ++ (tag.stop ++ z)) = some (ns, r)) :
    ns = leaf x ∧ r = tag.stop ++ z := by
  have hall : ∀ m, content (m+2) scope (x ++ (tag.stop ++ z)) = some (ns, r) →
      ns = leaf x ∧ r = tag.stop ++ z := by
    intro m hm
    rw [content_leaf h] at hm
    obtain ⟨rfl, rfl⟩ := Prod.mk.inj (Option.some.inj hm)
    exact ⟨rfl, rfl⟩
  match n, hc with
  | 0, hc => exact absurd hc (by simp [content])
  | 1, hc =>
    by_cases hx : x = []
    · rw [hx, List.nil_append, content_stop] at hc
      obtain ⟨rfl, rfl⟩ := Prod.mk.inj (Option.some.inj hc)
      rw [leaf, if_pos hx]
      exact ⟨rfl, rfl⟩
    · have hstop : tag.stop ++ z = 60 :: (47 :: (tag.name ++ [62]) ++ z) := rfl
      rw [hstop, content_verbatim h hx] at hc
      exact absurd hc (by simp [content])
  | m + 2, hc => exact hall m hc

theorem size_firstLine_le (x : List Byte) : size (firstLine x) ≤ size x := by
  have h := size_split (· != LF) x
  unfold firstLine
  omega

/-- Character data whose value is the text as it is written. Every step from the raw text to
the value may only lose bytes. -/
theorem verbatim_of_firstLine {x c : List Byte}
    (hc : expand none (normalize (x.takeWhile (· != 60))) = some c) (hvalue : firstLine c = x)
    (hend : occursIn (bytes "]]>") (x.takeWhile (· != 60)) = false) : Verbatim x := by
  have hexpand := expand_size hc
  have hnormal := size_normalize (x.takeWhile (· != 60))
  have hline := size_firstLine_le c
  have hraw := size_split (· != 60) x
  rw [hvalue] at hline
  have htake : x.takeWhile (· != 60) = x := takeWhile_of_size (by omega)
  rw [htake] at hexpand hnormal hend
  obtain ⟨hcn, hamp⟩ := hexpand.2 (by omega)
  have hcx : c = x := by
    rw [← hvalue]
    exact (takeWhile_of_size (show size c ≤ size (firstLine c) by rw [hvalue]; omega)).symm
  have hxn : normalize x = x := by rw [← hcn, hcx]
  rw [hxn] at hamp
  refine ⟨?_, hamp, ?_, ?_, hend⟩
  · intro hlt
    have hall := List.takeWhile_eq_self_iff.mp htake 60 hlt
    exact absurd hall (by decide)
  · intro hlf
    have hall := List.takeWhile_eq_self_iff.mp (hcx ▸ hvalue) LF hlf
    exact absurd hall (by decide)
  · rw [← hxn]
    exact cr_not_mem_normalize x

/-- What stands between tags is the value of the element only if it is verbatim, or else
costs more than it has bytes. -/
theorem verbatim_or_costly {x z r : List Byte} {n : Nat} {scope : Scope} {ns : List Node}
    (h : content n scope (x ++ 60 :: z) = some (ns, r)) (hv : valueOf ns = x) :
    Verbatim x ∨ size x + 8 + size r ≤ size (x ++ 60 :: z) := by
  by_cases hx : x = []
  · left
    rw [hx]
    decide
  cases n with
  | zero => exact absurd h (by simp [content])
  | succ n =>
    rcases content_succ_cases h with ⟨rfl, -⟩ | ⟨node, t, ns', hnode, hrest, rfl⟩
    · exact absurd hv.symm hx
    have hvalue : firstLine node.getContent = x := hv
    have hsibs := fits_content n scope t ns' r hrest
    split at hnode
    · right
      have hcontent : node.getContent ≠ [] := by
        intro hnil
        rw [hnil] at hvalue
        exact hx hvalue.symm
      have hcost := (costs_item (fits_content n) hnode).2 hcontent
      have hline := size_firstLine_le node.getContent
      rw [hvalue] at hline
      omega
    · left
      simp only [chars, takeWhile_lt] at hnode
      split at hnode
      · exact absurd hnode (by simp)
      next hend =>
      obtain ⟨c, hc, hn⟩ := Option.map_eq_some_iff.mp hnode
      obtain ⟨rfl, -⟩ := Prod.mk.inj hn
      exact verbatim_of_firstLine hc hvalue (by simpa using hend)

/-! ## Legal characters -/

def isAscii (b : Byte) : Bool := b.toNat < 0x80 && isChar b.toNat

theorem legal_cons {b : Byte} (h : isAscii b = true) (s : List Byte) :
    legal (b :: s) = legal s := by
  simp only [isAscii, Bool.and_eq_true, decide_eq_true_eq] at h
  rw [legal, legal, codes_ascii h.1]
  cases codes none s with
  | none => rfl
  | some cs => simp [h.2]

theorem legal_ascii_append {w : List Byte} (h : w.all isAscii = true) (s : List Byte) :
    legal (w ++ s) = legal s := by
  induction w with
  | nil => rfl
  | cons b w ih =>
    rw [List.all_cons, Bool.and_eq_true] at h
    rw [List.cons_append, legal_cons h.1, ih h.2]

theorem legal_append {b : Byte} (hb : b.toNat < 0x80) (x y : List Byte) :
    legal (x ++ b :: y) = (legal x && legal (b :: y)) := by
  rw [legal, legal, legal, codes_append hb]
  cases codes none x with
  | none => rfl
  | some cs =>
    cases codes none (b :: y) with
    | none => simp
    | some ds => simp

/-- Plain text between two pieces of markup. -/
theorem legal_between {w : List Byte} (h : w.all isAscii = true) (x y : List Byte) :
    legal (w ++ (x ++ 60 :: y)) = (legal x && legal (60 :: y)) := by
  rw [legal_ascii_append h, legal_append (by decide)]

theorem nul_not_mem_of_legal {s : List Byte} (h : legal s = true) : NUL ∉ s := by
  intro hm
  unfold legal at h
  split at h
  · next cs hcs =>
    have hchar := List.all_eq_true.mp h _ (mem_codes hcs hm (by decide))
    exact absurd hchar (by decide)
  · exact absurd h (by simp)

/-! ## Documents -/

theorem document_inv {tag : TagName} {z : List Byte} {root : Node}
    (h : document (tag.start ++ z) = some root) :
    legal (tag.start ++ z) = true ∧ ∃ n children t r,
      content n [bytes "xml"] z = some (children, t) ∧ closeTag tag.name t = some r ∧
        root = .element tag.name [] children := by
  have hstart : tag.start ++ z = 60 :: (tag.name ++ 62 :: z) := by simp [TagName.start]
  have hstrip : strip (bytes "<") (60 :: (tag.name ++ 62 :: z)) = some (tag.name ++ 62 :: z) :=
    strip_append [60] _
  rw [document] at h
  split at h
  · next hl =>
    refine ⟨hl, ?_⟩
    rw [hstart, hstrip] at h
    dsimp only at h
    rw [element_tag] at h
    split at h
    · next node r hnode =>
      split at h
      · obtain rfl := Option.some.inj h
        cases hc : content (60 :: (tag.name ++ 62 :: z)).length [bytes "xml"] z with
        | none => rw [hc] at hnode; exact absurd hnode (by simp [enclosed])
        | some p =>
          obtain ⟨children, t⟩ := p
          rw [hc] at hnode
          obtain ⟨u, hu, he⟩ := Option.map_eq_some_iff.mp hnode
          obtain ⟨rfl, rfl⟩ := Prod.mk.inj he
          exact ⟨_, children, t, u, hc, hu, rfl⟩
      · exact absurd h (by simp)
    · exact absurd h (by simp)
  · exact absurd h (by simp)

theorem document_intro {tag : TagName} {z : List Byte} {children : List Node}
    (hl : legal (tag.start ++ z) = true)
    (hc : content (tag.start ++ z).length [bytes "xml"] z =
      some (children, tag.stop ++ [LF])) :
    document (tag.start ++ z) = some (.element tag.name [] children) := by
  have hstart : tag.start ++ z = 60 :: (tag.name ++ 62 :: z) := by simp [TagName.start]
  have hstrip : strip (bytes "<") (60 :: (tag.name ++ 62 :: z)) = some (tag.name ++ 62 :: z) :=
    strip_append [60] _
  have hmisc : misc ([LF].length + 1) [LF] = true := rfl
  rw [document, if_pos hl, hstart, hstrip]
  dsimp only
  rw [element_tag, ← hstart, hc, enclosed, closeTag_stop]
  simp only [Option.map_some, hmisc, if_true]

end PowerGuru.Net.XmlText
