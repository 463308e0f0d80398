import PowerGuru.Net.XmlAttribute

/-!
# A tag that no document has

Whatever stands in front of a `<` with no element behind it, every construct of the parser ends
before it, so a text with it is not well formed. What follows it must not be the end of a comment,
of a section or of an instruction that hides it.
-/
namespace PowerGuru.Net.XmlBarrier

open Lib.Bytes XmlText

/-- Nothing that could have begun before it ends in the text. -/
def EndsNothing (text : List Byte) : Prop :=
  ∀ word ∈ [bytes "--", bytes "]]>", bytes "?>"], occursIn word text = false

instance (text : List Byte) : Decidable (EndsNothing text) := List.decidableBAll _ _

/-- A text from `<` to the end of the document, where no element begins. -/
structure Barrier (wall : List Byte) : Prop where
  marked : wall.head? = some 60
  /-- Neither an end tag nor one of the other constructs that begin with `<`. -/
  opens : wall.tail.head?.all (fun b => b != 33 && b != 47 && b != 63) = true
  ends : EndsNothing wall
  no_element : ∀ inside scope, element inside scope wall.tail = none

/-! ## Words -/

theorem occursIn_of_part {word s : List Byte} (h : word <:+: s) : occursIn word s = true := by
  induction s with
  | nil => rw [List.infix_nil.mp h]; rfl
  | cons b s ih =>
    rw [occursIn, Bool.or_eq_true]
    rcases List.infix_cons_iff.mp h with hp | hi
    · exact Or.inl (List.isPrefixOf_iff_prefix.mpr hp)
    · exact Or.inr (ih hi)

/-- A word begins with its first byte. -/
theorem occursIn_append {c : Byte} {x : List Byte} (h : c ∉ x) (word y : List Byte) :
    occursIn (c :: word) (x ++ y) = occursIn (c :: word) y := by
  induction x with
  | nil => rfl
  | cons b x ih =>
    obtain ⟨hb, hx⟩ := List.ne_and_not_mem_of_not_mem_cons h
    have hp : (c :: word).isPrefixOf (b :: (x ++ y)) = false := by
      rw [List.isPrefixOf, beq_eq_false_iff_ne.mpr hb, Bool.false_and]
    rw [List.cons_append, occursIn, hp, Bool.false_or, ih hx]

theorem EndsNothing.append {x y : List Byte} (hy : EndsNothing y)
    (hx : 45 ∉ x ∧ 93 ∉ x ∧ 63 ∉ x) : EndsNothing (x ++ y) := by
  obtain ⟨hdash, hbracket, hmark⟩ := hx
  intro word hword
  simp only [List.mem_cons, List.not_mem_nil, or_false] at hword
  rcases hword with rfl | rfl | rfl
  · exact (occursIn_append hdash _ y).trans (hy (bytes "--") (by simp))
  · exact (occursIn_append hbracket _ y).trans (hy (bytes "]]>") (by simp))
  · exact (occursIn_append hmark _ y).trans (hy (bytes "?>") (by simp))

section
variable {wall : List Byte} (hw : Barrier wall)
include hw

/-! ## What lies in front of the wall -/

/-- What is read is in front of the wall, or it is across its first byte. -/
theorem Barrier.ahead {x r : List Byte} (h : wall <:+ x ++ r) (hx : 60 ∉ x) : wall <:+ r := by
  obtain ⟨p, hp⟩ := h
  rcases List.append_eq_append_iff.mp hp with ⟨u, hu, hr⟩ | ⟨u, -, hr⟩
  · cases u with
    | nil =>
      rw [hr]
      exact List.suffix_refl r
    | cons b u =>
      have hb : b = 60 := by
        have hmarked := hw.marked
        rw [hr, List.cons_append, List.head?_cons] at hmarked
        exact Option.some.inj hmarked
      refine absurd ?_ hx
      rw [hu, hb]
      exact List.mem_append_right _ List.mem_cons_self
  · exact ⟨u, hr.symm⟩

theorem Barrier.ahead_dropWhile {s : List Byte} (h : wall <:+ s) {p : Byte → Bool}
    (hp : p 60 = false) : wall <:+ s.dropWhile p := by
  rw [← List.takeWhile_append_dropWhile (p := p) (l := s)] at h
  refine hw.ahead h fun hm => ?_
  have ht := List.mem_takeWhile_imp hm
  rw [hp] at ht
  exact absurd ht (by simp)

theorem Barrier.ahead_cons {b : Byte} {s : List Byte} (h : wall <:+ b :: s) (hb : b ≠ 60) :
    wall <:+ s :=
  hw.ahead (x := [b]) h (by simpa using hb.symm)

/-- The wall is none of the words that begin a construct. -/
theorem Barrier.ahead_word (word : List Byte) {b : Byte} {s : List Byte}
    (h : wall <:+ 60 :: b :: (word ++ s)) (hb : b = 33 ∨ b = 47 ∨ b = 63)
    (hword : 60 ∉ b :: word) : wall <:+ s := by
  rcases List.suffix_cons_iff.mp h with he | ht
  · have hopens := hw.opens
    rw [he, List.tail_cons, List.head?_cons, Option.all_some] at hopens
    rcases hb with rfl | rfl | rfl
    all_goals exact absurd hopens (by decide)
  · exact hw.ahead (x := b :: word) ht hword

theorem Barrier.ahead_cut {c : Byte} {word s x r : List Byte}
    (hcut : cut (c :: word) s = some (x, r)) (h : wall <:+ s)
    (hword : 60 ∉ c :: word) (hno : occursIn (c :: word) wall = false) : wall <:+ r := by
  rw [eq_of_cut hcut, ← List.append_assoc] at h
  obtain ⟨p, hp⟩ := h
  rcases List.append_eq_append_iff.mp hp with ⟨u, hu, hr⟩ | ⟨u, -, hr⟩
  · rcases List.append_eq_append_iff.mp hu with ⟨v, -, hv⟩ | ⟨v, hv, hx⟩
    · exact hw.ahead ⟨v, by rw [hv, hr, List.append_assoc]⟩ hword
    · refine absurd (occursIn_of_part ⟨v, r, ?_⟩) (by rw [hno]; simp)
      rw [hr, hx]
  · exact ⟨u, hr.symm⟩

/-! ## Constructs -/

theorem Barrier.ahead_readName {s name t : List Byte} (hr : readName s = some (name, t))
    (h : wall <:+ s) : wall <:+ t := by
  rw [readName] at hr
  split at hr
  · obtain ⟨-, rfl⟩ := Prod.mk.inj (Option.some.inj hr)
    exact hw.ahead_dropWhile h (by decide)
  · exact absurd hr (by simp)

theorem Barrier.ahead_readValue {s v t : List Byte} (hr : readValue s = some (v, t))
    (h : wall <:+ s) : wall <:+ t := by
  rw [readValue] at hr
  split at hr
  · exact absurd hr (by simp)
  next e s1 h1 =>
  split at hr
  · exact absurd hr (by simp)
  next q s2 h2 =>
  dsimp only at hr
  split at hr
  · exact absurd hr (by simp)
  next q' rest h3 =>
  split at hr
  · next hq =>
    obtain ⟨rfl, hquote, hraw⟩ := hq
    obtain ⟨value, -, he⟩ := Option.map_eq_some_iff.mp hr
    obtain ⟨-, rfl⟩ := Prod.mk.inj he
    have hq60 : q ≠ 60 := by
      rcases hquote with rfl | rfl
      · decide
      · decide
    have hq' : q' = q := by
      have hhead := List.head?_dropWhile_not (· != q) s2
      rw [h3] at hhead
      simpa using hhead
    have hs1 := hw.ahead_dropWhile h (p := isS) (by decide)
    rw [h1] at hs1
    have hs2 := hw.ahead_dropWhile (hw.ahead_cons hs1 (by decide)) (p := isS) (by decide)
    rw [h2] at hs2
    have hs3 := hw.ahead_cons hs2 hq60
    rw [← List.takeWhile_append_dropWhile (p := (· != q)) (l := s2)] at hs3
    have hrest := hw.ahead hs3 hraw
    rw [h3, hq'] at hrest
    exact hw.ahead_cons hrest hq60
  · exact absurd hr (by simp)

theorem Barrier.ahead_readAttributes {n : Nat} {s t : List Byte}
    {attributes : List (List Byte × List Byte)} (hr : readAttributes n s = some (attributes, t))
    (h : wall <:+ s) : wall <:+ t := by
  induction n generalizing s attributes with
  | zero => exact absurd hr (by simp [readAttributes])
  | succ n ih =>
    have hdrop := hw.ahead_dropWhile h (p := isS) (by decide)
    rw [readAttributes] at hr
    split at hr
    · obtain ⟨-, rfl⟩ := Prod.mk.inj (Option.some.inj hr)
      exact hdrop
    split at hr
    · exact absurd hr (by simp)
    split at hr
    · exact absurd hr (by simp)
    next name u hname =>
    split at hr
    · exact absurd hr (by simp)
    next value v hvalue =>
    obtain ⟨⟨as, t'⟩, has, he⟩ := Option.map_eq_some_iff.mp hr
    obtain ⟨-, rfl⟩ := Prod.mk.inj he
    exact ih has (hw.ahead_readValue hvalue (hw.ahead_readName hname hdrop))

theorem Barrier.ahead_closeTag {name s r : List Byte} (hname : 60 ∉ name)
    (hr : closeTag name s = some r) (h : wall <:+ s) : wall <:+ r := by
  rw [closeTag] at hr
  split at hr
  · exact absurd hr (by simp)
  next t ht =>
  have hs : s = 60 :: 47 :: (name ++ t) := strip_eq_some_iff.mp ht
  rw [hs] at h
  have hnext := hw.ahead_word name h (by decide) (by simpa using hname)
  have hdrop := hw.ahead_dropWhile hnext (p := isS) (by decide)
  split at hr
  · next b u hu =>
    split at hr
    · next hb =>
      rw [hu, hb] at hdrop
      rw [← Option.some.inj hr]
      exact hw.ahead_cons hdrop (by decide)
    · exact absurd hr (by simp)
  · exact absurd hr (by simp)

theorem Barrier.ahead_comment {s r : List Byte} {node : Xml.Node}
    (hr : comment s = some (node, r)) (h : wall <:+ s) : wall <:+ r := by
  rw [comment] at hr
  split at hr
  · next x b u hcut =>
    split at hr
    · next hb =>
      obtain ⟨-, rfl⟩ := Prod.mk.inj (Option.some.inj hr)
      have hcons := hw.ahead_cut hcut h (by decide) (hw.ends (bytes "--") (by simp))
      exact hw.ahead_cons hcons (by rw [hb]; decide)
    · exact absurd hr (by simp)
  · exact absurd hr (by simp)

theorem Barrier.ahead_cdata {s r : List Byte} {node : Xml.Node}
    (hr : cdata s = some (node, r)) (h : wall <:+ s) : wall <:+ r := by
  obtain ⟨⟨x, u⟩, hcut, he⟩ := Option.map_eq_some_iff.mp hr
  obtain ⟨-, rfl⟩ := Prod.mk.inj he
  exact hw.ahead_cut hcut h (by decide) (hw.ends (bytes "]]>") (by simp))

theorem Barrier.ahead_instruction {s r : List Byte} {node : Xml.Node}
    (hr : instruction s = some (node, r)) (h : wall <:+ s) : wall <:+ r := by
  rw [instruction] at hr
  split at hr
  · exact absurd hr (by simp)
  next x u hcut =>
  split at hr
  · exact absurd hr (by simp)
  split at hr
  · obtain ⟨-, rfl⟩ := Prod.mk.inj (Option.some.inj hr)
    exact hw.ahead_cut hcut h (by decide) (hw.ends (bytes "?>") (by simp))
  · exact absurd hr (by simp)

theorem Barrier.ahead_chars {s r : List Byte} {node : Xml.Node}
    (hr : chars s = some (node, r)) (h : wall <:+ s) : wall <:+ r := by
  rw [chars] at hr
  split at hr
  · exact absurd hr (by simp)
  · obtain ⟨x, -, he⟩ := Option.map_eq_some_iff.mp hr
    obtain ⟨-, rfl⟩ := Prod.mk.inj he
    exact hw.ahead_dropWhile h (by decide)

/-! ## Content -/

theorem Barrier.ahead_element {inside : Scope → List Byte → Option (List Xml.Node × List Byte)}
    (hin : ∀ scope s ns r, inside scope s = some (ns, r) → wall <:+ s → wall <:+ r)
    {scope : Scope} {s r : List Byte} {node : Xml.Node}
    (hr : element inside scope s = some (node, r)) (h : wall <:+ s) : wall <:+ r := by
  rw [element] at hr
  split at hr
  · exact absurd hr (by simp)
  next name t hname =>
  have hvalid : validName name = true := by
    rw [readName] at hname
    split at hname
    · next hv =>
      obtain ⟨rfl, -⟩ := Prod.mk.inj (Option.some.inj hname)
      exact hv
    · exact absurd hname (by simp)
  have hbehind := hw.ahead_readName hname h
  split at hr
  · exact absurd hr (by simp)
  next attributes t' hattributes =>
  have hend := hw.ahead_readAttributes hattributes hbehind
  dsimp only at hr
  split at hr
  · split at hr
    · next u hu =>
      obtain ⟨-, rfl⟩ := Prod.mk.inj (Option.some.inj hr)
      rw [strip_eq_some_iff.mp hu] at hend
      exact hw.ahead hend (by decide)
    split at hr
    · exact absurd hr (by simp)
    next u hu =>
    rw [strip_eq_some_iff.mp hu] at hend
    have hstart := hw.ahead hend (by decide)
    split at hr
    · exact absurd hr (by simp)
    next children v hchildren =>
    obtain ⟨r', hclose, he⟩ := Option.map_eq_some_iff.mp hr
    obtain ⟨-, rfl⟩ := Prod.mk.inj he
    have hno : 60 ∉ name := not_mem_name hvalid (by decide)
    exact hw.ahead_closeTag hno hclose (hin _ _ _ _ hchildren hstart)
  · exact absurd hr (by simp)

/-- At the wall there is no element, and in front of it each ends before it. -/
theorem Barrier.ahead_open {inside : Scope → List Byte → Option (List Xml.Node × List Byte)}
    (hin : ∀ scope s ns r, inside scope s = some (ns, r) → wall <:+ s → wall <:+ r)
    {scope : Scope} {s r : List Byte} {node : Xml.Node}
    (hr : element inside scope s = some (node, r)) (h : wall <:+ 60 :: s) : wall <:+ r := by
  rcases List.suffix_cons_iff.mp h with he | ht
  · have hno := hw.no_element inside scope
    rw [he, List.tail_cons, hr] at hno
    exact absurd hno (by simp)
  · exact hw.ahead_element hin hr ht

theorem Barrier.ahead_item {inside : Scope → List Byte → Option (List Xml.Node × List Byte)}
    (hin : ∀ scope s ns r, inside scope s = some (ns, r) → wall <:+ s → wall <:+ r)
    {scope : Scope} {s r : List Byte} {node : Xml.Node}
    (hr : item inside scope s = some (node, r)) (h : wall <:+ s) : wall <:+ r := by
  rw [item] at hr
  split at hr
  · next t ht =>
    rw [strip_eq_some_iff.mp ht] at h
    exact hw.ahead_comment hr (hw.ahead_word (bytes "--") h (by decide) (by decide))
  split at hr
  · next t ht =>
    rw [strip_eq_some_iff.mp ht] at h
    exact hw.ahead_cdata hr (hw.ahead_word (bytes "[CDATA[") h (by decide) (by decide))
  split at hr
  · next t ht =>
    rw [strip_eq_some_iff.mp ht] at h
    exact hw.ahead_instruction hr (hw.ahead_word [] h (by decide) (by decide))
  split at hr
  · next t ht =>
    rw [strip_eq_some_iff.mp ht] at h
    exact hw.ahead_open hin hr h
  · exact absurd hr (by simp)

theorem Barrier.ahead_content {n : Nat} {scope : Scope} {s r : List Byte} {ns : List Xml.Node}
    (hr : content n scope s = some (ns, r)) (h : wall <:+ s) : wall <:+ r := by
  induction n generalizing scope s ns r with
  | zero => exact absurd hr (by simp [content])
  | succ n ih =>
    rcases content_succ_cases hr with ⟨-, rfl⟩ | ⟨node, t, ns', hnode, hrest, -⟩
    · exact h
    refine ih hrest ?_
    split at hnode
    · exact hw.ahead_item (fun _ _ _ _ hin hs => ih hin hs) hnode h
    · exact hw.ahead_chars hnode h

/-- Behind the root there are no elements at all. -/
theorem Barrier.misc_eq_false {n : Nat} {s : List Byte} (h : wall <:+ s) : misc n s = false := by
  induction n generalizing s with
  | zero => rfl
  | succ n ih =>
    have hdrop := hw.ahead_dropWhile h (p := isS) (by decide)
    have hne : s.dropWhile isS ≠ [] := by
      intro he
      rw [he, List.suffix_nil] at hdrop
      exact absurd (hdrop ▸ hw.marked) (by simp)
    rw [misc, if_neg hne]
    split
    · next u hu =>
      rw [strip_eq_some_iff.mp hu] at hdrop
      have hu' := hw.ahead_word (bytes "--") hdrop (by decide) (by decide)
      split
      · next r hr => exact ih (hw.ahead_comment hr hu')
      · rfl
    split
    · next u hu =>
      rw [strip_eq_some_iff.mp hu] at hdrop
      have hu' := hw.ahead_word [] hdrop (by decide) (by decide)
      split
      · next r hr => exact ih (hw.ahead_instruction hr hu')
      · rfl
    · rfl

/-- No document comes to such an end. -/
theorem Barrier.document_eq_none (front : List Byte) : document (front ++ wall) = none := by
  rw [document]
  split
  · split
    · rfl
    next t ht =>
    have hwall : wall <:+ 60 :: t := ⟨front, strip_eq_some_iff.mp ht⟩
    split
    · next root r hroot =>
      have hr := hw.ahead_open (fun _ _ _ _ hin hs => hw.ahead_content hin hs) hroot hwall
      rw [if_neg (by rw [hw.misc_eq_false hr]; simp)]
    · rfl
  · rfl

end

/-! ## A digit for an attribute -/

theorem no_element_digit {name : List Byte} (hname : name.all isNameByte = true) {d : Byte}
    (hd : d ∈ bytes "0123456789") (rest : List Byte)
    (inside : Scope → List Byte → Option (List Xml.Node × List Byte)) (scope : Scope) :
    element inside scope (name ++ 32 :: d :: 62 :: rest) = none := by
  have hdigit : ∀ d ∈ bytes "0123456789", isS d = false ∧ isNameByte d = true ∧
      validName [d] = false ∧ d ≠ 62 ∧ d ≠ 47 := by decide +kernel
  obtain ⟨hblank, hbyte, hinvalid, hgt, hslash⟩ := hdigit d hd
  have hall : ∀ b ∈ name, isNameByte b = true := List.all_eq_true.mp hname
  have hstart : readName (name ++ 32 :: d :: 62 :: rest) =
      if validName name = true then some (name, 32 :: d :: 62 :: rest) else none := by
    have hstop : (32 :: d :: 62 :: rest).takeWhile isNameByte = [] :=
      List.takeWhile_cons_of_neg (by decide)
    have hdrop : (32 :: d :: 62 :: rest).dropWhile isNameByte = 32 :: d :: 62 :: rest :=
      List.dropWhile_cons_of_neg (by decide)
    rw [readName, List.takeWhile_append_of_pos hall, List.dropWhile_append_of_pos hall, hstop,
      hdrop, List.append_nil]
  have hattribute : readName (d :: 62 :: rest) = none := by
    have htake : (d :: 62 :: rest).takeWhile isNameByte = [d] := by
      rw [List.takeWhile_cons_of_pos hbyte, List.takeWhile_cons_of_neg (by decide)]
    rw [readName, htake, if_neg (by rw [hinvalid]; simp)]
  have hattributes : ∀ n, readAttributes (n + 1) (32 :: d :: 62 :: rest) = none := by
    intro n
    have hdrop : (32 :: d :: 62 :: rest).dropWhile isS = d :: 62 :: rest := by
      rw [List.dropWhile_cons_of_pos (by decide), List.dropWhile_cons_of_neg (by rw [hblank]; simp)]
    simp [readAttributes, hdrop, hgt, hslash, isS, hattribute]
  rw [element, hstart]
  split_ifs with hv
  · simp only [hattributes]
  · rfl

end PowerGuru.Net.XmlBarrier
