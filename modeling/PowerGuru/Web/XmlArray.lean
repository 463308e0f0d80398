import Mathlib.Data.List.DropRight
import PowerGuru.Lib.Bytes

/-!
# `xml2Array` and `getXmlFromArray`

The arrays of PHP, the handlers that PHP's XML parser calls, and the text of an array. Of the
parser only what it is documented to do is known.
-/
namespace PowerGuru.Web.XmlArray

open Lib.Bytes

/-! ## Arrays -/

/-- An entry of `arrOutput`. An element that was only written to in part lacks the rest. -/
structure Entry where
  name : Option (List Byte)
  attrs : Option (List (List Byte × List Byte))
  tagData : Option (List Byte)
  children : List Entry

/-- An element that does not exist, as a write finds it. -/
def Entry.unset : Entry := ⟨none, none, none, []⟩

/-- An array with numbered elements, in the order in which they were inserted. -/
structure PhpArray where
  items : List (Int × Entry)
  /-- `nNextFreeElement`. -/
  next : Int

def PhpArray.empty : PhpArray := ⟨[], 0⟩

def PhpArray.count (a : PhpArray) : Int := a.items.length

/-- `array_push`. -/
def PhpArray.push (a : PhpArray) (e : Entry) : PhpArray := ⟨a.items ++ [(a.next, e)], a.next + 1⟩

def PhpArray.get (a : PhpArray) (k : Int) : Entry := (a.items.lookup k).getD Entry.unset

/-- A write to a part of `a[k]`, which comes last if it is new. -/
def PhpArray.write (a : PhpArray) (k : Int) (f : Entry → Entry) : PhpArray :=
  if (a.items.lookup k).isSome = true then
    { a with items := a.items.map fun p => if p.1 = k then (k, f p.2) else p }
  else ⟨a.items ++ [(k, f Entry.unset)], max a.next (k + 1)⟩

/-- `array_pop` takes the last element. Its key becomes free if it was the highest. -/
def PhpArray.pop (a : PhpArray) : PhpArray :=
  match a.items.getLast? with
  | none => a
  | some p => ⟨a.items.dropLast, if p.1 = a.next - 1 then a.next - 1 else a.next⟩

/-! ## Handlers -/

inductive Event where
  | start (name : List Byte) (attrs : List (List Byte × List Byte))
  | data (tagData : List Byte)
  | stop (name : List Byte)

def tagOpen (a : PhpArray) (name : List Byte) (attrs : List (List Byte × List Byte)) : PhpArray :=
  a.push ⟨some name, some attrs, none, []⟩

/-- The blanks that `trim` takes off both ends. -/
def isBlank (b : Byte) : Bool := b == 32 || b == 9 || b == LF || b == CR || b == NUL || b == 11

def trim (s : List Byte) : List Byte := (s.dropWhile isBlank).rdropWhile isBlank

/-- A text that is true. -/
def truthy (s : List Byte) : Bool := s != [] && s != bytes "0"

def tagData (a : PhpArray) (data : List Byte) : PhpArray :=
  if truthy (trim data) = true then
    match (a.get (a.count - 1)).tagData with
    | some old => a.write (a.count - 1) fun e => { e with tagData := some (old ++ data) }
    | none => a.write (a.count - 1) fun e => { e with tagData := some data }
  else a

def tagClosed (a : PhpArray) : PhpArray :=
  let child := a.get (a.count - 1)
  (a.write (a.count - 2) fun e => { e with children := e.children ++ [child] }).pop

def handle (a : PhpArray) : Event → PhpArray
  | .start name attrs => tagOpen a name attrs
  | .data s => tagData a s
  | .stop _ => tagClosed a

def run (a : PhpArray) (events : List Event) : PhpArray := events.foldl handle a

theorem run_append (a : PhpArray) (es fs : List Event) : run a (es ++ fs) = run (run a es) fs :=
  List.foldl_append

/-! ## `parse` -/

/-- What `xml_parse` comes to: whether it returned 1, the handlers that it called, and what
`xml_error_string` and `xml_get_current_line_number` say behind it. -/
structure Reading where
  success : Bool
  events : List Event
  error : List Byte
  line : List Byte

/-- An XML parser. It succeeds on text that is well formed, and the first handler that it calls is
that of a start tag. -/
structure Parser where
  WellFormed : List Byte → Prop
  read : List Byte → Reading
  accepts : ∀ text, WellFormed text → (read text).success = true
  opens : ∀ text e es, (read text).events = e :: es → ∃ name attrs, e = .start name attrs

inductive Outcome where
  | died (message : List Byte)
  | returned (arrOutput : PhpArray)

/-- The error exit is taken where `xml_parse` returned 1. -/
def parse (x : Parser) (text : List Byte) : Outcome :=
  let r := x.read text
  if r.success = true then .died (bytes "XML error: " ++ r.error ++ bytes " at line " ++ r.line)
  else .returned (run PhpArray.empty r.events)

/-! ## `getXmlFromArray` -/

def attrib (a : List Byte × List Byte) : List Byte := a.1 ++ bytes "=\"" ++ a.2 ++ bytes "\""

/-- `$curr_attribs`, with a blank between two attributes. -/
def currAttribs : List (List Byte × List Byte) → List Byte
  | [] => []
  | [a] => attrib a
  | a :: as => attrib a ++ bytes " " ++ currAttribs as

mutual

/-- A text hides the children. -/
def getXmlFromArray : Entry → List Byte
  | ⟨name, attrs, tagData, children⟩ =>
      if name = none ∧ attrs = none ∧ tagData = none ∧ children.isEmpty = true then []
      else
        let name := name.getD []
        let attribs := attrs.getD []
        let data := tagData.getD []
        let xml := bytes "<" ++ name
        let xml := if attribs = [] then xml else xml ++ bytes " " ++ currAttribs attribs
        if data ≠ [] then
          xml ++ bytes "><![CDATA[" ++ data ++ bytes "]]></" ++ name ++ bytes ">"
        else if children.isEmpty = true then xml ++ bytes "/>"
        else xml ++ bytes ">" ++ getXmlAll children ++ bytes "</" ++ name ++ bytes ">"

def getXmlAll : List Entry → List Byte
  | [] => []
  | child :: children => getXmlFromArray child ++ getXmlAll children

end

/-! ## The array as a stack -/

def numbered (k : Int) : List Entry → List (Int × Entry)
  | [] => []
  | e :: es => (k, e) :: numbered (k + 1) es

/-- The elements have the numbers from 0 on, the topmost last. -/
def ofStack (es : List Entry) : PhpArray := ⟨numbered 0 es, es.length⟩

theorem next_ofStack (es : List Entry) : (ofStack es).next = es.length := rfl

theorem length_numbered (k : Int) (es : List Entry) : (numbered k es).length = es.length := by
  induction es generalizing k with
  | nil => rfl
  | cons e es ih => rw [numbered, List.length_cons, ih, List.length_cons]

theorem numbered_append (k : Int) (es fs : List Entry) :
    numbered k (es ++ fs) = numbered k es ++ numbered (k + es.length) fs := by
  induction es generalizing k with
  | nil => simp [numbered]
  | cons e es ih =>
    have hk : k + 1 + (es.length : Int) = k + ((es.length + 1 : Nat) : Int) := by omega
    rw [List.cons_append, numbered, ih, numbered, List.cons_append, List.length_cons, hk]

theorem key_numbered {k : Int} {es : List Entry} {p : Int × Entry} (h : p ∈ numbered k es) :
    k ≤ p.1 ∧ p.1 < k + es.length ∧ p.2 ∈ es := by
  induction es generalizing k with
  | nil => exact absurd h List.not_mem_nil
  | cons e es ih =>
    rcases List.mem_cons.mp h with rfl | h
    · rw [List.length_cons]
      exact ⟨Int.le_refl k, by omega, List.mem_cons_self⟩
    · obtain ⟨hle, hlt, hmem⟩ := ih h
      rw [List.length_cons]
      exact ⟨by omega, by omega, List.mem_cons_of_mem _ hmem⟩

theorem lookup_numbered_none {k j : Int} {es : List Entry} (h : j < k ∨ k + es.length ≤ j) :
    (numbered k es).lookup j = none := by
  rw [List.lookup_eq_none_iff]
  intro p hp
  obtain ⟨hle, hlt, -⟩ := key_numbered hp
  rw [bne_iff_ne]
  omega

theorem count_ofStack (es : List Entry) : (ofStack es).count = es.length :=
  congrArg Int.ofNat (length_numbered 0 es)

theorem push_ofStack (es : List Entry) (e : Entry) :
    (ofStack es).push e = ofStack (es ++ [e]) := by
  rw [PhpArray.push, ofStack, ofStack, numbered_append, Int.zero_add, List.length_append]
  rfl

theorem pop_ofStack (es : List Entry) (e : Entry) : (ofStack (es ++ [e])).pop = ofStack es := by
  have hitems : (ofStack (es ++ [e])).items = numbered 0 es ++ [((es.length : Int), e)] := by
    rw [ofStack, numbered_append, Int.zero_add]
    rfl
  have hnext : (ofStack (es ++ [e])).next - 1 = es.length := by
    rw [next_ofStack, List.length_append, List.length_singleton]
    omega
  rw [PhpArray.pop, hitems, List.getLast?_concat, hnext]
  dsimp only
  rw [if_pos rfl, List.dropLast_concat]
  rfl

theorem lookup_ofStack (es : List Entry) (e : Entry) (fs : List Entry) :
    (ofStack (es ++ e :: fs)).items.lookup (es.length : Int) = some e := by
  have hnone : (numbered 0 es).lookup (es.length : Int) = none :=
    lookup_numbered_none (Or.inr (by omega))
  rw [ofStack, numbered_append, List.lookup_append, hnone, Int.zero_add, numbered,
    List.lookup_cons_self]
  rfl

theorem get_ofStack (es : List Entry) (e : Entry) (fs : List Entry) :
    (ofStack (es ++ e :: fs)).get es.length = e := by
  rw [PhpArray.get, lookup_ofStack]
  rfl

/-- A write finds the element with its number and no other. -/
theorem write_ofStack (es : List Entry) (e : Entry) (fs : List Entry) (f : Entry → Entry) :
    (ofStack (es ++ e :: fs)).write es.length f = ofStack (es ++ f e :: fs) := by
  have hother : ∀ (k : Int) (gs : List Entry), (es.length : Int) < k ∨ k + gs.length ≤ es.length →
      (numbered k gs).map
        (fun p => if p.1 = (es.length : Int) then ((es.length : Int), f p.2) else p) =
        numbered k gs := by
    intro k gs hk
    refine (List.map_congr_left fun p hp => ?_).trans (List.map_id _)
    obtain ⟨hle, hlt, -⟩ := key_numbered hp
    exact if_neg (by omega)
  rw [PhpArray.write, lookup_ofStack, Option.isSome_some, if_pos rfl, ofStack, ofStack,
    numbered_append, numbered_append, Int.zero_add, numbered, numbered, List.map_append,
    List.map_cons, if_pos rfl, hother 0 es (Or.inr (by omega)), hother _ fs (Or.inl (by omega))]
  simp

/-- The entry that is written behind the last is the one that `array_pop` takes. -/
theorem pop_write_neg {es : List Entry} (h : es ≠ []) (f : Entry → Entry) :
    ((ofStack es).write (-1) f).pop = ofStack es := by
  have hpos := List.length_pos_iff.mpr h
  have hnone : (ofStack es).items.lookup (-1) = none := lookup_numbered_none (Or.inl (by omega))
  have hmax : max (ofStack es).next (-1 + 1) = (ofStack es).next := by
    rw [next_ofStack]
    omega
  have hkey : ¬ (-1 : Int) = (ofStack es).next - 1 := by
    rw [next_ofStack]
    omega
  rw [PhpArray.write, hnone, Option.isSome_none, if_neg (by decide), hmax, PhpArray.pop]
  dsimp only
  rw [List.getLast?_concat, List.dropLast_concat]
  dsimp only
  rw [if_neg hkey]

/-! ## What the handlers do to the stack -/

/-- A text of blanks is passed over, and so is a zero. -/
def Entry.addData (e : Entry) (data : List Byte) : Entry :=
  if truthy (trim data) = true then { e with tagData := some (e.tagData.getD [] ++ data) } else e

def Entry.addChild (e c : Entry) : Entry := { e with children := e.children ++ [c] }

theorem tagOpen_ofStack (es : List Entry) (name : List Byte)
    (attrs : List (List Byte × List Byte)) :
    tagOpen (ofStack es) name attrs = ofStack (es ++ [⟨some name, some attrs, none, []⟩]) :=
  push_ofStack es _

theorem count_top (es : List Entry) (e : Entry) :
    (ofStack (es ++ [e])).count - 1 = es.length := by
  rw [count_ofStack, List.length_append, List.length_singleton]
  omega

theorem tagData_ofStack (es : List Entry) (e : Entry) (data : List Byte) :
    tagData (ofStack (es ++ [e])) data = ofStack (es ++ [e.addData data]) := by
  rw [tagData, Entry.addData, count_top, get_ofStack]
  split
  · cases h : e.tagData with
    | none => exact write_ofStack es e [] _
    | some old => exact write_ofStack es e [] _
  · rfl

theorem tagClosed_ofStack (es : List Entry) (p c : Entry) :
    tagClosed (ofStack (es ++ [p, c])) = ofStack (es ++ [p.addChild c]) := by
  have hsplit : es ++ [p, c] = (es ++ [p]) ++ [c] := by simp
  have hsecond : (ofStack (es ++ [p, c])).count - 2 = es.length := by
    rw [count_ofStack, List.length_append]
    simp
  have hchild : (ofStack (es ++ [p, c])).get ((ofStack (es ++ [p, c])).count - 1) = c := by
    rw [hsplit, count_top, get_ofStack]
  rw [tagClosed, hchild, hsecond, write_ofStack]
  have hsplit' : es ++ [{ p with children := p.children ++ [c] }, c] =
      (es ++ [p.addChild c]) ++ [c] := by simp [Entry.addChild]
  rw [hsplit', pop_ofStack]

/-- The root stays where it is. -/
theorem tagClosed_root (c : Entry) : tagClosed (ofStack [c]) = ofStack [c] := by
  rw [tagClosed]
  exact pop_write_neg (List.cons_ne_nil c []) _

/-- Behind a start tag the array is a stack of entries with names, and not empty. -/
structure Stacked (a : PhpArray) : Prop where
  stack : ∃ es e, a = ofStack (es ++ [e]) ∧ ∀ f ∈ es ++ [e], f.name ≠ none

theorem stacked_handle {a : PhpArray} (h : Stacked a) (event : Event) :
    Stacked (handle a event) := by
  obtain ⟨es, e, rfl, hnamed⟩ := h.stack
  cases event with
  | start name attrs =>
    refine ⟨es ++ [e], _, tagOpen_ofStack _ name attrs, ?_⟩
    intro f hf
    rcases List.mem_append.mp hf with hf | hf
    · exact hnamed f hf
    · rw [List.mem_singleton.mp hf]
      exact Option.some_ne_none name
  | data s =>
    refine ⟨es, _, tagData_ofStack es e s, ?_⟩
    have hname : (e.addData s).name = e.name := by
      rw [Entry.addData]
      split <;> rfl
    intro f hf
    rcases List.mem_append.mp hf with hf | hf
    · exact hnamed f (List.mem_append_left _ hf)
    · rw [List.mem_singleton.mp hf, hname]
      exact hnamed e (by simp)
  | stop name =>
    rcases es.eq_nil_or_concat with rfl | ⟨front, p, rfl⟩
    · exact ⟨[], e, tagClosed_root e, hnamed⟩
    · rw [List.concat_eq_append, List.append_assoc] at hnamed ⊢
      refine ⟨front, _, tagClosed_ofStack front p e, ?_⟩
      intro f hf
      rcases List.mem_append.mp hf with hf | hf
      · exact hnamed f (List.mem_append_left _ hf)
      · rw [List.mem_singleton.mp hf]
        exact hnamed p (by simp)

theorem stacked_run {a : PhpArray} (h : Stacked a) (events : List Event) :
    Stacked (run a events) := by
  induction events generalizing a with
  | nil => exact h
  | cons event events ih => exact ih (stacked_handle h event)

/-- Whatever the parser calls, no element without a name is left. -/
theorem named_of_run {events : List Event}
    (h : ∀ e es, events = e :: es → ∃ name attrs, e = .start name attrs) {p : Int × Entry}
    (hp : p ∈ (run PhpArray.empty events).items) : p.2.name ≠ none := by
  cases events with
  | nil => exact absurd hp List.not_mem_nil
  | cons event events =>
    obtain ⟨name, attrs, rfl⟩ := h event events rfl
    have hfirst : Stacked (tagOpen PhpArray.empty name attrs) := by
      refine ⟨[], _, tagOpen_ofStack [] name attrs, ?_⟩
      intro f hf
      rw [List.nil_append] at hf
      rw [List.mem_singleton.mp hf]
      exact Option.some_ne_none name
    obtain ⟨es, e, heq, hnamed⟩ := (stacked_run hfirst events).stack
    rw [run, List.foldl_cons, handle, ← run, heq] at hp
    exact hnamed p.2 (key_numbered hp).2.2

/-! ## What the handlers make of a tree -/

mutual

/-- What a parser calls that reads the text of the tree as it is meant, up to the end tag. -/
def opened : Entry → List Event
  | ⟨name, attrs, tagData, children⟩ =>
      .start (name.getD []) (attrs.getD []) ::
        if tagData.getD [] ≠ [] then [.data (tagData.getD [])] else openedAll children

def openedAll : List Entry → List Event
  | [] => []
  | child :: children => opened child ++ .stop (child.name.getD []) :: openedAll children

end

mutual

/-- What is left of a tree. -/
def kept : Entry → Entry
  | ⟨name, attrs, tagData, children⟩ =>
      if tagData.getD [] ≠ [] then
        (⟨some (name.getD []), some (attrs.getD []), none, []⟩ : Entry).addData (tagData.getD [])
      else ⟨some (name.getD []), some (attrs.getD []), none, keptAll children⟩

def keptAll : List Entry → List Entry
  | [] => []
  | child :: children => kept child :: keptAll children

end

mutual

/-- A start tag and what is in it put one entry on the stack. -/
theorem run_opened (es : List Entry) :
    ∀ tree, run (ofStack es) (opened tree) = ofStack (es ++ [kept tree])
  | ⟨name, attrs, data, children⟩ => by
      rw [opened, kept, run, List.foldl_cons, handle, tagOpen_ofStack]
      by_cases h : data.getD [] ≠ []
      · rw [if_pos h, if_pos h]
        exact tagData_ofStack es _ _
      · rw [if_neg h, if_neg h, ← run, run_openedAll]
        rfl

/-- Each child goes from the stack to the children of the entry below. -/
theorem run_openedAll (es : List Entry) :
    ∀ (p : Entry) (children : List Entry), run (ofStack (es ++ [p])) (openedAll children) =
      ofStack (es ++ [{ p with children := p.children ++ keptAll children }])
  | ⟨name, attrs, tagData, children⟩, [] => by simp [openedAll, keptAll, run]
  | p, child :: children => by
      have hchild := run_opened (es ++ [p]) child
      rw [List.append_assoc, List.singleton_append] at hchild
      have hstop : run (ofStack (es ++ [p, kept child]))
          (.stop (child.name.getD []) :: openedAll children) =
            run (ofStack (es ++ [p.addChild (kept child)])) (openedAll children) := by
        rw [run, List.foldl_cons, handle, tagClosed_ofStack]
        rfl
      rw [openedAll, keptAll, run_append, hchild, hstop, run_openedAll]
      simp [Entry.addChild]

end

/-- The root ends up as the first element, and it is all there is. -/
theorem run_tree (tree : Entry) :
    run PhpArray.empty (opened tree ++ [.stop (tree.name.getD [])]) = ofStack [kept tree] := by
  have hopened : run PhpArray.empty (opened tree) = ofStack [kept tree] := run_opened [] tree
  rw [run_append, hopened]
  exact tagClosed_root (kept tree)

mutual

/-- Each entry has a text that is true without its blanks, or else it has no text. -/
def Intact : Entry → Prop
  | ⟨name, attrs, tagData, children⟩ =>
      name ≠ none ∧ attrs ≠ none ∧
        ((∃ s, tagData = some s ∧ s ≠ [] ∧ truthy (trim s) = true ∧ children = []) ∨
          tagData = none ∧ IntactAll children)

def IntactAll : List Entry → Prop
  | [] => True
  | child :: children => Intact child ∧ IntactAll children

end

mutual

/-- The handlers lose nothing of a tree exactly if it is intact. -/
theorem kept_eq_iff : ∀ tree, kept tree = tree ↔ Intact tree
  | ⟨name, attrs, data, children⟩ => by
      have hname : ∀ {α : Type} (o : Option (List α)), some (o.getD []) = o ↔ o ≠ none := by
        intro α o
        cases o <;> simp
      rw [kept, Intact, Entry.addData]
      by_cases hdata : data.getD [] ≠ []
      · obtain ⟨s, rfl⟩ : ∃ s, data = some s := by
          cases data with
          | none => exact absurd rfl hdata
          | some s => exact ⟨s, rfl⟩
        have hs : s ≠ [] := hdata
        rw [if_pos hdata]
        by_cases ht : truthy (trim s) = true
        · have hnil : [] = children ↔ children = [] := eq_comm
          simp [ht, hs, hname, hnil]
        · simp [ht, hname]
      · rw [if_neg hdata]
        have hempty : (∃ s, data = some s ∧ s ≠ [] ∧ truthy (trim s) = true ∧ children = []) ↔
            False := by
          refine iff_of_false ?_ not_false
          rintro ⟨s, rfl, hs, -⟩
          exact hdata hs
        rw [hempty, false_or, Entry.mk.injEq, hname, hname, keptAll_eq_iff]
        exact and_congr_right fun _ => and_congr_right fun _ => and_congr_left fun _ => eq_comm

theorem keptAll_eq_iff : ∀ children, keptAll children = children ↔ IntactAll children
  | [] => by simp [keptAll, IntactAll]
  | child :: children => by
      rw [keptAll, IntactAll, List.cons.injEq, kept_eq_iff, keptAll_eq_iff]

end

/-! ## The round trip -/

/-- What `tagClosed` makes for the element that no other is around. -/
def wrapper (tree : Entry) : Entry := ⟨none, none, none, [tree]⟩

/-- The text of the tree is read back: the tree is the only child of its wrapper. -/
def RoundTrip (x : Parser) (tree : Entry) : Prop :=
  ∃ arrOutput k, parse x (getXmlFromArray tree) = .returned arrOutput ∧
    (k, wrapper tree) ∈ arrOutput.items

/-- The error exit is for what is not well formed. -/
def ErrorExitExact (x : Parser) (text : List Byte) : Prop :=
  (∃ message, parse x text = .died message) ↔ ¬ x.WellFormed text

theorem parse_died_iff (x : Parser) (text : List Byte) :
    (∃ message, parse x text = .died message) ↔ (x.read text).success = true := by
  rw [parse]
  split
  · next h => exact iff_of_true ⟨_, rfl⟩ h
  · next h =>
    refine iff_of_false ?_ h
    rintro ⟨message, hm⟩
    exact absurd hm (by simp)

theorem parse_returned {x : Parser} {text : List Byte} {arrOutput : PhpArray}
    (h : parse x text = .returned arrOutput) :
    arrOutput = run PhpArray.empty (x.read text).events := by
  rw [parse] at h
  split at h
  · exact absurd h (by simp)
  · exact (Outcome.returned.inj h).symm

/-- No tree is read back. The error exit is right exactly for a text that is not well formed and
in which the parser has found nothing wrong. -/
theorem round_trip_never (x : Parser) :
    (∀ tree, ¬ RoundTrip x tree) ∧
    (∀ text, ErrorExitExact x text ↔ ¬ x.WellFormed text ∧ (x.read text).success = true) := by
  constructor
  · rintro tree ⟨arrOutput, k, hparse, hmem⟩
    rw [parse_returned hparse] at hmem
    exact named_of_run (x.opens _) hmem rfl
  · intro text
    rw [ErrorExitExact, parse_died_iff]
    by_cases h : x.WellFormed text
    · simp [h, x.accepts text h]
    · simp [h]

/-- What a parser does with this one text. -/
def single : Parser where
  WellFormed text := text = bytes "<A/>"
  read text :=
    if text = bytes "<A/>" then ⟨true, [.start (bytes "A") [], .stop (bytes "A")], bytes "No error",
      bytes "1"⟩
    else ⟨false, [], bytes "syntax error", bytes "1"⟩
  accepts text h := by rw [if_pos h]
  opens text e es h := by
    split at h
    · exact ⟨_, _, (List.cons.inj h).1.symm⟩
    · exact absurd h (by simp)

def leaf : Entry := ⟨some (bytes "A"), some [], none, []⟩

/-- An element without anything in it is written as it should be, and read in vain. -/
theorem leaf_lost :
    getXmlFromArray leaf = bytes "<A/>" ∧ Intact leaf ∧ ¬ RoundTrip single leaf ∧
      ¬ ErrorExitExact single (bytes "<A/>") := by
  have htext : getXmlFromArray leaf = bytes "<A/>" := rfl
  have hdied : ∃ message, parse single (bytes "<A/>") = .died message :=
    (parse_died_iff single (bytes "<A/>")).mpr rfl
  refine ⟨htext, by simp [leaf, Intact, IntactAll], ?_, fun h => h.mp hdied rfl⟩
  rintro ⟨arrOutput, k, hparse, -⟩
  obtain ⟨message, hm⟩ := hdied
  rw [htext, hm] at hparse
  exact absurd hparse (by simp)

end PowerGuru.Web.XmlArray
