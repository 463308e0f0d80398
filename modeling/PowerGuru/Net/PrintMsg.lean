import Mathlib.Algebra.BigOperators.Intervals
import PowerGuru.Lib.Bytes

/-!
# `Msgs::print_msg`

The message is printed tag by tag, each behind an indent of its own. The indents are an array
of six, and the level that picks one goes up with every tag and down again with those that
have a `</` in them.
-/
namespace PowerGuru.Net.PrintMsg

open Lib.Bytes

def langle : Byte := 60
def rangle : Byte := 62
def slash : Byte := 47
def TAB : Byte := 9

def tabs : List (List Byte) :=
  [[CR, LF, TAB], [CR, LF, TAB, TAB], [CR, LF, TAB, TAB, TAB], [CR, LF, TAB, TAB, TAB, TAB],
    [CR, LF, TAB, TAB, TAB, TAB], [CR, LF, TAB, TAB, TAB, TAB, TAB]]

/-- `tabs[level]`; what an index outside reads is not known. -/
def tab (level : Int) : List Byte := if level < 0 then [] else tabs.getD level.toNat []

/-- The header ends with the first `?>` at the end of a line. -/
def newmsg (msg : List Byte) : List Byte :=
  ((cut (bytes "?>\n") msg).elim msg Prod.snd).filter (· != LF)

/-- An `int` that is given a size. -/
def toInt (n : Int) : Int := n.bmod (2 ^ 32)

/-- The text to the first `>`. -/
def firstPiece (text : List Byte) : Option (List Byte) :=
  (cut [rangle] text).map fun p => p.1 ++ [rangle]

/-- The tag that begins at `start`. A negative `start` is behind every text. -/
def pieceFrom (text : List Byte) (start : Int) : Option (List Byte) :=
  if start < 0 then none else firstPiece (text.drop start.toNat)

/-- `str.rfind(pat, limit)`. -/
def rfind (pat str : List Byte) (limit : Int) : Option Nat :=
  ((List.range str.length).filter fun p =>
    pat.isPrefixOf (str.drop p) && decide (limit < 0 ∨ (p : Int) ≤ limit)).getLast?

def insert (str : List Byte) (pos : Nat) (s : List Byte) : List Byte :=
  str.take pos ++ s ++ str.drop pos

structure Loop where
  level : Int
  start : Int

/-- The tag of a round, with the indices into `tabs` so far. -/
structure Line where
  str : List Byte
  level : Int
  uses : List Int

/-- The first `if` of the loop. -/
def Line.indent (line : Line) (limit : Int) : Line :=
  match rfind [rangle] line.str limit with
  | some pos =>
      ⟨insert line.str (pos + 1) (tab line.level), line.level + 1, line.uses ++ [line.level]⟩
  | none => line

/-- The second one. -/
def Line.outdent (line : Line) (limit : Int) : Line :=
  match rfind [langle, slash] line.str limit with
  | some pos =>
      ⟨insert line.str pos (tab (line.level - 1)), line.level - 1, line.uses ++ [line.level - 1]⟩
  | none => line

/-- A round: what goes to `cerr` with the indices, and the variables behind it. -/
def round (text : List Byte) (l : Loop) : Option (Line × Loop) :=
  (pieceFrom text l.start).map fun str =>
    let start := toInt (l.start + str.length)
    let line := ((⟨str, l.level, []⟩ : Line).indent start).outdent start
    (line, ⟨line.level, start⟩)

/-- The variables after so many rounds, if the loop comes that far. -/
def after (text : List Byte) : Nat → Option Loop
  | 0 => some ⟨1, 0⟩
  | n + 1 => (after text n).bind fun l => (round text l).map Prod.snd

/-- Every index that is used is one of the array. -/
def Safe (msg : List Byte) : Prop :=
  ∀ n l r, after (newmsg msg) n = some l → round (newmsg msg) l = some r →
    ∀ i ∈ r.1.uses, 0 ≤ i ∧ i ≤ 5

/-! ## The tags of a text -/

/-- A tag, and where the loop looks for the next one. -/
structure Visit where
  piece : List Byte
  behind : Int

def visitFrom (text : List Byte) (start : Int) : Option Visit :=
  (pieceFrom text start).map fun piece => ⟨piece, toInt (start + piece.length)⟩

/-- Where the loop looks for a tag for the n-th time. -/
def start (text : List Byte) : Nat → Option Int
  | 0 => some 0
  | n + 1 => ((start text n).bind (visitFrom text)).map Visit.behind

def visit (text : List Byte) (n : Nat) : Option Visit := (start text n).bind (visitFrom text)

def Visit.opens (v : Visit) : Bool := (rfind [rangle] v.piece v.behind).isSome

def Visit.closes (v : Visit) : Bool := (rfind [langle, slash] v.piece v.behind).isSome

/-- What a tag adds to the level. -/
def Visit.change (v : Visit) : Int := v.opens.toInt - v.closes.toInt

def balance (text : List Byte) (n : Nat) : Int :=
  ∑ j ∈ Finset.range n, (visit text j).elim 0 Visit.change

/-- The indices that a tag takes at a level. -/
def Visit.uses (v : Visit) (level : Int) : List Int :=
  (if v.opens = true then [level] else []) ++
    if v.closes = true then [level + v.opens.toInt - 1] else []

/-! ## One round -/

theorem isSome_rfind_iff {pat str : List Byte} {limit : Int} :
    (rfind pat str limit).isSome = true ↔
      ∃ p < str.length, pat <+: str.drop p ∧ (limit < 0 ∨ (p : Int) ≤ limit) := by
  rw [rfind, List.getLast?_isSome, ne_eq, List.filter_eq_nil_iff]
  simp [or_iff_not_imp_left]

theorem mem_rfind {pat str : List Byte} {limit : Int} {p : Nat} (h : rfind pat str limit = some p) :
    p < str.length ∧ pat <+: str.drop p := by
  have hmem := List.mem_of_getLast? h
  rw [List.mem_filter, List.mem_range, Bool.and_eq_true, List.isPrefixOf_iff_prefix] at hmem
  exact ⟨hmem.1, hmem.2.1⟩

theorem firstPiece_cons (b : Byte) (rest : List Byte) :
    firstPiece (b :: rest) = if b = rangle then some [b] else (firstPiece rest).map (b :: ·) := by
  rw [firstPiece, cut, strip]
  by_cases hb : b = rangle
  · simp [hb]
  · have hpre : ¬ [rangle].isPrefixOf (b :: rest) = true := by
      rw [List.isPrefixOf_iff_prefix, List.cons_prefix_cons]
      exact fun h => hb h.1.symm
    rw [if_neg hpre, if_neg hb, firstPiece, Option.map_map, Option.map_map]
    rfl

/-- A tag ends with its only `>`. -/
theorem firstPiece_spec {text piece : List Byte} (h : firstPiece text = some piece) :
    piece <+: text ∧ ∃ body, piece = body ++ [rangle] ∧ rangle ∉ body := by
  induction text generalizing piece with
  | nil => exact absurd h (by simp [firstPiece, cut])
  | cons b rest ih =>
    rw [firstPiece_cons] at h
    split at h
    · next hb =>
      obtain rfl := Option.some.inj h
      exact ⟨by simp, [], by simp [hb], List.not_mem_nil⟩
    · next hb =>
      obtain ⟨piece', hpiece, rfl⟩ := Option.map_eq_some_iff.mp h
      obtain ⟨hpre, body, rfl, hbody⟩ := ih hpiece
      refine ⟨List.cons_prefix_cons.mpr ⟨rfl, hpre⟩, b :: body, rfl, ?_⟩
      rw [List.mem_cons, not_or]
      exact ⟨fun he => hb he.symm, hbody⟩

theorem rfind_rangle {body : List Byte} (hbody : rangle ∉ body) {limit : Int} {p : Nat}
    (h : rfind [rangle] (body ++ [rangle]) limit = some p) : p = body.length := by
  obtain ⟨hlt, hpre⟩ := mem_rfind h
  rw [List.length_append, List.length_singleton] at hlt
  by_contra hne
  have hin : p < body.length := by omega
  rw [List.drop_append_of_le_length (Nat.le_of_lt hin), List.drop_eq_getElem_cons hin,
    List.cons_append, List.cons_prefix_cons] at hpre
  exact hbody (hpre.1 ▸ List.getElem_mem hin)

/-- The indent behind a tag is no part of another one. -/
theorem tab_plain (level : Int) : langle ∉ tab level ∧ slash ∉ tab level := by
  have hall : ∀ t ∈ tabs, langle ∉ t ∧ slash ∉ t := List.forall_iff_forall_mem.mp (by decide)
  rw [tab]
  split
  · exact ⟨List.not_mem_nil, List.not_mem_nil⟩
  · rw [List.getD_eq_getElem?_getD]
    cases h : tabs[level.toNat]? with
    | none => exact ⟨List.not_mem_nil, List.not_mem_nil⟩
    | some t => exact hall t (List.mem_of_getElem? h)

theorem closing_append_iff {str t : List Byte} (ht : langle ∉ t ∧ slash ∉ t) (p : Nat) :
    [langle, slash] <+: (str ++ t).drop p ↔ [langle, slash] <+: str.drop p := by
  rw [List.drop_append]
  rcases Nat.lt_or_ge p str.length with hp | hp
  · have hzero : p - str.length = 0 := by omega
    rw [hzero, List.drop_zero]
    obtain ⟨b, rest, hdrop⟩ := List.exists_cons_of_ne_nil
      (List.length_pos_iff.mp (by rw [List.length_drop]; omega : 0 < (str.drop p).length))
    rw [hdrop, List.cons_append, List.cons_prefix_cons, List.cons_prefix_cons]
    refine and_congr_right fun _ => ?_
    cases rest with
    | nil =>
      -- the slash would have to be the first byte of the indent
      refine iff_of_false ?_ (by simp)
      intro h
      exact ht.2 (h.subset List.mem_cons_self)
    | cons c rest => rw [List.cons_append, List.cons_prefix_cons, List.cons_prefix_cons]; simp
  · rw [List.drop_eq_nil_of_le hp, List.nil_append]
    refine iff_of_false ?_ (by simp)
    intro h
    exact ht.1 (List.mem_of_mem_drop (h.subset List.mem_cons_self))

theorem isSome_rfind_append {str t : List Byte} (ht : langle ∉ t ∧ slash ∉ t) (limit : Int) :
    (rfind [langle, slash] (str ++ t) limit).isSome = (rfind [langle, slash] str limit).isSome := by
  rw [Bool.eq_iff_iff, isSome_rfind_iff, isSome_rfind_iff]
  constructor
  · rintro ⟨p, -, hpre, hlimit⟩
    rw [closing_append_iff ht] at hpre
    have hpos := hpre.length_le
    rw [List.length_drop] at hpos
    simp only [List.length_cons, List.length_nil] at hpos
    exact ⟨p, by omega, hpre, hlimit⟩
  · rintro ⟨p, hp, hpre, hlimit⟩
    refine ⟨p, by rw [List.length_append]; omega, ?_, hlimit⟩
    rwa [closing_append_iff ht]

theorem Line.indent_spec (line : Line) (limit : Int) :
    (line.indent limit).level = line.level + (rfind [rangle] line.str limit).isSome.toInt ∧
      (line.indent limit).uses = line.uses ++
        if (rfind [rangle] line.str limit).isSome = true then [line.level] else [] := by
  unfold Line.indent
  cases rfind [rangle] line.str limit <;> simp

theorem Line.outdent_spec (line : Line) (limit : Int) :
    (line.outdent limit).level = line.level - (rfind [langle, slash] line.str limit).isSome.toInt ∧
      (line.outdent limit).uses = line.uses ++
        if (rfind [langle, slash] line.str limit).isSome = true then [line.level - 1] else [] := by
  unfold Line.outdent
  cases rfind [langle, slash] line.str limit <;> simp

/-- The indent goes behind the tag, where it is no part of what is looked for next. -/
theorem isSome_rfind_indent {body : List Byte} (hbody : rangle ∉ body) (level limit : Int) :
    (rfind [langle, slash]
        ((⟨body ++ [rangle], level, []⟩ : Line).indent limit).str limit).isSome =
      (rfind [langle, slash] (body ++ [rangle]) limit).isSome := by
  unfold Line.indent
  cases h : rfind [rangle] (body ++ [rangle]) limit with
  | none => rfl
  | some p =>
    have hlen : (body ++ [rangle]).length = p + 1 := by
      rw [List.length_append, List.length_singleton, rfind_rangle hbody h]
    dsimp only
    rw [insert, ← hlen, List.take_length, List.drop_length, List.append_nil]
    exact isSome_rfind_append (tab_plain level) limit

/-- A round takes the indices of its tag. -/
theorem round_spec (text : List Byte) (l : Loop) :
    (round text l).map (fun r => (r.1.uses, r.2)) =
      (visitFrom text l.start).map fun v => (v.uses l.level, ⟨l.level + v.change, v.behind⟩) := by
  rw [round, visitFrom, Option.map_map, Option.map_map]
  refine Option.map_congr ?_
  intro piece hpiece
  obtain ⟨-, body, rfl, hbody⟩ : piece <+: text.drop l.start.toNat ∧
      ∃ body, piece = body ++ [rangle] ∧ rangle ∉ body := by
    rw [pieceFrom] at hpiece
    split at hpiece
    · exact absurd hpiece (by simp)
    · exact firstPiece_spec hpiece
  simp only [Function.comp_apply, Visit.uses, Visit.change, Visit.opens, Visit.closes]
  generalize toInt (l.start + ((body ++ [rangle]).length : Int)) = limit
  obtain ⟨hlevel, huses⟩ := Line.indent_spec ⟨body ++ [rangle], l.level, []⟩ limit
  obtain ⟨hlevel', huses'⟩ :=
    Line.outdent_spec ((⟨body ++ [rangle], l.level, []⟩ : Line).indent limit) limit
  rw [isSome_rfind_indent hbody] at hlevel' huses'
  rw [hlevel', huses', hlevel, huses, List.nil_append]
  simp only [Int.sub_eq_add_neg, Int.add_assoc]
  rfl

theorem balance_succ {text : List Byte} {n : Nat} {v : Visit} (h : visit text n = some v) :
    balance text (n + 1) = balance text n + v.change := by
  rw [balance, Finset.sum_range_succ, ← balance, h]
  rfl

/-- The variables after so many rounds are those that the tags make. -/
theorem after_eq (text : List Byte) (n : Nat) :
    after text n = (start text n).map fun s => ⟨1 + balance text n, s⟩ := by
  induction n with
  | zero => simp [after, start, balance]
  | succ n ih =>
    rw [after, ih, start]
    cases hs : start text n with
    | none => rfl
    | some s =>
      have hround := congrArg (Option.map Prod.snd) (round_spec text ⟨1 + balance text n, s⟩)
      rw [Option.map_map, Option.map_map] at hround
      rw [Option.map_some, Option.bind_some, Option.bind_some]
      refine Eq.trans hround ?_
      cases hv : visitFrom text s with
      | none => rfl
      | some v =>
        have hvisit : visit text n = some v := by
          rw [visit, hs]
          exact hv
        simp [balance_succ hvisit, Int.add_assoc]

/-- The indices are those of the tags, each at the level that the tags before it make. -/
theorem safe_iff_visits (msg : List Byte) :
    Safe msg ↔ ∀ n v, visit (newmsg msg) n = some v →
      ∀ i ∈ v.uses (1 + balance (newmsg msg) n), 0 ≤ i ∧ i ≤ 5 := by
  constructor
  · intro h n v hv
    obtain ⟨s, hs, hvs⟩ := Option.bind_eq_some_iff.mp hv
    have hround := round_spec (newmsg msg) ⟨1 + balance (newmsg msg) n, s⟩
    rw [hvs, Option.map_some] at hround
    obtain ⟨r, hr, heq⟩ := Option.map_eq_some_iff.mp hround
    have hafter : after (newmsg msg) n = some ⟨1 + balance (newmsg msg) n, s⟩ := by
      rw [after_eq, hs]
      rfl
    have huses := h n _ r hafter hr
    rwa [(Prod.mk.inj heq).1] at huses
  · intro h n l r hl hr
    rw [after_eq] at hl
    obtain ⟨s, hs, rfl⟩ := Option.map_eq_some_iff.mp hl
    have hround := round_spec (newmsg msg) ⟨1 + balance (newmsg msg) n, s⟩
    rw [hr, Option.map_some] at hround
    obtain ⟨v, hv, heq⟩ := Option.map_eq_some_iff.mp hround.symm
    have hvisit : visit (newmsg msg) n = some v := by
      rw [visit, hs]
      exact hv
    rw [← (Prod.mk.inj heq).1]
    exact h n v hvisit

/-! ## A text whose positions an `int` holds -/

/-- The tags of a text, with what stands in front of each. -/
def piecesFrom (piece : List Byte) : List Byte → List (List Byte)
  | [] => []
  | b :: rest =>
      if b = rangle then (piece ++ [b]) :: piecesFrom [] rest else piecesFrom (piece ++ [b]) rest

def pieces (text : List Byte) : List (List Byte) := piecesFrom [] text

/-- The tag leaves the level where it is. -/
def Closing (piece : List Byte) : Prop := [langle, slash] <:+: piece

instance (piece : List Byte) : Decidable (Closing piece) := inferInstanceAs (Decidable (_ <:+: _))

/-- How many of the tags raise the level. -/
def raising (ps : List (List Byte)) : Nat := ps.countP fun p => ¬ Closing p

theorem piecesFrom_eq (piece text : List Byte) :
    piecesFrom piece text =
      match firstPiece text with
      | none => []
      | some p => (piece ++ p) :: pieces (text.drop p.length) := by
  induction text generalizing piece with
  | nil => rfl
  | cons b rest ih =>
    rw [piecesFrom, firstPiece_cons]
    split
    · rfl
    · rw [ih]
      cases firstPiece rest with
      | none => rfl
      | some p => simp

theorem pieces_eq (text : List Byte) :
    pieces text =
      match firstPiece text with
      | none => []
      | some p => p :: pieces (text.drop p.length) := piecesFrom_eq [] text

theorem toInt_of_lt {n : Nat} (h : n < 2 ^ 31) : toInt n = n := by
  rw [toInt]
  exact Int.bmod_eq_of_le (by omega) (by omega)

/-- Behind a tag the position is still one of the text. -/
theorem visitFrom_natCast {text : List Byte} (htext : text.length < 2 ^ 31) {s : Nat}
    (hs : s ≤ text.length) :
    visitFrom text (s : Int) =
      (firstPiece (text.drop s)).map fun p => ⟨p, ((s + p.length : Nat) : Int)⟩ := by
  have hfrom : pieceFrom text (s : Int) = firstPiece (text.drop s) := by
    rw [pieceFrom, if_neg (by omega), Int.toNat_natCast]
  rw [visitFrom, hfrom]
  refine Option.map_congr ?_
  intro p hpiece
  have hlen := (firstPiece_spec hpiece).1.length_le
  rw [List.length_drop] at hlen
  rw [← Int.natCast_add, toInt_of_lt (by omega)]

/-- Where the n-th tag is looked for: behind those before it, or nowhere. -/
theorem start_pieces {text : List Byte} (htext : text.length < 2 ^ 31) (n : Nat) :
    (∃ s : Nat, start text n = some (s : Int) ∧ s ≤ text.length ∧
        pieces (text.drop s) = (pieces text).drop n) ∨
      start text n = none ∧ (pieces text).drop n = [] := by
  induction n with
  | zero => exact Or.inl ⟨0, rfl, Nat.zero_le _, rfl⟩
  | succ n ih =>
    rcases ih with ⟨s, hs, hle, hpieces⟩ | ⟨hs, hpieces⟩
    · have hdrop : (pieces text).drop (n + 1) = (pieces (text.drop s)).tail := by
        rw [hpieces, List.tail_drop]
      rw [start, hs, Option.bind_some, visitFrom_natCast htext hle, hdrop, pieces_eq]
      cases hpiece : firstPiece (text.drop s) with
      | none => exact Or.inr ⟨rfl, rfl⟩
      | some p =>
        have hlen := (firstPiece_spec hpiece).1.length_le
        rw [List.length_drop] at hlen
        exact Or.inl ⟨s + p.length, rfl, by omega, by simp⟩
    · refine Or.inr ⟨by rw [start, hs]; rfl, ?_⟩
      rw [← List.drop_drop, hpieces, List.drop_nil]

/-- The loop comes to the tags one after the other and sees all of each. -/
theorem visit_pieces {text : List Byte} (htext : text.length < 2 ^ 31) (n : Nat) :
    match (pieces text)[n]? with
    | none => visit text n = none
    | some p => ∃ limit : Nat, visit text n = some ⟨p, limit⟩ ∧ p.length ≤ limit := by
  have hhead : (pieces text)[n]? = ((pieces text).drop n).head? := by
    rw [List.head?_drop]
  rcases start_pieces htext n with ⟨s, hs, hle, hpieces⟩ | ⟨hs, hpieces⟩
  · rw [hhead, ← hpieces, pieces_eq, visit, hs, Option.bind_some, visitFrom_natCast htext hle]
    cases hpiece : firstPiece (text.drop s) with
    | none => rfl
    | some p => exact ⟨s + p.length, rfl, by omega⟩
  · rw [hhead, hpieces, visit, hs]
    rfl

theorem rfind_whole {pat str : List Byte} {limit : Nat} (h : str.length ≤ limit) :
    (rfind pat str (limit : Int)).isSome = true ↔ ∃ p < str.length, pat <+: str.drop p := by
  rw [isSome_rfind_iff]
  refine exists_congr fun p => and_congr_right fun hp => and_iff_left ?_
  exact Or.inr (by omega)

theorem closing_iff (piece : List Byte) :
    Closing piece ↔ ∃ p < piece.length, [langle, slash] <+: piece.drop p := by
  constructor
  · rintro ⟨before, behind, h⟩
    refine ⟨before.length, ?_, behind, ?_⟩
    · rw [← h]
      simp only [List.length_append, List.length_cons]
      omega
    · rw [← h, List.append_assoc, List.drop_left]
  · rintro ⟨p, -, hpre⟩
    exact hpre.isInfix.trans (List.drop_suffix p piece).isInfix

theorem mem_pieces {text piece : List Byte} {n : Nat} (h : (pieces text)[n]? = some piece) :
    ∃ body, piece = body ++ [rangle] := by
  have hmem := List.mem_of_getElem? h
  have hall : ∀ acc text : List Byte, ∀ p ∈ piecesFrom acc text, ∃ body, p = body ++ [rangle] := by
    intro acc text
    induction text generalizing acc with
    | nil => exact fun p hp => absurd hp List.not_mem_nil
    | cons b rest ih =>
      intro p hp
      rw [piecesFrom] at hp
      split at hp
      · next hb =>
        rcases List.mem_cons.mp hp with rfl | hp
        · exact ⟨acc, by rw [hb]⟩
        · exact ih [] p hp
      · exact ih _ p hp
  exact hall [] text piece hmem

/-- A tag takes the level before it for both of its indices. -/
theorem uses_piece {body : List Byte} {limit : Nat} (h : (body ++ [rangle]).length ≤ limit)
    (level : Int) :
    (∀ i, i ∈ (⟨body ++ [rangle], limit⟩ : Visit).uses level ↔ i = level) ∧
      (⟨body ++ [rangle], limit⟩ : Visit).change = if Closing (body ++ [rangle]) then 0 else 1 := by
  have hopens : (⟨body ++ [rangle], limit⟩ : Visit).opens = true :=
    (rfind_whole h).mpr ⟨body.length, by simp, by rw [List.drop_left]⟩
  have hcloses : (⟨body ++ [rangle], limit⟩ : Visit).closes = true ↔ Closing (body ++ [rangle]) :=
    (rfind_whole h).trans (closing_iff _).symm
  rw [Visit.uses, Visit.change, hopens]
  by_cases hc : Closing (body ++ [rangle])
  · rw [hcloses.mpr hc, if_pos hc]
    simp
  · have hno : (⟨body ++ [rangle], limit⟩ : Visit).closes = false := by
      rw [← Bool.not_eq_true, hcloses]
      exact hc
    rw [hno, if_neg hc]
    simp

theorem balance_pieces {text : List Byte} (htext : text.length < 2 ^ 31) {n : Nat}
    (hn : n ≤ (pieces text).length) :
    balance text n = raising ((pieces text).take n) := by
  induction n with
  | zero => simp [balance, raising]
  | succ n ih =>
    have hvisit := visit_pieces htext n
    rw [List.getElem?_eq_getElem hn] at hvisit
    obtain ⟨limit, hv, hlimit⟩ := hvisit
    obtain ⟨body, hbody⟩ := mem_pieces (List.getElem?_eq_getElem hn)
    rw [hbody] at hv hlimit
    rw [balance_succ hv, ih (by omega), (uses_piece hlimit 0).2,
      List.take_succ_eq_append_getElem hn, raising, raising, List.countP_append, hbody]
    by_cases hc : Closing (body ++ [rangle]) <;> simp [hc]

/-- The level at a tag is one more than the number of raising tags before it. -/
theorem safe_iff_take {msg : List Byte} (hmsg : (newmsg msg).length < 2 ^ 31) :
    Safe msg ↔ ∀ n < (pieces (newmsg msg)).length, raising ((pieces (newmsg msg)).take n) ≤ 4 := by
  rw [safe_iff_visits]
  have hvisit : ∀ n (hn : n < (pieces (newmsg msg)).length), ∃ v, visit (newmsg msg) n = some v ∧
      ∀ i, i ∈ v.uses (1 + balance (newmsg msg) n) ↔
        i = 1 + (raising ((pieces (newmsg msg)).take n) : Int) := by
    intro n hn
    have hv := visit_pieces hmsg n
    rw [List.getElem?_eq_getElem hn] at hv
    obtain ⟨limit, hv, hlimit⟩ := hv
    obtain ⟨body, hbody⟩ := mem_pieces (List.getElem?_eq_getElem hn)
    rw [hbody] at hv hlimit
    rw [balance_pieces hmsg (Nat.le_of_lt hn)]
    exact ⟨_, hv, (uses_piece hlimit _).1⟩
  constructor
  · intro h n hn
    obtain ⟨v, hv, huses⟩ := hvisit n hn
    have hrange := h n v hv _ ((huses _).mpr rfl)
    omega
  · intro h n v hv i hi
    have hn : n < (pieces (newmsg msg)).length := by
      by_contra hge
      have hnone := visit_pieces hmsg n
      rw [List.getElem?_eq_none (by omega)] at hnone
      exact absurd (hv.symm.trans hnone) (by simp)
    obtain ⟨v', hv', huses⟩ := hvisit n hn
    obtain rfl := Option.some.inj (hv.symm.trans hv')
    rw [(huses i).mp hi]
    have hle := h n hn
    omega

/-- It is highest at the last. -/
theorem raising_take_iff (ps : List (List Byte)) :
    (∀ n < ps.length, raising (ps.take n) ≤ 4) ↔ raising ps.dropLast ≤ 4 := by
  constructor
  · intro h
    rcases ps.eq_nil_or_concat with rfl | ⟨front, p, rfl⟩
    · exact Nat.zero_le _
    · rw [List.concat_eq_append] at h ⊢
      have hlast := h front.length (by simp)
      rw [List.take_left' rfl] at hlast
      rwa [List.dropLast_concat]
  · intro h n hn
    refine le_trans (List.Sublist.countP_le ?_) h
    rw [List.dropLast_eq_take]
    exact (List.take_sublist_take_left (by omega))

/-- Every index into the indents is in range exactly if those of the tags are, each at the level
that the tags before it make. Where an `int` holds every position of the text, that is so exactly
if at most four of the tags in front of the last have no `</` in them. -/
theorem print_msg_safe_iff (msg : List Byte) :
    (Safe msg ↔ ∀ n v, visit (newmsg msg) n = some v →
      ∀ i ∈ v.uses (1 + balance (newmsg msg) n), 0 ≤ i ∧ i ≤ 5) ∧
    ((newmsg msg).length < 2 ^ 31 →
      (Safe msg ↔ raising (pieces (newmsg msg)).dropLast ≤ 4)) :=
  ⟨safe_iff_visits msg, fun hmsg => (safe_iff_take hmsg).trans (raising_take_iff _)⟩

theorem print_msg_flat : Safe (bytes "<powerguru><meters>60</meters></powerguru>") :=
  ((print_msg_safe_iff _).2 (by decide)).mpr (by decide)

/-- The sixth of six nested tags. -/
theorem print_msg_deep : ¬ Safe (bytes "<a><b><c><d><e><f>") := by
  have hlen : (newmsg (bytes "<a><b><c><d><e><f>")).length < 2 ^ 31 := by decide
  rw [safe_iff_take hlen]
  intro h
  exact absurd (h 5 (by decide)) (by decide)

end PowerGuru.Net.PrintMsg
