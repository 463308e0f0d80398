import Mathlib.Algebra.Group.Nat.Defs
import Mathlib.Data.List.Chain
import PowerGuru.Lib.Bytes
import PowerGuru.Lib.Rounds

/-!
# `XantrexUI::GetValues` and `XantrexUI::CleanUpData`

Two passes over a line of the display: one splits off what stands behind its last blank,
the other takes out line ends and repeated blanks.
-/
namespace PowerGuru.Devices.XantrexText

open Lib.Bytes Lib.Rounds

def blank : Byte := 32

/-! ## The values of a line -/

/-- `str.rfind(c, str.length())`. -/
def rfind (c : Byte) (str : List Byte) : Option Nat :=
  if c ∈ str then some (str.length - 1 - (str.reverse.takeWhile (· != c)).length) else none

/-- `str.find("-00", str.length())`, and what is erased if that is found. -/
def eraseMarker (str : List Byte) : List Byte :=
  match cut (bytes "-00") (str.drop str.length) with
  | some (before, _) => str.take (str.length + before.length)
  | none => str

/-- One round of `GetValues`: the string that is scanned and the values so far. -/
def valuesRound (s : List Byte × List (List Byte)) :
    (List Byte × List (List Byte)) ⊕ List (List Byte) :=
  let str := eraseMarker s.1
  match rfind blank str with
  | some pos =>
      let value := str.drop (pos + 1)
      .inl (value, s.2 ++ [value])
  | none => .inr s.2

/-- `GetValues` terminates with this array. -/
def GetValues (str : List Byte) (array : List (List Byte)) : Prop :=
  Returns valuesRound (str, []) array

/-- The search begins behind the end, where nothing is found. -/
theorem eraseMarker_eq (str : List Byte) : eraseMarker str = str := by
  rw [eraseMarker, List.drop_length]
  rfl

theorem rfind_of_not_mem {c : Byte} {str : List Byte} (h : c ∉ str) : rfind c str = none := if_neg h

theorem rfind_append {c : Byte} (s : List Byte) {t : List Byte} (h : c ∉ t) :
    rfind c (s ++ c :: t) = some s.length := by
  have hall : ∀ b ∈ t.reverse, (b != c) = true := by
    intro b hb
    exact bne_iff_ne.mpr fun he => h (he ▸ List.mem_reverse.mp hb)
  have htake : ((s ++ c :: t).reverse.takeWhile (· != c)) = t.reverse := by
    rw [List.reverse_append, List.reverse_cons, List.append_assoc,
      List.takeWhile_append_of_pos hall]
    simp
  rw [rfind, if_pos (by simp), htake, List.length_append, List.length_cons, List.length_reverse,
    Option.some.injEq]
  omega

theorem valuesRound_last {str : List Byte} (h : blank ∉ str) (array : List (List Byte)) :
    valuesRound (str, array) = .inr array := by
  simp only [valuesRound, eraseMarker_eq, rfind_of_not_mem h]

theorem valuesRound_next (s : List Byte) {t : List Byte} (h : blank ∉ t)
    (array : List (List Byte)) :
    valuesRound (s ++ blank :: t, array) = .inl (t, array ++ [t]) := by
  have hdrop : (s ++ blank :: t).drop (s.length + 1) = t := by
    rw [← List.drop_drop, List.drop_left]
    rfl
  simp only [valuesRound, eraseMarker_eq, rfind_append s h, hdrop]

/-- A text without blanks. -/
structure Word where
  chars : List Byte
  nonempty : chars ≠ []
  unbroken : blank ∉ chars

/-- A label, and each value behind one blank or more. -/
structure Line where
  label : List Byte
  unbroken : blank ∉ label
  fields : List (Nat × Word)

def field (f : Nat × Word) : List Byte := List.replicate (f.1 + 1) blank ++ f.2.chars

def Line.text (l : Line) : List Byte := l.label ++ l.fields.flatMap field

def Line.values (l : Line) : List (List Byte) := l.fields.map (·.2.chars)

theorem field_eq (f : Nat × Word) : field f = List.replicate f.1 blank ++ blank :: f.2.chars := by
  rw [field, List.replicate_succ', List.append_assoc, List.singleton_append]

/-- The value found becomes the string, which has no blank. -/
theorem getValues_behind (s : List Byte) (w : Word) (array : List (List Byte)) :
    GetValues (s ++ blank :: w.chars) array ↔ array = [w.chars] := by
  rw [GetValues, returns_next (valuesRound_next s w.unbroken []),
    returns_last (valuesRound_last w.unbroken _), List.nil_append]

/-- `GetValues` ends with the last value alone. -/
theorem getValues_text (l : Line) (array : List (List Byte)) :
    GetValues l.text array ↔ array = l.values.getLast?.toList := by
  rcases List.eq_nil_or_concat l.fields with hnil | ⟨fs, f, hf⟩
  · have htext : l.text = l.label := by simp [Line.text, hnil]
    rw [htext, GetValues, returns_last (valuesRound_last l.unbroken [])]
    simp [Line.values, hnil]
  · have htext : l.text =
        (l.label ++ fs.flatMap field ++ List.replicate f.1 blank) ++ blank :: f.2.chars := by
      simp [Line.text, hf, field_eq]
    rw [htext, getValues_behind]
    simp [Line.values, hf]

/-- No value is lost exactly if there is at most one. -/
theorem getValues_iff (l : Line) : GetValues l.text l.values.reverse ↔ l.values.length ≤ 1 := by
  have hlast : l.values.getLast?.toList.length ≤ 1 := by
    cases l.values.getLast? <;> simp
  rw [getValues_text]
  constructor
  · intro h
    have hlen := congrArg List.length h
    rw [List.length_reverse] at hlen
    omega
  · intro h
    match hv : l.values with
    | [] => rfl
    | [v] => rfl
    | v :: w :: vs =>
      rw [hv, List.length_cons, List.length_cons] at h
      omega

def phases : Line where
  label := bytes "Input"
  unbroken := by decide
  fields := [(0, ⟨bytes "120", by decide, by decide⟩), (0, ⟨bytes "121", by decide, by decide⟩)]

theorem phases_lost :
    GetValues (bytes "Input 120 121") [bytes "121"] ∧
      ¬ GetValues (bytes "Input 120 121") [bytes "121", bytes "120"] := by
  have htext : bytes "Input 120 121" = phases.text := by decide
  rw [htext, getValues_text, getValues_text]
  decide

/-! ## Cleaning up a line -/

def isBreak (c : Byte) : Bool := c == CR || c == LF

/-- What one character adds to `menudisp`; `next` is `str[i+1]`. -/
def cleanByte (c next : Byte) : List Byte :=
  if c = CR ∨ c = LF then []
  else if c = blank then if next = blank then [] else [blank]
  else [c]

/-- One round of `CleanUpData`: the index, an `unsigned int`, and `menudisp`. Behind the
last character of a string stands a NUL. -/
def cleanRound (str : List Byte) (s : UInt32 × List Byte) :
    (UInt32 × List Byte) ⊕ List Byte :=
  if s.1.toNat < str.length then
    .inl (s.1 + 1, s.2 ++ cleanByte (str.getD s.1.toNat NUL) (str.getD (s.1 + 1).toNat NUL))
  else .inr s.2

/-- `CleanUpData` returns this text. -/
def CleanUpData (str menudisp : List Byte) : Prop := Returns (cleanRound str) (0, []) menudisp

/-- The text that is left, a character at a time. -/
def cleaned : List Byte → List Byte
  | [] => []
  | c :: rest => cleanByte c (rest.headD NUL) ++ cleaned rest

theorem cleanRound_drop {str : List Byte} {i : UInt32} {c : Byte} {rest : List Byte}
    (hlen : str.length < 2^32) (h : str.drop i.toNat = c :: rest) (menudisp : List Byte) :
    cleanRound str (i, menudisp) = .inl (i + 1, menudisp ++ cleanByte c (rest.headD NUL)) ∧
      str.drop (i + 1).toNat = rest := by
  have hi : i.toNat < str.length := by
    by_contra hge
    rw [List.drop_eq_nil_of_le (Nat.not_lt.mp hge)] at h
    exact absurd h (by simp)
  have hnext : (i + 1).toNat = i.toNat + 1 := by
    rw [UInt32.toNat_add]
    exact Nat.mod_eq_of_lt (by simpa using by omega)
  have hrest : str.drop (i.toNat + 1) = rest := by rw [← List.drop_drop, h]; rfl
  have hc : str.getD i.toNat NUL = c := by
    rw [List.getD_eq_getElem?_getD, ← List.head?_drop, h]
    rfl
  have hd : str.getD (i.toNat + 1) NUL = rest.headD NUL := by
    rw [List.getD_eq_getElem?_getD, ← List.head?_drop, hrest]
    cases rest <;> rfl
  refine ⟨?_, by rw [hnext, hrest]⟩
  rw [cleanRound, if_pos hi]
  simp only [hnext, hc, hd]

theorem cleanRound_last {str : List Byte} {i : UInt32} (h : str.drop i.toNat = [])
    (menudisp : List Byte) : cleanRound str (i, menudisp) = .inr menudisp := by
  rw [cleanRound, if_neg (Nat.not_lt.mpr (List.drop_eq_nil_iff.mp h))]

theorem returns_cleaned {str : List Byte} (hlen : str.length < 2^32) (rest : List Byte) :
    ∀ {i : UInt32} {menudisp r : List Byte}, str.drop i.toNat = rest →
      (Returns (cleanRound str) (i, menudisp) r ↔ r = menudisp ++ cleaned rest) := by
  induction rest with
  | nil =>
    intro i menudisp r h
    rw [returns_last (cleanRound_last h menudisp), cleaned, List.append_nil]
  | cons c rest ih =>
    intro i menudisp r h
    obtain ⟨hround, hdrop⟩ := cleanRound_drop hlen h menudisp
    rw [returns_next hround, ih hdrop, cleaned, List.append_assoc]

theorem cleanUpData_cleaned {str : List Byte} (hlen : str.length < 2^32) (r : List Byte) :
    CleanUpData str r ↔ r = cleaned str := by
  rw [CleanUpData, returns_cleaned hlen str rfl, List.nil_append]

/-- The index wraps before it gets to the end of a string this long. -/
theorem cleanUpData_endless {str : List Byte} (hlen : 2^32 ≤ str.length) (r : List Byte) :
    ¬ CleanUpData str r := by
  refine not_returns (I := fun _ => True) ?_ trivial r
  intro s _
  have hi : s.1.toNat < str.length := lt_of_lt_of_le s.1.toNat_lt hlen
  exact ⟨_, by rw [cleanRound, if_pos hi], trivial⟩

/-! ## The normal form -/

def NoTwoBlanks (s : List Byte) : Prop := s.IsChain fun a b => ¬ (a = blank ∧ b = blank)

/-- Neither a line end nor a blank. -/
def isOther (c : Byte) : Bool := !(isBreak c || c == blank)

/-- What `CleanUpData` is to make of a string. -/
structure NormalForm (str r : List Byte) : Prop where
  returns : CleanUpData str r
  noBreak : ∀ c ∈ r, isBreak c = false
  noTwoBlanks : NoTwoBlanks r
  others : r.filter isOther = str.filter isOther
  again : CleanUpData r r

/-- A blank, line ends, and a blank. -/
def Bridged (str : List Byte) : Prop :=
  ∃ before breaks after, str = before ++ blank :: (breaks ++ blank :: after) ∧ breaks ≠ [] ∧
    ∀ c ∈ breaks, isBreak c = true

theorem isBreak_iff (c : Byte) : isBreak c = true ↔ c = CR ∨ c = LF := by
  simp [isBreak]

theorem isOther_iff (c : Byte) : isOther c = true ↔ isBreak c = false ∧ c ≠ blank := by
  simp [isOther]

theorem headD_eq_blank (rest : List Byte) :
    rest.headD NUL = blank ↔ rest.head? = some blank := by
  cases rest with
  | nil => decide
  | cons b rest => simp

/-- The ways a character is dealt with. -/
theorem cleaned_cases (c : Byte) (rest : List Byte) :
    (isBreak c = true ∧ cleaned (c :: rest) = cleaned rest) ∨
    (c = blank ∧ rest.head? = some blank ∧ cleaned (c :: rest) = cleaned rest) ∨
    (c = blank ∧ rest.head? ≠ some blank ∧ cleaned (c :: rest) = blank :: cleaned rest) ∨
    (isOther c = true ∧ cleaned (c :: rest) = c :: cleaned rest) := by
  rw [cleaned, cleanByte]
  by_cases hb : isBreak c = true
  · exact .inl ⟨hb, by rw [if_pos ((isBreak_iff c).mp hb), List.nil_append]⟩
  rw [if_neg (fun h => hb ((isBreak_iff c).mpr h))]
  by_cases hc : c = blank
  · rw [if_pos hc]
    by_cases hn : rest.head? = some blank
    · exact .inr (.inl ⟨hc, hn, by rw [if_pos ((headD_eq_blank rest).mpr hn), List.nil_append]⟩)
    · refine .inr (.inr (.inl ⟨hc, hn, ?_⟩))
      rw [if_neg (fun h => hn ((headD_eq_blank rest).mp h)), List.singleton_append]
  · exact .inr (.inr (.inr ⟨(isOther_iff c).mpr ⟨Bool.eq_false_iff.mpr hb, hc⟩,
      by rw [if_neg hc, List.singleton_append]⟩))

theorem blank_not_break : isBreak blank = false := by decide

theorem cleaned_noBreak (s : List Byte) : ∀ c ∈ cleaned s, isBreak c = false := by
  induction s with
  | nil => exact fun c hc => absurd hc List.not_mem_nil
  | cons c s ih =>
    rcases cleaned_cases c s with ⟨-, h⟩ | ⟨-, -, h⟩ | ⟨-, -, h⟩ | ⟨ho, h⟩ <;> rw [h]
    · exact ih
    · exact ih
    · exact List.forall_mem_cons.mpr ⟨blank_not_break, ih⟩
    · exact List.forall_mem_cons.mpr ⟨((isOther_iff c).mp ho).1, ih⟩

theorem filter_cleaned (s : List Byte) : (cleaned s).filter isOther = s.filter isOther := by
  have hblank : isOther blank = false := by decide
  induction s with
  | nil => rfl
  | cons c s ih =>
    rcases cleaned_cases c s with ⟨hb, h⟩ | ⟨rfl, -, h⟩ | ⟨rfl, -, h⟩ | ⟨ho, h⟩ <;> rw [h]
    · have hc : ¬ isOther c = true := by
        rw [isOther_iff, hb]
        simp
      rw [ih, List.filter_cons_of_neg hc]
    · rw [ih, List.filter_cons_of_neg (by rw [hblank]; decide)]
    · rw [List.filter_cons_of_neg (by rw [hblank]; decide), ih,
        List.filter_cons_of_neg (by rw [hblank]; decide)]
    · rw [List.filter_cons_of_pos ho, ih, List.filter_cons_of_pos ho]

theorem length_cleaned_le (s : List Byte) : (cleaned s).length ≤ s.length := by
  induction s with
  | nil => exact Nat.le_refl 0
  | cons c s ih =>
    rcases cleaned_cases c s with ⟨-, h⟩ | ⟨-, -, h⟩ | ⟨-, -, h⟩ | ⟨-, h⟩ <;> rw [h] <;>
      simp only [List.length_cons] <;> omega

/-- The result begins with a blank if the string does behind its first line ends. -/
theorem head_cleaned (s : List Byte) :
    (cleaned s).head? = some blank ↔ (s.dropWhile isBreak).head? = some blank := by
  induction s with
  | nil => rfl
  | cons c s ih =>
    rcases cleaned_cases c s with ⟨hb, h⟩ | ⟨rfl, hn, h⟩ | ⟨rfl, -, h⟩ | ⟨ho, h⟩ <;> rw [h]
    · rw [ih, List.dropWhile_cons_of_pos hb]
    · obtain ⟨t, rfl⟩ := List.head?_eq_some_iff.mp hn
      rw [ih]
      simp [blank_not_break]
    · simp [blank_not_break]
    · simp [((isOther_iff c).mp ho).1]

/-- A bridge begins here or later. -/
theorem bridged_cons (c : Byte) (s : List Byte) :
    Bridged (c :: s) ↔ (c = blank ∧ s.head? ≠ some blank ∧
      (s.dropWhile isBreak).head? = some blank) ∨ Bridged s := by
  constructor
  · rintro ⟨before, breaks, after, hs, hne, hall⟩
    cases before with
    | cons b before =>
      exact .inr ⟨before, breaks, after, (List.cons.inj hs).2, hne, hall⟩
    | nil =>
      obtain ⟨rfl, rfl⟩ := List.cons.inj hs
      refine .inl ⟨rfl, ?_, ?_⟩
      · cases breaks with
        | nil => exact absurd rfl hne
        | cons b breaks =>
          intro he
          have hb := hall b List.mem_cons_self
          rw [show b = blank by simpa using he, blank_not_break] at hb
          exact absurd hb (by decide)
      · rw [List.dropWhile_append_of_pos hall]
        simp [blank_not_break]
  · rintro (⟨rfl, hn, hd⟩ | ⟨before, breaks, after, rfl, hne, hall⟩)
    · obtain ⟨t, ht⟩ := List.head?_eq_some_iff.mp hd
      have hsplit : s = s.takeWhile isBreak ++ blank :: t := by
        rw [← ht, List.takeWhile_append_dropWhile]
      refine ⟨[], s.takeWhile isBreak, t, ?_, ?_, fun b hb => List.mem_takeWhile_imp hb⟩
      · rw [← hsplit, List.nil_append]
      · intro he
        rw [he] at hsplit
        exact hn (by rw [hsplit]; rfl)
    · exact ⟨c :: before, breaks, after, rfl, hne, hall⟩

theorem noTwoBlanks_cons (c : Byte) (r : List Byte) :
    NoTwoBlanks (c :: r) ↔ ¬ (c = blank ∧ r.head? = some blank) ∧ NoTwoBlanks r := by
  cases r with
  | nil => simp [NoTwoBlanks]
  | cons b r => simp [NoTwoBlanks, List.isChain_cons_cons]

/-- Two blanks come together over a bridge and nowhere else. -/
theorem noTwoBlanks_cleaned (s : List Byte) : NoTwoBlanks (cleaned s) ↔ ¬ Bridged s := by
  induction s with
  | nil => simp [cleaned, NoTwoBlanks, Bridged]
  | cons c s ih =>
    rw [bridged_cons]
    rcases cleaned_cases c s with ⟨hb, h⟩ | ⟨rfl, hn, h⟩ | ⟨rfl, hn, h⟩ | ⟨ho, h⟩ <;> rw [h]
    · have hc : c ≠ blank := by
        rintro rfl
        exact absurd hb (by decide)
      simp [ih, hc]
    · simp [ih, hn]
    · rw [noTwoBlanks_cons, head_cleaned, ih]
      simp [hn]
    · rw [noTwoBlanks_cons, ih]
      simp [((isOther_iff c).mp ho).2]

/-- A text in normal form is kept. -/
theorem cleaned_of_normal {r : List Byte} (hb : ∀ c ∈ r, isBreak c = false)
    (hn : NoTwoBlanks r) : cleaned r = r := by
  induction r with
  | nil => rfl
  | cons c r ih =>
    obtain ⟨hc, hr⟩ := List.forall_mem_cons.mp hb
    obtain ⟨hpair, hrest⟩ := (noTwoBlanks_cons c r).mp hn
    rcases cleaned_cases c r with ⟨hb', -⟩ | ⟨rfl, hn', -⟩ | ⟨rfl, -, h⟩ | ⟨-, h⟩
    · exact absurd hb' (by rw [hc]; decide)
    · exact absurd ⟨rfl, hn'⟩ hpair
    · rw [h, ih hr hrest]
    · rw [h, ih hr hrest]

/-- The result is in normal form exactly if the index reaches the end and no two blanks
have line ends only between them. -/
theorem normalForm_iff (str : List Byte) :
    (∃ r, NormalForm str r) ↔ str.length < 2^32 ∧ ¬ Bridged str := by
  constructor
  · rintro ⟨r, h⟩
    have hlen : str.length < 2^32 := by
      by_contra hge
      exact cleanUpData_endless (Nat.not_lt.mp hge) r h.returns
    obtain rfl := (cleanUpData_cleaned hlen r).mp h.returns
    exact ⟨hlen, (noTwoBlanks_cleaned str).mp h.noTwoBlanks⟩
  · rintro ⟨hlen, hbridge⟩
    have htwo := (noTwoBlanks_cleaned str).mpr hbridge
    have hcl : (cleaned str).length < 2^32 := (length_cleaned_le str).trans_lt hlen
    exact ⟨cleaned str,
      { returns := (cleanUpData_cleaned hlen _).mpr rfl
        noBreak := cleaned_noBreak str
        noTwoBlanks := htwo
        others := filter_cleaned str
        again := (cleanUpData_cleaned hcl _).mpr
          (cleaned_of_normal (cleaned_noBreak str) htwo).symm }⟩

theorem splitBlanks_joined :
    CleanUpData (bytes " \n ") (bytes "  ") ∧ ∀ r, ¬ NormalForm (bytes " \n ") r := by
  have hlen : (bytes " \n ").length < 2^32 := by decide
  have hr : CleanUpData (bytes " \n ") (bytes "  ") :=
    (cleanUpData_cleaned hlen _).mpr (by decide)
  refine ⟨hr, fun r h => ?_⟩
  have htwo := h.noTwoBlanks
  rw [Returns.unique h.returns hr] at htwo
  exact absurd htwo (by simp [NoTwoBlanks, bytes, blank])

end PowerGuru.Devices.XantrexText
