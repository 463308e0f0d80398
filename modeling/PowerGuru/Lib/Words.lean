import PowerGuru.Lib.Strtol

/-!
# Words of a stream

`in >> s` of a C++ stream skips white space and takes what follows up to the next. A
stream that has come to its end, or comes to it while it skips, leaves `s` alone.
-/
namespace PowerGuru.Lib.Words

open Bytes Strtol

structure Stream where
  text : List Byte
  eof : Bool
  fail : Bool
  deriving DecidableEq, Repr

def Stream.start (text : List Byte) : Stream := ⟨text, false, false⟩

/-- `in >> s`: the string and the stream afterwards. -/
def extract (st : Stream) (s : List Byte) : List Byte × Stream :=
  if st.eof = true ∨ st.fail = true then (s, { st with fail := true })
  else
    let text := st.text.dropWhile isSpace
    if text = [] then (s, ⟨[], true, true⟩)
    else
      let rest := text.dropWhile fun b => !isSpace b
      (text.takeWhile fun b => !isSpace b, ⟨rest, rest.isEmpty, false⟩)

/-- The words of a text, behind the beginning of one. -/
def wordsFrom (cur : List Byte) : List Byte → List (List Byte)
  | [] => if cur = [] then [] else [cur]
  | b :: text =>
      if isSpace b = true then (if cur = [] then wordsFrom [] text else cur :: wordsFrom [] text)
      else wordsFrom (cur ++ [b]) text

def words (text : List Byte) : List (List Byte) := wordsFrom [] text

theorem words_space {b : Byte} (h : isSpace b = true) (text : List Byte) :
    words (b :: text) = words text := by
  rw [words, wordsFrom, if_pos h, if_pos rfl, words]

theorem words_dropWhile (text : List Byte) : words (text.dropWhile isSpace) = words text := by
  induction text with
  | nil => rfl
  | cons b text ih =>
    by_cases hb : isSpace b = true
    · rw [List.dropWhile_cons_of_pos hb, ih, words_space hb]
    · rw [List.dropWhile_cons_of_neg hb]

theorem wordsFrom_cons {cur : List Byte} (hcur : cur ≠ []) (text : List Byte) :
    wordsFrom cur text =
      (cur ++ text.takeWhile fun b => !isSpace b) ::
        words (text.dropWhile fun b => !isSpace b) := by
  induction text generalizing cur with
  | nil => simp [wordsFrom, hcur, words]
  | cons b text ih =>
    by_cases hb : isSpace b = true
    · rw [wordsFrom, if_pos hb, if_neg hcur]
      change cur :: words text = _
      rw [← words_space hb text]
      simp [hb]
    · rw [wordsFrom, if_neg hb, ih (by simp)]
      simp [hb]

/-- A text that does not begin with white space begins with its first word. -/
theorem words_cons {b : Byte} (hb : isSpace b = false) (text : List Byte) :
    words (b :: text) =
      ((b :: text).takeWhile fun b => !isSpace b) ::
        words ((b :: text).dropWhile fun b => !isSpace b) := by
  rw [words, wordsFrom, if_neg (by simp [hb]), List.nil_append, wordsFrom_cons (by simp)]
  simp [hb]

theorem words_spaces {s : List Byte} (h : s.all isSpace = true) (text : List Byte) :
    words (s ++ text) = words text := by
  induction s with
  | nil => rfl
  | cons b s ih =>
    rw [List.all_cons, Bool.and_eq_true] at h
    rw [List.cons_append, words_space h.1, ih h.2]

theorem wordsFrom_append {b : Byte} (hb : isSpace b = true) (cur x y : List Byte) :
    wordsFrom cur (x ++ b :: y) = wordsFrom cur x ++ words y := by
  induction x generalizing cur with
  | nil =>
    have hstep : wordsFrom cur (b :: y) = if cur = [] then words y else cur :: words y := by
      rw [wordsFrom, if_pos hb]
      rfl
    rw [List.nil_append, hstep, wordsFrom]
    split <;> rfl
  | cons a x ih =>
    rw [List.cons_append, wordsFrom, wordsFrom]
    split
    · split
      · exact ih []
      · rw [ih, List.cons_append]
    · exact ih _

/-- White space ends a word. -/
theorem words_append {b : Byte} (hb : isSpace b = true) (x y : List Byte) :
    words (x ++ b :: y) = words x ++ words y := wordsFrom_append hb [] x y

theorem words_word {w : List Byte} (hne : w ≠ []) (h : w.all (fun b => !isSpace b) = true) :
    words w = [w] := by
  obtain ⟨b, t, rfl⟩ := List.exists_cons_of_ne_nil hne
  have hall := List.all_eq_true.mp h
  have hb : isSpace b = false := by simpa using hall b List.mem_cons_self
  rw [words_cons hb, List.takeWhile_eq_self_iff.mpr hall, List.dropWhile_eq_nil_iff.mpr hall]
  rfl

/-- The stream is at its end, or these are the words to come. -/
def Stream.Holds (st : Stream) (ws : List (List Byte)) : Prop :=
  if st.eof = true then ws = [] else st.fail = false ∧ words st.text = ws

theorem Stream.holds_start (text : List Byte) : (Stream.start text).Holds (words text) := by
  simp [Stream.Holds, Stream.start]

theorem Stream.holds_of_eof {st : Stream} (h : st.eof = true) : st.Holds [] := by
  rw [Stream.Holds, if_pos h]

/-- What is left after white space does not begin with any. -/
theorem not_space_of_dropWhile {l text : List Byte} {b : Byte}
    (h : l.dropWhile isSpace = b :: text) : isSpace b = false := by
  have hhead := List.head_dropWhile_not isSpace (l := l) (by simp [h])
  simpa [h] using hhead

theorem extract_nil {st : Stream} (h : st.Holds []) (s : List Byte) :
    (extract st s).1 = s ∧ (extract st s).2.eof = true := by
  unfold Stream.Holds at h
  by_cases he : st.eof = true
  · simp [extract, he]
  · rw [if_neg he] at h
    have hgood : ¬ (st.eof = true ∨ st.fail = true) := by simp [he, h.1]
    have hnil : st.text.dropWhile isSpace = [] := by
      have hwords := (words_dropWhile st.text).trans h.2
      cases ht : st.text.dropWhile isSpace with
      | nil => rfl
      | cons b text =>
        rw [ht, words_cons (not_space_of_dropWhile ht)] at hwords
        exact absurd hwords (by simp)
    rw [extract, if_neg hgood, hnil]
    exact ⟨rfl, rfl⟩

/-- The next word is taken, and the stream gets shorter. -/
theorem extract_cons {st : Stream} {w : List Byte} {ws : List (List Byte)}
    (h : st.Holds (w :: ws)) (s : List Byte) :
    (extract st s).1 = w ∧ (extract st s).2.Holds ws ∧
      (extract st s).2.text.length < st.text.length := by
  unfold Stream.Holds at h
  by_cases he : st.eof = true
  · rw [if_pos he] at h
    exact absurd h (by simp)
  rw [if_neg he] at h
  have hgood : ¬ (st.eof = true ∨ st.fail = true) := by simp [he, h.1]
  have hwords := (words_dropWhile st.text).trans h.2
  have hlength := (List.dropWhile_suffix (l := st.text) isSpace).length_le
  cases ht : st.text.dropWhile isSpace with
  | nil =>
    rw [ht] at hwords
    exact absurd hwords (by simp [words, wordsFrom])
  | cons b text =>
    have hb := not_space_of_dropWhile ht
    rw [ht, words_cons hb] at hwords
    obtain ⟨hword, hrest⟩ := List.cons.inj hwords
    rw [extract, if_neg hgood]
    dsimp only
    rw [ht, if_neg (by simp)]
    refine ⟨hword, ?_, ?_⟩
    · unfold Stream.Holds
      dsimp only
      rw [hrest]
      split
      · next hempty =>
        rw [List.isEmpty_iff] at hempty
        rw [← hrest, hempty]
        rfl
      · exact ⟨rfl, rfl⟩
    · have hdrop : ((b :: text).dropWhile fun b => !isSpace b) =
          text.dropWhile fun b => !isSpace b := by
        rw [List.dropWhile_cons_of_pos (by simp [hb])]
      have hle := (List.dropWhile_suffix (l := text) fun b => !isSpace b).length_le
      rw [ht, List.length_cons] at hlength
      dsimp only
      rw [hdrop]
      omega

end PowerGuru.Lib.Words
