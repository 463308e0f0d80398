import Mathlib.Data.List.Sort
import PowerGuru.Lib.NullableTable
import PowerGuru.Lib.SqlText
import PowerGuru.Lib.Times

/-!
# `mergedb.py`: which rows are copied

The SELECT is put together from two clauses and read by the server of the source; every row
that it returns goes into an INSERT for the destination, with `%r` around its texts. Numbers
are taken at their values.
-/
namespace PowerGuru.Store.Mergedb

open Lib.NullableTable Lib.PyRepr Lib.SqlText Lib.Times

/-! ## Rows -/

/-- `varchar(n)`. -/
structure Varchar (n : Nat) where
  text : Text
  fits : text.length ≤ n := by decide
  deriving DecidableEq

inductive Float8 where
  | finite (q : Rat)
  | infinity (negative : Bool)
  | nan
  deriving DecidableEq

/-- A row of `weather`; its timestamp may be NULL. -/
structure Row where
  id : Varchar 12
  temperature : Float8
  temphigh : Float8
  templow : Float8
  humidity : Float8
  scale : Char
  timestamp : Option Timestamp
  deriving DecidableEq

abbrev WeatherTable := Table Row.timestamp

/-! ## The SELECT -/

/-- `SELECT timestamp FROM weather ORDER BY timestamp DESC LIMIT 1`, where NULLs come first. -/
def lastEntry (dest : WeatherTable) : Option (Option Timestamp) :=
  if ∃ r ∈ dest.rows, r.timestamp = none then some none else dest.keys.max?.map some

inductive Comparison where
  | atLeast
  | after
  | atMost
  deriving DecidableEq

def Comparison.text : Comparison → Text
  | .atLeast => ">=".toList
  | .after => ">".toList
  | .atMost => "<=".toList

def selectFrom : Text := "SELECT * FROM weather ".toList

def whereTimestamp : Text := "WHERE timestamp".toList

def orderBy : Text := "ORDER BY timestamp;".toList

section
variable (printable : Char → Bool)

/-- `WHERE timestamp` with `%r`. -/
def clause (op : Comparison) (time : Text) : Text :=
  whereTimestamp ++ (op.text ++ pyRepr printable time)

/-- An exception if the last entry is NULL, which has no `strftime`. -/
def startText (starttime : Option Timestamp) (dest : WeatherTable) : Option Text :=
  match starttime with
  | some t => some (clause printable .atLeast t.text)
  | none =>
      match lastEntry dest with
      | none => some []
      | some none => none
      | some (some t) => some (clause printable .after t.strftime)

/-- What the first `if` assigns for two options is overwritten by the `else` of the second. -/
def endText (starttime endtime : Option Timestamp) : Text :=
  match starttime, endtime with
  | none, some t => ' ' :: clause printable .atMost t.text
  | _, _ => []

def selectText (start stop : Text) : Text :=
  selectFrom ++ (start ++ ' ' :: (stop ++ ' ' :: orderBy))

end

structure Condition where
  op : Comparison
  time : Timestamp

/-- A comparison with NULL does not hold. -/
def Condition.holds (c : Condition) (r : Row) : Bool :=
  match r.timestamp with
  | none => false
  | some t =>
      match c.op with
      | .atLeast => c.time ≤ t
      | .after => c.time < t
      | .atMost => t ≤ c.time

def whereWord : Text := "WHERE ".toList

def andWord : Text := "AND ".toList

def timestampWord : Text := "timestamp".toList

def blanks (s : Text) : Text := s.dropWhile fun c => c == ' '

def readComparison : Text → Option (Comparison × Text)
  | '>' :: '=' :: s => some (.atLeast, s)
  | '>' :: s => some (.after, s)
  | '<' :: '=' :: s => some (.atMost, s)
  | _ => none

/-- A comparison with a literal that is a timestamp. -/
def readCondition (s : Text) : Option (Condition × Text) := do
  let s ← s.dropPrefix? timestampWord
  let (op, s) ← readComparison s
  let (time, s) ← readQuoted s
  let time ← readTimestamp time
  return (⟨op, time⟩, s)

/-- Further conditions, at most so many, and the end of the statement. -/
def readMore : Nat → Text → Option (List Condition)
  | 0, s => if blanks s = orderBy then some [] else none
  | n + 1, s =>
      if blanks s = orderBy then some []
      else
        match (blanks s).dropPrefix? andWord with
        | none => none
        | some s =>
            match readCondition s with
            | none => none
            | some (c, s) => (readMore n s).map fun cs => c :: cs

/-- The conditions of the statement, if the server accepts it. -/
def readSelect (s : Text) : Option (List Condition) :=
  match s.dropPrefix? selectFrom with
  | none => none
  | some s =>
      if blanks s = orderBy then some []
      else
        match (blanks s).dropPrefix? whereWord with
        | none => none
        | some s =>
            match readCondition s with
            | none => none
            | some (c, s) => (readMore s.length s).map fun cs => c :: cs

/-- NULLs come last. -/
def inOrder (r s : Row) : Bool :=
  match r.timestamp, s.timestamp with
  | _, none => true
  | none, some _ => false
  | some t, some u => t ≤ u

/-- What the cursor returns. -/
def selected (conditions : List Condition) (source : WeatherTable) : List Row :=
  (source.rows.filter fun r => conditions.all fun c => c.holds r).mergeSort inOrder

/-! ## The INSERTs -/

/-- Of a text that is too long only blanks are cut off. -/
def toVarchar (n : Nat) (s : Text) : Option (Varchar n) :=
  if h : s.length ≤ n then some ⟨s, h⟩
  else if (s.drop n).all (fun c => c == ' ') = true then
    some ⟨s.take n, List.length_take_le n s⟩
  else none

/-- `char(1)`. -/
def toChar : Text → Option Char
  | [] => some ' '
  | c :: s => if s.all (fun c => c == ' ') = true then some c else none

/-- Without quotes `inf` and `nan` are no numbers. -/
def Float8.bare : Float8 → Option Float8
  | .finite q => some (.finite q)
  | _ => none

section
variable (printable : Char → Bool)

/-- What the server makes of `%r` of a text. -/
def sent (s : Text) : Option Text := literal (pyRepr printable s)

/-- The row that an INSERT stores, if the server accepts it. -/
def insertValues (r : Row) (t : Timestamp) : Option Row := do
  let id ← (sent printable r.id.text).bind (toVarchar 12)
  let humidity ← r.humidity.bare
  let scale ← (sent printable [r.scale]).bind toChar
  let time ← (sent printable t.strftime).bind readTimestamp
  return {
    id
    temperature := r.temperature
    temphigh := r.temphigh
    templow := r.templow
    humidity
    scale
    timestamp := some time }

/-- A NULL has no `strftime` either. -/
def copied (r : Row) : Option Row := r.timestamp.bind (insertValues printable r)

/-- The loop over the cursor, and whether an exception ends it. -/
def copyRows : List Row → WeatherTable → WeatherTable × Bool
  | [], dest => (dest, false)
  | r :: rs, dest =>
      match copied printable r with
      | none => (dest, true)
      | some s => copyRows rs (dest.insert s)

structure Run where
  select : Option Text
  dest : WeatherTable
  raised : Bool

def mergedb (starttime endtime : Option Timestamp) (source dest : WeatherTable) : Run :=
  match startText printable starttime dest with
  | none => { select := none, dest, raised := true }
  | some start =>
      let query := selectText start (endText printable starttime endtime)
      match readSelect query with
      | none => { select := some query, dest, raised := true }
      | some conditions =>
          let (dest, raised) := copyRows printable (selected conditions source) dest
          { select := some query, dest, raised }

end

/-! ## What the SELECT says -/

/-- The conditions that are meant, unless there is an exception or a second `WHERE`. -/
def conditions (starttime endtime : Option Timestamp) (dest : WeatherTable) :
    Option (List Condition) :=
  match starttime, lastEntry dest, endtime with
  | some s, _, _ => some [⟨.atLeast, s⟩]
  | none, none, none => some []
  | none, none, some e => some [⟨.atMost, e⟩]
  | none, some none, _ => none
  | none, some (some t), none => some [⟨.after, t.cut⟩]
  | none, some (some _), some _ => none

theorem conditions_start (s : Timestamp) (endtime : Option Timestamp) (dest : WeatherTable) :
    conditions (some s) endtime dest = some [⟨.atLeast, s⟩] := rfl

theorem conditions_empty {dest : WeatherTable} (h : lastEntry dest = none)
    (endtime : Option Timestamp) :
    conditions none endtime dest = some (endtime.map (Condition.mk .atMost)).toList := by
  unfold conditions
  rw [h]
  cases endtime <;> rfl

theorem conditions_null {dest : WeatherTable} (h : lastEntry dest = some none)
    (endtime : Option Timestamp) : conditions none endtime dest = none := by
  unfold conditions
  rw [h]

theorem conditions_last {dest : WeatherTable} {t : Timestamp} (h : lastEntry dest = some (some t))
    (endtime : Option Timestamp) :
    conditions none endtime dest = if endtime = none then some [⟨.after, t.cut⟩] else none := by
  unfold conditions
  rw [h]
  cases endtime <;> rfl

theorem where_ne_orderBy (s : Text) : whereWord ++ s ≠ orderBy := by
  intro h
  have hw : (whereWord ++ s).head? = some 'W' := rfl
  have ho : orderBy.head? = some 'O' := rfl
  rw [h, ho] at hw
  exact absurd hw (by decide)

theorem blanks_where (s : Text) : blanks (whereWord ++ s) = whereWord ++ s := rfl

theorem dropPrefix_append (p s : Text) : (p ++ s).dropPrefix? p = some s := by
  rw [List.dropPrefix?_eq_some_iff]
  exact ⟨p, rfl, by simp⟩

section
variable {printable : Char → Bool}

theorem readComparison_text (op : Comparison) (s : Text) :
    readComparison (op.text ++ singleQuote :: s) = some (op, singleQuote :: s) := by
  cases op <;> rfl

theorem readCondition_clause (op : Comparison) {time : Text} {t : Timestamp}
    (hclean : Clean printable time) (hread : readTimestamp time = some t) {r : Text}
    (hr : r.head? ≠ some singleQuote) :
    readCondition (timestampWord ++ (op.text ++ (pyRepr printable time ++ r))) =
      some (⟨op, t⟩, r) := by
  have hquoted := readQuoted_pyRepr hclean hr
  rw [pyRepr_clean hclean, List.cons_append] at hquoted ⊢
  simp only [readCondition, dropPrefix_append, readComparison_text, hquoted, hread,
    Option.bind_eq_bind, Option.bind_some]
  rfl

theorem clause_append (op : Comparison) (time r : Text) :
    clause printable op time ++ r =
      whereWord ++ (timestampWord ++ (op.text ++ (pyRepr printable time ++ r))) := by
  have hword : whereTimestamp = whereWord ++ timestampWord := by rfl
  rw [clause, hword, List.append_assoc, List.append_assoc, List.append_assoc]

/-- A statement goes on behind its first clause. -/
theorem readSelect_clause (op : Comparison) {time : Text} {t : Timestamp}
    (hclean : Clean printable time) (hread : readTimestamp time = some t) {r : Text}
    (hr : r.head? ≠ some singleQuote) :
    readSelect (selectFrom ++ (clause printable op time ++ r)) =
      (readMore r.length r).map fun cs => ⟨op, t⟩ :: cs := by
  simp only [readSelect, clause_append, dropPrefix_append, blanks_where,
    if_neg (where_ne_orderBy _), readCondition_clause op hclean hread hr]

theorem head?_blank (s : Text) : (' ' :: s).head? ≠ some singleQuote := by
  rw [List.head?_cons]
  decide

theorem clean_option (t : Timestamp) : Clean printable t.text :=
  clean_of_isTimeChar printable (isTimeChar_text t)

theorem clean_strftime (t : Timestamp) : Clean printable t.strftime :=
  clean_of_isTimeChar printable (isTimeChar_strftime t)

theorem readMore_end {s : Text} (h : blanks s = orderBy) (n : Nat) : readMore n s = some [] := by
  cases n with
  | zero => rw [readMore, if_pos h]
  | succ n => rw [readMore, if_pos h]

/-- The text of the SELECT, if the script comes so far. -/
def statement (printable : Char → Bool) (starttime endtime : Option Timestamp)
    (dest : WeatherTable) : Option Text :=
  (startText printable starttime dest).map fun start =>
    selectText start (endText printable starttime endtime)

/-- Nothing behind the one clause. -/
theorem readSelect_one (op : Comparison) {time : Text} {t : Timestamp}
    (hclean : Clean printable time) (hread : readTimestamp time = some t) :
    readSelect (selectText (clause printable op time) []) = some [⟨op, t⟩] := by
  have hend : blanks (' ' :: ([] ++ ' ' :: orderBy)) = orderBy := by rfl
  rw [selectText, readSelect_clause op hclean hread (head?_blank _), readMore_end hend]
  rfl

theorem readSelect_second (op : Comparison) {time : Text} {t : Timestamp}
    (hclean : Clean printable time) (hread : readTimestamp time = some t) (op' : Comparison)
    (time' : Text) :
    readSelect (selectText (clause printable op time) (' ' :: clause printable op' time')) =
      none := by
  have hmore : ∀ n s, readMore n (' ' :: (' ' :: (whereWord ++ s))) = none := by
    intro n s
    have hblanks : blanks (' ' :: (' ' :: (whereWord ++ s))) = whereWord ++ s := rfl
    have hand : (whereWord ++ s).dropPrefix? andWord = none := rfl
    cases n with
    | zero => rw [readMore, hblanks, if_neg (where_ne_orderBy s)]
    | succ n => rw [readMore, hblanks, if_neg (where_ne_orderBy s), hand]
  rw [selectText, List.cons_append, clause_append op',
    readSelect_clause op hclean hread (head?_blank _), hmore, Option.map_none]

/-- The one clause may be the second piece. -/
theorem readSelect_stop {time : Text} {t : Timestamp} (hclean : Clean printable time)
    (hread : readTimestamp time = some t) (op : Comparison) :
    readSelect (selectText [] (' ' :: clause printable op time)) = some [⟨op, t⟩] := by
  have hblanks : ∀ s, readSelect (selectFrom ++ ' ' :: ' ' :: s) =
      readSelect (selectFrom ++ s) := by
    intro s
    simp only [readSelect, dropPrefix_append]
    rfl
  have hend : blanks (' ' :: orderBy) = orderBy := by rfl
  rw [selectText, List.nil_append, List.cons_append, hblanks,
    readSelect_clause op hclean hread (head?_blank _), readMore_end hend]
  rfl

/-- The server reads the conditions that are meant, or none. -/
theorem readSelect_statement (printable : Char → Bool) (starttime endtime : Option Timestamp)
    (dest : WeatherTable) :
    (statement printable starttime endtime dest).bind readSelect =
      conditions starttime endtime dest := by
  unfold statement
  cases starttime with
  | some s => exact readSelect_one .atLeast (clean_option s) (readTimestamp_text s)
  | none =>
    unfold startText conditions
    cases lastEntry dest with
    | none =>
      cases endtime with
      | none => rfl
      | some e => exact readSelect_stop (clean_option e) (readTimestamp_text e) .atMost
    | some last =>
      cases last with
      | none => rfl
      | some t =>
        cases endtime with
        | none => exact readSelect_one .after (clean_strftime t) (readTimestamp_cut t)
        | some e =>
          exact readSelect_second .after (clean_strftime t) (readTimestamp_cut t) .atMost _

/-! ## The rows in order -/

/-- Both have a timestamp, and the first the lesser one. -/
def Row.Before (r s : Row) : Prop := ∃ t u, r.timestamp = some t ∧ s.timestamp = some u ∧ t < u

theorem before_irrefl (r : Row) : ¬ r.Before r := by
  rintro ⟨t, u, ht, hu, hlt⟩
  obtain rfl : t = u := Option.some.inj (ht.symm.trans hu)
  exact lt_irrefl t hlt

theorem inOrder_trans (r s t : Row) (hrs : inOrder r s = true) (hst : inOrder s t = true) :
    inOrder r t = true := by
  unfold inOrder at *
  cases hr : r.timestamp with
  | none => cases hs : s.timestamp <;> cases ht : t.timestamp <;> simp_all
  | some a =>
    cases hs : s.timestamp with
    | none => cases ht : t.timestamp <;> simp_all
    | some b =>
      cases ht : t.timestamp with
      | none => rfl
      | some c =>
        simp only [hr, hs, ht, decide_eq_true_eq] at hrs hst ⊢
        exact le_trans hrs hst

theorem inOrder_total (r s : Row) : (inOrder r s || inOrder s r) = true := by
  unfold inOrder
  cases r.timestamp with
  | none => cases s.timestamp <;> rfl
  | some a =>
    cases s.timestamp with
    | none => rfl
    | some b =>
      simp only [Bool.or_eq_true, decide_eq_true_eq]
      exact le_total a b

theorem mem_selected {cs : List Condition} {source : WeatherTable} {r : Row} :
    r ∈ selected cs source ↔ r ∈ source.rows ∧ ∀ c ∈ cs, c.holds r = true := by
  rw [selected, (List.mergeSort_perm _ _).mem_iff, List.mem_filter, List.all_eq_true]

/-- No two rows that are returned are of one time. -/
theorem selected_pairwise (cs : List Condition) (source : WeatherTable) :
    (selected cs source).Pairwise fun r s => ¬ s.Before r ∧ (s.timestamp ≠ none → r.Before s) := by
  have hsorted : (selected cs source).Pairwise fun r s => inOrder r s = true :=
    List.pairwise_mergeSort inOrder_trans inOrder_total _
  have hunique : ((selected cs source).filterMap Row.timestamp).Nodup := by
    have hperm := (List.mergeSort_perm (source.rows.filter fun r => cs.all fun c => c.holds r)
      inOrder).filterMap Row.timestamp
    rw [selected, hperm.nodup_iff]
    exact source.unique.sublist (List.filter_sublist.filterMap Row.timestamp)
  have hdistinct := List.pairwise_filterMap.mp hunique
  refine (hsorted.and hdistinct).imp ?_
  rintro r s ⟨horder, hne⟩
  unfold inOrder at horder
  constructor
  · rintro ⟨u, t, hu, ht, hlt⟩
    simp only [ht, hu, decide_eq_true_eq] at horder
    exact absurd horder (not_le.mpr hlt)
  · intro hs
    obtain ⟨u, hu⟩ := Option.ne_none_iff_exists'.mp hs
    cases ht : r.timestamp with
    | none => simp [ht, hu] at horder
    | some t =>
      simp only [ht, hu, decide_eq_true_eq] at horder
      exact ⟨t, u, ht, hu, lt_of_le_of_ne horder (hne t ht u hu)⟩

/-! ## What a run adds -/

theorem sent_strftime (t : Timestamp) :
    (sent printable t.strftime).bind readTimestamp = some t.cut := by
  rw [sent, (literal_pyRepr_iff t.strftime).mpr (clean_strftime t)]
  exact readTimestamp_cut t

/-- What is stored has the second of the row. -/
theorem copied_timestamp {r s : Row} (h : copied printable r = some s) :
    ∃ t, r.timestamp = some t ∧ s.timestamp = some t.cut := by
  obtain ⟨t, ht, h⟩ := Option.bind_eq_some_iff.mp h
  refine ⟨t, ht, ?_⟩
  simp only [insertValues, Option.bind_eq_bind, sent_strftime, Option.bind_some,
    Option.bind_eq_some_iff] at h
  obtain ⟨id, -, humidity, -, scale, -, hs⟩ := h
  rw [← Option.some.inj hs]

/-- Nothing in the row that an INSERT would refuse or spell in another way. -/
structure Row.Sound (printable : Char → Bool) (r : Row) : Prop where
  id : Clean printable r.id.text
  scale : Clean printable [r.scale]
  humidity : ∃ q, r.humidity = .finite q
  dated : r.timestamp ≠ none

def Row.cut (r : Row) : Row := { r with timestamp := r.timestamp.map Timestamp.cut }

/-- Of a sound row only the part of a second is lost. -/
theorem copied_of_sound {r : Row} (h : r.Sound printable) : copied printable r = some r.cut := by
  obtain ⟨q, hq⟩ := h.humidity
  obtain ⟨t, ht⟩ := Option.ne_none_iff_exists'.mp h.dated
  have hid : (sent printable r.id.text).bind (toVarchar 12) = some r.id := by
    rw [sent, (literal_pyRepr_iff _).mpr h.id, Option.bind_some, toVarchar, dif_pos r.id.fits]
  have hscale : (sent printable [r.scale]).bind toChar = some r.scale := by
    rw [sent, (literal_pyRepr_iff _).mpr h.scale]
    rfl
  have hbare : r.humidity.bare = some r.humidity := by rw [hq]; rfl
  rw [copied, ht, Option.bind_some]
  simp only [insertValues, hid, hbare, hscale, sent_strftime, Option.bind_eq_bind,
    Option.bind_some, Row.cut, ht, Option.map_some]
  rfl

theorem count_blanks {s : Text} (h : s.all (fun c => c == ' ') = true) :
    List.count backslash s = 0 := by
  rw [List.count_eq_zero]
  intro hm
  exact absurd (List.all_eq_true.mp h backslash hm) (by decide)

theorem count_of_toVarchar {n : Nat} {v : Text} {w : Varchar n} (h : toVarchar n v = some w) :
    List.count backslash v = List.count backslash w.text := by
  unfold toVarchar at h
  split at h
  · rw [← Option.some.inj h]
  · split at h
    · next hblank =>
      rw [← Option.some.inj h]
      nth_rewrite 1 [← List.take_append_drop n v]
      rw [List.count_append, count_blanks hblank, Nat.add_zero]
    · exact absurd h (by simp)

theorem count_of_toChar {v : Text} {c : Char} (h : toChar v = some c) :
    List.count backslash v = List.count backslash [c] := by
  unfold toChar at h
  split at h
  · rw [← Option.some.inj h]
    rfl
  · next d s =>
    split at h
    · next hblank =>
      rw [← Option.some.inj h, List.count_cons, count_blanks hblank, List.count_cons,
        List.count_nil]
    · exact absurd h (by simp)

/-- Only of a sound row no more than the part of a second is lost. -/
theorem copied_eq_cut_iff (r : Row) : copied printable r = some r.cut ↔ r.Sound printable := by
  refine ⟨fun h => ?_, copied_of_sound⟩
  obtain ⟨t, ht, h⟩ := Option.bind_eq_some_iff.mp h
  simp only [insertValues, Option.bind_eq_bind, sent_strftime, Option.bind_some,
    Option.bind_eq_some_iff] at h
  obtain ⟨id, ⟨v, hv, hid⟩, humidity, hbare, scale, ⟨w, hw, hscale⟩, hrow⟩ := h
  obtain ⟨hsame, hhumid, hchar⟩ :
      id = r.id ∧ humidity = r.humidity ∧ scale = r.scale := by
    have hcut := Option.some.inj hrow
    exact ⟨congrArg Row.id hcut, congrArg Row.humidity hcut, congrArg Row.scale hcut⟩
  refine ⟨?_, ?_, ?_, by simp [ht]⟩
  · rw [hsame] at hid
    exact clean_of_literal hv (count_of_toVarchar hid).le
  · rw [hchar] at hscale
    exact clean_of_literal hw (count_of_toChar hscale).le
  · rw [hhumid] at hbare
    cases hr : r.humidity with
    | finite q => exact ⟨q, rfl⟩
    | infinity => rw [hr] at hbare; exact absurd hbare (by simp [Float8.bare])
    | nan => rw [hr] at hbare; exact absurd hbare (by simp [Float8.bare])

theorem copyRows_eq (rs : List Row) (dest : WeatherTable) :
    (copyRows printable rs dest).1 = dest.insertAll (upToFailure (copied printable) rs) := by
  induction rs generalizing dest with
  | nil => rfl
  | cons r rs ih =>
    rw [copyRows, upToFailure]
    cases copied printable r with
    | none => rfl
    | some s => exact ih (dest.insert s)

/-- The rows that go into the destination. -/
def copies (printable : Char → Bool) (cs : List Condition) (source : WeatherTable) : List Row :=
  upToFailure (copied printable) (selected cs source)

theorem mergedb_select (starttime endtime : Option Timestamp) (source dest : WeatherTable) :
    (mergedb printable starttime endtime source dest).select =
      statement printable starttime endtime dest := by
  unfold mergedb statement
  cases startText printable starttime dest with
  | none => rfl
  | some start =>
    simp only [Option.map_some]
    cases readSelect (selectText start (endText printable starttime endtime)) <;> rfl

theorem mergedb_dest (starttime endtime : Option Timestamp) (source dest : WeatherTable) :
    (mergedb printable starttime endtime source dest).dest =
      ((conditions starttime endtime dest).map fun cs =>
        dest.insertAll (copies printable cs source)).getD dest := by
  rw [← readSelect_statement printable, mergedb, statement]
  cases startText printable starttime dest with
  | none => rfl
  | some start =>
    simp only [Option.map_some, Option.bind_some]
    cases readSelect (selectText start (endText printable starttime endtime)) with
    | none => rfl
    | some cs => exact copyRows_eq (selected cs source) dest

theorem copies_keyed (cs : List Condition) (source : WeatherTable) :
    ∀ s ∈ copies printable cs source, s.timestamp ≠ none := by
  intro s hs
  obtain ⟨r, -, hr⟩ := exists_of_mem_upToFailure hs
  obtain ⟨t, -, ht⟩ := copied_timestamp hr
  simp [ht]

theorem selected_copied_pairwise (printable : Char → Bool) (cs : List Condition)
    (source : WeatherTable) :
    (selected cs source).Pairwise fun r s =>
      ¬ s.Before r ∧ (copied printable s ≠ none → r.Before s) := by
  refine (selected_pairwise cs source).imp ?_
  rintro r s ⟨hnot, hbefore⟩
  refine ⟨hnot, fun hs => hbefore ?_⟩
  intro hnone
  exact hs (by rw [copied, hnone]; rfl)

/-- A row is copied if no row before it fails. -/
theorem mem_copies {cs : List Condition} {source : WeatherTable} {s : Row} :
    s ∈ copies printable cs source ↔
      ∃ r ∈ selected cs source, copied printable r = some s ∧
        ∀ x ∈ selected cs source, x.Before r → copied printable x ≠ none := by
  exact mem_upToFailure_iff before_irrefl (selected_copied_pairwise printable cs source)

/-! ### A second run -/

theorem lastEntry_eq_some_some {dest : WeatherTable} {t : Timestamp}
    (h : lastEntry dest = some (some t)) : t ∈ dest.keys ∧ ∀ u ∈ dest.keys, u ≤ t := by
  unfold lastEntry at h
  split at h
  · exact absurd h (by simp)
  · obtain ⟨m, hm, he⟩ := Option.map_eq_some_iff.mp h
    obtain rfl : m = t := Option.some.inj he
    exact List.max?_eq_some_iff.mp hm

theorem lastEntry_eq_none_iff (dest : WeatherTable) : lastEntry dest = none ↔ dest.rows = [] := by
  unfold lastEntry
  split
  · next h =>
    obtain ⟨r, hr, -⟩ := h
    exact iff_of_false (by simp) fun he => by rw [he] at hr; exact absurd hr List.not_mem_nil
  · next h =>
    rw [Option.map_eq_none_iff, List.max?_eq_none_iff]
    constructor
    · intro hk
      rw [List.eq_nil_iff_forall_not_mem]
      intro r hr
      cases ht : r.timestamp with
      | none => exact h ⟨r, hr, ht⟩
      | some t =>
        have hmem : t ∈ dest.keys := Table.mem_keys.mpr ⟨r, hr, ht⟩
        rw [hk] at hmem
        exact absurd hmem List.not_mem_nil
    · exact Table.keys_eq_nil

/-- Behind the second of its last entry the destination gains nothing from the same rows. -/
theorem copies_behind {cs : List Condition} {source dest : WeatherTable} {t : Timestamp}
    (hcs : ∀ r ∈ source.rows, (⟨.after, t.cut⟩ : Condition).holds r = true →
      ∀ c ∈ cs, c.holds r = true)
    (hlast : lastEntry (dest.insertAll (copies printable cs source)) = some (some t))
    (hold : t ∈ dest.keys → ∀ r ∈ selected cs source,
      (⟨.after, t.cut⟩ : Condition).holds r = true) :
    ∀ s ∈ copies printable [⟨.after, t.cut⟩] source, s ∈ copies printable cs source := by
  have hafter : ∀ {r : Row}, r ∈ selected [⟨.after, t.cut⟩] source ↔
      r ∈ source.rows ∧ (⟨.after, t.cut⟩ : Condition).holds r = true := by
    intro r
    rw [mem_selected, List.forall_mem_singleton]
  intro s hs
  obtain ⟨r, hr, hcopied, hbefore⟩ := mem_copies.mp hs
  obtain ⟨hr, hholds⟩ := hafter.mp hr
  refine mem_copies.mpr ⟨r, mem_selected.mpr ⟨hr, hcs r hr hholds⟩, hcopied, ?_⟩
  intro x hx hlt hfail
  by_cases hxt : (⟨.after, t.cut⟩ : Condition).holds x = true
  · exact hbefore x (hafter.mpr ⟨(mem_selected.mp hx).1, hxt⟩) hlt hfail
  -- the last entry is a copy of a row in front of the one that failed, yet not behind it
  rcases Table.mem_keys_insertAll.mp (lastEntry_eq_some_some hlast).1 with ht | ⟨c, hc, hct⟩
  · exact hxt (hold ht x hx)
  obtain ⟨f, hf, hfc, hfbefore⟩ := mem_copies.mp hc
  obtain ⟨u, hu, hcu⟩ := copied_timestamp hfc
  obtain rfl : u.cut = t := Option.some.inj (hcu.symm.trans hct)
  obtain ⟨v, w, hv, -, -⟩ := hlt
  have hle : u ≤ v := not_lt.mp fun hvu => hfbefore x hx ⟨v, u, hv, hu, hvu⟩ hfail
  have hge : v ≤ u.cut := by
    rw [Condition.holds, hv, decide_eq_true_eq] at hxt
    exact not_lt.mp hxt
  obtain rfl : u = v := le_antisymm hle (hge.trans (cut_le u))
  have hsame : f = x := source.eq_of_key (mem_selected.mp hf).1 (mem_selected.mp hx).1 hu hv
  rw [hsame, hfail] at hfc
  exact absurd hfc (by simp)

theorem holds_after {t : Timestamp} {r : Row} :
    (⟨.after, t⟩ : Condition).holds r = true ↔ ∃ u, r.timestamp = some u ∧ t < u := by
  cases hu : r.timestamp <;> simp [Condition.holds, hu]

/-- Without a start a SELECT is made for an empty destination, or from its last entry on. -/
theorem conditions_open {endtime : Option Timestamp} {dest : WeatherTable} {cs : List Condition}
    (h : conditions none endtime dest = some cs) :
    (dest.rows = [] ∧ cs = (endtime.map (Condition.mk .atMost)).toList) ∨
      ∃ t, lastEntry dest = some (some t) ∧ endtime = none ∧ cs = [⟨.after, t.cut⟩] := by
  cases hlast : lastEntry dest with
  | none =>
    rw [conditions_empty hlast] at h
    exact Or.inl ⟨(lastEntry_eq_none_iff dest).mp hlast, (Option.some.inj h).symm⟩
  | some last =>
    cases last with
    | none => rw [conditions_null hlast] at h; exact absurd h (by simp)
    | some t =>
      rw [conditions_last hlast] at h
      split at h
      · next hend => exact Or.inr ⟨t, rfl, hend, (Option.some.inj h).symm⟩
      · exact absurd h (by simp)

/-- What a second run copies the first one has copied. -/
theorem copies_again {starttime endtime : Option Timestamp} {source dest : WeatherTable}
    {cs cs' : List Condition} (h : conditions starttime endtime dest = some cs)
    (h' : conditions starttime endtime (dest.insertAll (copies printable cs source)) = some cs') :
    ∀ s ∈ copies printable cs' source, s ∈ copies printable cs source := by
  cases starttime with
  | some s =>
    obtain rfl : cs = cs' := Option.some.inj (h.symm.trans h')
    exact fun s hs => hs
  | none =>
    rcases conditions_open h with ⟨hrows, rfl⟩ | ⟨t, hlast, rfl, rfl⟩
    · rcases conditions_open h' with ⟨-, rfl⟩ | ⟨t, hlast', rfl, rfl⟩
      · exact fun s hs => hs
      · refine copies_behind (fun _ _ _ c hc => absurd hc List.not_mem_nil) hlast' ?_
        intro ht
        rw [Table.keys_eq_nil hrows] at ht
        exact absurd ht List.not_mem_nil
    · obtain ⟨htmem, htmax⟩ := lastEntry_eq_some_some hlast
      have hkept : t ∈ (dest.insertAll (copies printable [⟨.after, t.cut⟩] source)).keys :=
        Table.mem_keys_insertAll.mpr (Or.inl htmem)
      rcases conditions_open h' with ⟨hrows, -⟩ | ⟨t', hlast', -, rfl⟩
      · rw [Table.keys_eq_nil hrows] at hkept
        exact absurd hkept List.not_mem_nil
      · refine copies_behind ?_ hlast' ?_
        · intro r _ hr c hc
          obtain rfl := List.mem_singleton.mp hc
          obtain ⟨u, hu, hlt⟩ := holds_after.mp hr
          have hmono := cut_mono ((lastEntry_eq_some_some hlast').2 t hkept)
          exact holds_after.mpr ⟨u, hu, hmono.trans_lt hlt⟩
        · intro ht' r hr
          have hsel := (mem_selected.mp hr).2 _ (List.mem_singleton_self _)
          obtain ⟨u, hu, hlt⟩ := holds_after.mp hsel
          exact holds_after.mpr ⟨u, hu, (cut_mono (htmax t' ht')).trans_lt hlt⟩

/-- A second run adds nothing. -/
theorem mergedb_again (starttime endtime : Option Timestamp) (source dest : WeatherTable) :
    (mergedb printable starttime endtime source
      (mergedb printable starttime endtime source dest).dest).dest =
        (mergedb printable starttime endtime source dest).dest := by
  cases h : conditions starttime endtime dest with
  | none =>
    have hsame : (mergedb printable starttime endtime source dest).dest = dest := by
      rw [mergedb_dest, h]
      rfl
    rw [hsame, hsame]
  | some cs =>
    have hdest : (mergedb printable starttime endtime source dest).dest =
        dest.insertAll (copies printable cs source) := by
      rw [mergedb_dest, h]
      rfl
    rw [hdest, mergedb_dest]
    cases h' : conditions starttime endtime (dest.insertAll (copies printable cs source)) with
    | none => rfl
    | some cs' =>
      refine Table.insertAll_of_conflicts fun s hs => ?_
      obtain ⟨t, ht⟩ := Option.ne_none_iff_exists'.mp (copies_keyed cs' source s hs)
      have hmem := copies_again h h' s hs
      exact ⟨t, Table.mem_keys_insertAll.mpr (Or.inr ⟨s, hmem, ht⟩), ht⟩

/-! ## The window -/

def InWindow (starttime endtime : Option Timestamp) (r : Row) : Prop :=
  (∀ s, starttime = some s → ∃ t, r.timestamp = some t ∧ s ≤ t) ∧
    ∀ e, endtime = some e → ∃ t, r.timestamp = some t ∧ t ≤ e

/-- The rows of the source in the window that the destination does not have. -/
def Wanted (starttime endtime : Option Timestamp) (source dest : WeatherTable) (r : Row) : Prop :=
  r ∈ source.rows ∧ InWindow starttime endtime r ∧ r ∉ dest.rows

/-- The run does what the options say, and does nothing when it is repeated. -/
structure CopiesWindow (printable : Char → Bool) (starttime endtime : Option Timestamp)
    (source dest : WeatherTable) : Prop where
  wellFormed : ∃ query cs,
    (mergedb printable starttime endtime source dest).select = some query ∧
      readSelect query = some cs
  exact : ∀ r, r ∈ (mergedb printable starttime endtime source dest).dest.rows ∧ r ∉ dest.rows ↔
    Wanted starttime endtime source dest r
  complete : starttime = none → endtime = none →
    ∀ r ∈ source.rows, r ∈ (mergedb printable starttime endtime source dest).dest.rows
  again : (mergedb printable starttime endtime source
      (mergedb printable starttime endtime source dest).dest).dest =
        (mergedb printable starttime endtime source dest).dest

/-- What the `WHERE` lets through, if there is one: an end counts only without a start. -/
def Through (starttime endtime : Option Timestamp) (dest : WeatherTable) (r : Row) : Prop :=
  (∀ s, starttime = some s → ∃ t, r.timestamp = some t ∧ s ≤ t) ∧
    (starttime = none → (∀ u ∈ dest.keys, ∃ t, r.timestamp = some t ∧ u.cut < t) ∧
      ∀ e, endtime = some e → ∃ t, r.timestamp = some t ∧ t ≤ e)

/-- The loop comes to the row: no row in front of it fails. -/
structure Reached (printable : Char → Bool) (starttime endtime : Option Timestamp)
    (source dest : WeatherTable) (r : Row) : Prop where
  mem : r ∈ source.rows
  through : Through starttime endtime dest r
  behind : ∀ x ∈ source.rows, Through starttime endtime dest x → x.Before r →
    copied printable x ≠ none

/-- No row in front of this one is of its second. -/
def FirstOfSecond (starttime endtime : Option Timestamp) (source dest : WeatherTable) (r : Row) :
    Prop :=
  ∀ x ∈ source.rows, Through starttime endtime dest x → x.Before r →
    x.timestamp.map Timestamp.cut ≠ r.timestamp.map Timestamp.cut

structure Copyable (printable : Char → Bool) (starttime endtime : Option Timestamp)
    (source dest : WeatherTable) : Prop where
  dated : starttime = none → ∀ r ∈ dest.rows, r.timestamp ≠ none
  oneClause : starttime = none → endtime ≠ none → dest.rows = []
  arrives : ∀ w, Wanted starttime endtime source dest w →
    (∀ t, w.timestamp = some t → t ∉ dest.keys) ∧
      ∃ r, Reached printable starttime endtime source dest r ∧
        FirstOfSecond starttime endtime source dest r ∧ copied printable r = some w
  nothingElse : ∀ r, Reached printable starttime endtime source dest r →
    copied printable r ≠ none → ∀ t, r.timestamp = some t →
      t.cut ∈ dest.keys ∨ ∃ w, Wanted starttime endtime source dest w ∧ w.timestamp = some t.cut

theorem lastEntry_null_iff (dest : WeatherTable) :
    lastEntry dest = some none ↔ ∃ r ∈ dest.rows, r.timestamp = none := by
  unfold lastEntry
  split
  · next h => exact iff_of_true rfl h
  · next h => exact iff_of_false (by simp) h

theorem conditions_ne_none_iff (starttime endtime : Option Timestamp) (dest : WeatherTable) :
    conditions starttime endtime dest ≠ none ↔
      (starttime = none → ∀ r ∈ dest.rows, r.timestamp ≠ none) ∧
        (starttime = none → endtime ≠ none → dest.rows = []) := by
  cases starttime with
  | some s => simp [conditions_start]
  | none =>
    simp only [forall_const]
    cases hlast : lastEntry dest with
    | none =>
      have hrows := (lastEntry_eq_none_iff dest).mp hlast
      simp [conditions_empty hlast, hrows]
    | some last =>
      cases last with
      | none =>
        obtain ⟨r, hr, hnull⟩ := (lastEntry_null_iff dest).mp hlast
        rw [conditions_null hlast]
        exact iff_of_false (by simp) fun h => h.1 r hr hnull
      | some t =>
        have hdated : ∀ r ∈ dest.rows, r.timestamp ≠ none := by
          intro r hr hnull
          rw [(lastEntry_null_iff dest).mpr ⟨r, hr, hnull⟩] at hlast
          exact absurd hlast (by simp)
        have hrows : dest.rows ≠ [] := by
          intro he
          rw [(lastEntry_eq_none_iff dest).mpr he] at hlast
          exact absurd hlast (by simp)
        rw [conditions_last hlast, and_iff_right hdated]
        cases endtime <;> simp [hrows]

theorem readable_iff (starttime endtime : Option Timestamp) (source dest : WeatherTable) :
    (∃ query cs, (mergedb printable starttime endtime source dest).select = some query ∧
      readSelect query = some cs) ↔ conditions starttime endtime dest ≠ none := by
  rw [mergedb_select, ← readSelect_statement printable, Option.ne_none_iff_exists']
  constructor
  · rintro ⟨query, cs, hquery, hcs⟩
    exact ⟨cs, by rw [hquery, Option.bind_some, hcs]⟩
  · rintro ⟨cs, h⟩
    obtain ⟨query, hquery, hcs⟩ := Option.bind_eq_some_iff.mp h
    exact ⟨query, cs, hquery, hcs⟩

theorem holds_atLeast {t : Timestamp} {r : Row} :
    (⟨.atLeast, t⟩ : Condition).holds r = true ↔ ∃ u, r.timestamp = some u ∧ t ≤ u := by
  cases hu : r.timestamp <;> simp [Condition.holds, hu]

theorem holds_atMost {t : Timestamp} {r : Row} :
    (⟨.atMost, t⟩ : Condition).holds r = true ↔ ∃ u, r.timestamp = some u ∧ u ≤ t := by
  cases hu : r.timestamp <;> simp [Condition.holds, hu]

/-- The conditions of the SELECT hold for the rows that are let through. -/
theorem conditions_hold_iff {starttime endtime : Option Timestamp} {dest : WeatherTable}
    {cs : List Condition} (h : conditions starttime endtime dest = some cs) (r : Row) :
    (∀ c ∈ cs, c.holds r = true) ↔ Through starttime endtime dest r := by
  cases starttime with
  | some s =>
    obtain rfl : [⟨.atLeast, s⟩] = cs := Option.some.inj h
    simp [Through, holds_atLeast]
  | none =>
    rcases conditions_open h with ⟨hrows, rfl⟩ | ⟨t, hlast, rfl, rfl⟩
    · cases endtime <;> simp [Through, Table.keys_eq_nil hrows, holds_atMost]
    · obtain ⟨htmem, htmax⟩ := lastEntry_eq_some_some hlast
      rw [List.forall_mem_singleton, holds_after]
      constructor
      · rintro ⟨u, hu, hlt⟩
        refine ⟨by simp, fun _ => ⟨?_, by simp⟩⟩
        intro k hk
        exact ⟨u, hu, (cut_mono (htmax k hk)).trans_lt hlt⟩
      · intro hr
        exact (hr.2 rfl).1 t htmem

section
variable {printable : Char → Bool} {starttime endtime : Option Timestamp}
  {source dest : WeatherTable} {cs : List Condition}

theorem mem_selected_iff (h : conditions starttime endtime dest = some cs) {r : Row} :
    r ∈ selected cs source ↔ r ∈ source.rows ∧ Through starttime endtime dest r := by
  rw [mem_selected, conditions_hold_iff h]

theorem mem_copies_iff (h : conditions starttime endtime dest = some cs) {s : Row} :
    s ∈ copies printable cs source ↔
      ∃ r, Reached printable starttime endtime source dest r ∧ copied printable r = some s := by
  rw [mem_copies]
  simp only [mem_selected_iff h]
  constructor
  · rintro ⟨r, ⟨hr, hthrough⟩, hs, hbefore⟩
    exact ⟨r, ⟨hr, hthrough, fun x hx hxt => hbefore x ⟨hx, hxt⟩⟩, hs⟩
  · rintro ⟨r, hr, hs⟩
    exact ⟨r, ⟨hr.mem, hr.through⟩, hs, fun x hx => hr.behind x hx.1 hx.2⟩

theorem copied_cut {r s : Row} (h : copied printable r = some s) :
    s.timestamp = r.timestamp.map Timestamp.cut := by
  obtain ⟨t, ht, hs⟩ := copied_timestamp h
  rw [hs, ht, Option.map_some]

/-- The row that is gained is what the first row of its second is stored as. -/
theorem gains_iff (h : conditions starttime endtime dest = some cs) {w : Row} :
    dest.Gains (copies printable cs source) w ↔
      (∀ t, w.timestamp = some t → t ∉ dest.keys) ∧
        ∃ r, Reached printable starttime endtime source dest r ∧
          FirstOfSecond starttime endtime source dest r ∧ copied printable r = some w := by
  have hfind {t : Timestamp} := find?_upToFailure_iff before_irrefl
    (selected_copied_pairwise printable cs source) (b := w)
    (p := fun s => decide (s.timestamp = some t))
  simp only [decide_eq_true_eq, Bool.not_eq_true', decide_eq_false_iff_not, mem_selected_iff h]
    at hfind
  constructor
  · rintro ⟨t, ht, htk, hgain⟩
    obtain ⟨-, r, ⟨hr, hthrough⟩, hs, hbefore⟩ := hfind.mp hgain
    refine ⟨?_, r, ⟨hr, hthrough, ?_⟩, ?_, hs⟩
    · intro t' ht'
      rwa [← Option.some.inj (ht.symm.trans ht')]
    · intro x hx hxt hlt hfail
      obtain ⟨c, hc, -⟩ := hbefore x ⟨hx, hxt⟩ hlt
      exact absurd (hfail.symm.trans hc) (by simp)
    · intro x hx hxt hlt
      obtain ⟨c, hc, hne⟩ := hbefore x ⟨hx, hxt⟩ hlt
      rwa [← copied_cut hc, ← copied_cut hs, ht]
  · rintro ⟨hnew, r, hr, hfirst, hs⟩
    obtain ⟨u, -, hw⟩ := copied_timestamp hs
    refine ⟨u.cut, hw, hnew u.cut hw, ?_⟩
    refine hfind.mpr ⟨hw, r, ⟨hr.mem, hr.through⟩, hs, ?_⟩
    intro x hx hlt
    obtain ⟨c, hc⟩ := Option.ne_none_iff_exists'.mp (hr.behind x hx.1 hx.2 hlt)
    refine ⟨c, hc, ?_⟩
    rw [copied_cut hc, ← hw, copied_cut hs]
    exact hfirst x hx.1 hx.2 hlt

/-- What is inserted is the window exactly if the rows that are reached make it so. -/
theorem added_iff (h : conditions starttime endtime dest = some cs) :
    (∀ r, r ∈ (dest.insertAll (copies printable cs source)).rows ∧ r ∉ dest.rows ↔
        Wanted starttime endtime source dest r) ↔
      (∀ w, Wanted starttime endtime source dest w →
        (∀ t, w.timestamp = some t → t ∉ dest.keys) ∧
          ∃ r, Reached printable starttime endtime source dest r ∧
            FirstOfSecond starttime endtime source dest r ∧ copied printable r = some w) ∧
      ∀ r, Reached printable starttime endtime source dest r → copied printable r ≠ none →
        ∀ t, r.timestamp = some t → t.cut ∈ dest.keys ∨
          ∃ w, Wanted starttime endtime source dest w ∧ w.timestamp = some t.cut := by
  rw [Table.added_iff (copies_keyed cs source) fun r hr => hr.2.2]
  simp only [gains_iff h]
  refine and_congr_right fun _ => ?_
  constructor
  · intro honly r hr hcopied t ht
    obtain ⟨s, hs⟩ := Option.ne_none_iff_exists'.mp hcopied
    refine honly s ((mem_copies_iff h).mpr ⟨r, hr, hs⟩) t.cut ?_
    rw [copied_cut hs, ht, Option.map_some]
  · intro honly s hs k hk
    obtain ⟨r, hr, hcopied⟩ := (mem_copies_iff h).mp hs
    obtain ⟨t, ht, hst⟩ := copied_timestamp hcopied
    obtain rfl : t.cut = k := Option.some.inj (hst.symm.trans hk)
    exact honly r hr (by simp [hcopied]) t ht

end

end

/-- `mergedb` copies its window exactly if its SELECT has no second `WHERE`, every row that is
wanted is what the first row of its second is stored as, and nothing else is new. -/
theorem copiesWindow_iff (printable : Char → Bool) (starttime endtime : Option Timestamp)
    (source dest : WeatherTable) :
    CopiesWindow printable starttime endtime source dest ↔
      Copyable printable starttime endtime source dest := by
  have hdest {cs : List Condition} (h : conditions starttime endtime dest = some cs) :
      (mergedb printable starttime endtime source dest).dest =
        dest.insertAll (copies printable cs source) := by
    rw [mergedb_dest, h]
    rfl
  constructor
  · intro h
    have hreadable := (readable_iff starttime endtime source dest).mp h.wellFormed
    obtain ⟨cs, hcs⟩ := Option.ne_none_iff_exists'.mp hreadable
    obtain ⟨hdated, hone⟩ := (conditions_ne_none_iff starttime endtime dest).mp hreadable
    have hexact := h.exact
    rw [hdest hcs] at hexact
    obtain ⟨harrives, helse⟩ := (added_iff hcs).mp hexact
    exact ⟨hdated, hone, harrives, helse⟩
  · intro h
    have hreadable := (conditions_ne_none_iff starttime endtime dest).mpr ⟨h.dated, h.oneClause⟩
    obtain ⟨cs, hcs⟩ := Option.ne_none_iff_exists'.mp hreadable
    have hexact : ∀ r, r ∈ (mergedb printable starttime endtime source dest).dest.rows ∧
        r ∉ dest.rows ↔ Wanted starttime endtime source dest r := by
      rw [hdest hcs]
      exact (added_iff hcs).mpr ⟨h.arrives, h.nothingElse⟩
    refine ⟨(readable_iff starttime endtime source dest).mpr hreadable, hexact, ?_,
      mergedb_again starttime endtime source dest⟩
    rintro rfl rfl r hr
    by_cases hd : r ∈ dest.rows
    · rw [hdest hcs]
      exact (Table.mem_insertAll (copies_keyed cs source)).mpr (Or.inl hd)
    · exact ((hexact r).mpr ⟨hr, ⟨by simp, by simp⟩, hd⟩).1

theorem year_2019 : 2019 < 10^4 := by decide

theorem january : 1 < 10^2 := by decide

/-- An hour of one day. -/
def hourOf (hour : Nat) (h : hour < 10^2) : Timestamp where
  year := 2019
  month := 1
  day := 10
  hour := hour
  minute := 0
  second := 0
  micro := 0
  year_lt := year_2019
  month_lt := january
  hour_lt := h
  micro_lt := no_micro

def noon : Timestamp := hourOf 12 (by decide)

def one : Timestamp := hourOf 13 (by decide)

def two : Timestamp := hourOf 14 (by decide)

def late : Row where
  id := { text := "1234".toList }
  temperature := .finite 21
  temphigh := .finite 0
  templow := .finite 0
  humidity := .finite 40
  scale := 'C'
  timestamp := some two

def lateTable : WeatherTable := ⟨[late], List.nodup_singleton _⟩

/-- From noon to one, and yet the row of two o'clock is copied. -/
theorem end_ignored :
    ¬ CopiesWindow (fun _ => true) (some noon) (some one) lateTable Table.empty := by
  intro h
  have hnoon : noon ≤ two := le_iff.mpr (by decide)
  have hone : ¬ two ≤ one := fun hle => absurd (le_iff.mp hle) (by decide)
  have hcopied : copied (fun _ => true) late = some late :=
    copied_of_sound ⟨by decide, by decide, ⟨40, rfl⟩, by simp [late]⟩
  have hselected : selected [⟨.atLeast, noon⟩] lateTable = [late] := by
    simp [selected, lateTable, Condition.holds, late, hnoon]
  have hcopies : copies (fun _ => true) [⟨.atLeast, noon⟩] lateTable = [late] := by
    rw [copies, hselected, upToFailure, hcopied]
    rfl
  have hmem : late ∈ (mergedb (fun _ => true) (some noon) (some one) lateTable
      Table.empty).dest.rows := by
    rw [mergedb_dest, conditions_start, Option.map_some, hcopies]
    exact List.mem_singleton_self late
  obtain ⟨-, hwindow, -⟩ := (h.exact late).mp ⟨hmem, List.not_mem_nil⟩
  obtain ⟨t, ht, hle⟩ := hwindow.2 one rfl
  obtain rfl : two = t := Option.some.inj ht
  exact hone hle

/-! ## Tables of whole seconds -/

/-- What is left to go wrong with sound rows of whole seconds: a second `WHERE`, rows that the
`WHERE` keeps away, times that the destination has already, and rows behind the end. -/
theorem copyable_whole_iff {printable : Char → Bool} {starttime endtime : Option Timestamp}
    {source dest : WeatherTable} (hsound : ∀ r ∈ source.rows, r.Sound printable)
    (hwhole : ∀ r ∈ source.rows, r.cut = r) :
    Copyable printable starttime endtime source dest ↔
      (starttime = none → (∀ r ∈ dest.rows, r.timestamp ≠ none) ∧
        (endtime ≠ none → dest.rows = [])) ∧
      (∀ w, Wanted starttime endtime source dest w → Through starttime endtime dest w ∧
        ∀ t, w.timestamp = some t → t ∉ dest.keys) ∧
      ∀ r ∈ source.rows, Through starttime endtime dest r →
        InWindow starttime endtime r ∨ ∃ t ∈ dest.keys, r.timestamp = some t := by
  have hcopied : ∀ r ∈ source.rows, copied printable r = some r := by
    intro r hr
    rw [copied_of_sound (hsound r hr), hwhole r hr]
  have hcut : ∀ r ∈ source.rows, r.timestamp.map Timestamp.cut = r.timestamp :=
    fun r hr => congrArg Row.timestamp (hwhole r hr)
  have hsecond : ∀ r ∈ source.rows, ∀ t, r.timestamp = some t → t.cut = t := by
    intro r hr t ht
    have hsame := hcut r hr
    rw [ht, Option.map_some] at hsame
    exact Option.some.inj hsame
  have hreached : ∀ r ∈ source.rows, Through starttime endtime dest r →
      Reached printable starttime endtime source dest r :=
    fun r hr hthrough => ⟨hr, hthrough, fun x hx _ _ => by simp [hcopied x hx]⟩
  constructor
  · intro h
    refine ⟨fun hs => ⟨h.dated hs, h.oneClause hs⟩, ?_, ?_⟩
    · intro w hw
      obtain ⟨hnew, r, hr, -, hrw⟩ := h.arrives w hw
      obtain rfl : r = w := Option.some.inj ((hcopied r hr.mem).symm.trans hrw)
      exact ⟨hr.through, hnew⟩
    · intro r hr hthrough
      obtain ⟨t, ht⟩ := Option.ne_none_iff_exists'.mp (hsound r hr).dated
      have helse := h.nothingElse r (hreached r hr hthrough) (by simp [hcopied r hr]) t ht
      rw [hsecond r hr t ht] at helse
      rcases helse with hold | ⟨w, hw, hwt⟩
      · exact Or.inr ⟨t, hold, ht⟩
      · obtain rfl : w = r := source.eq_of_key hw.1 hr hwt ht
        exact Or.inl hw.2.1
  · rintro ⟨hreadable, harrives, helse⟩
    refine ⟨fun hs => (hreadable hs).1, fun hs => (hreadable hs).2, ?_, ?_⟩
    · intro w hw
      obtain ⟨hthrough, hnew⟩ := harrives w hw
      refine ⟨hnew, w, hreached w hw.1 hthrough, ?_, hcopied w hw.1⟩
      rintro x hx - ⟨t, u, ht, hu, hlt⟩ hsame
      rw [hcut x hx, hcut w hw.1, ht, hu] at hsame
      obtain rfl : t = u := Option.some.inj hsame
      exact lt_irrefl t hlt
    · intro r hr _ t ht
      rw [hsecond r hr.mem t ht]
      rcases helse r hr.mem hr.through with hwindow | ⟨u, hu, hru⟩
      · by_cases hd : r ∈ dest.rows
        · exact Or.inl (Table.mem_keys.mpr ⟨r, hd, ht⟩)
        · exact Or.inr ⟨r, ⟨hr.mem, hwindow, hd⟩, ht⟩
      · obtain rfl : u = t := Option.some.inj (hru.symm.trans ht)
        exact Or.inl hu

end PowerGuru.Store.Mergedb
