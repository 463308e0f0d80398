import Mathlib.Data.Stream.Init
import PowerGuru.Common
import PowerGuru.Lib.Numeral

/-!
# The inserts of `mariadb.cc`

What the server, the reconnects and the clock do is decided in advance. A call returns its
result, what it did, and what is left of that.
-/
namespace PowerGuru.Store.Mariadb

open Lib.Bytes Lib.Numeral Common

/-! ## The codes of the client library -/

def CR_UNKNOWN_ERROR : Int := 2000
def CR_SERVER_GONE_ERROR : Int := 2006
def CR_SERVER_LOST : Int := 2013
def CR_COMMANDS_OUT_OF_SYNC : Int := 2014

/-- The results after which the database is opened again. -/
def Lost (result : Int) : Prop :=
  result = CR_SERVER_LOST ∨ result = CR_COMMANDS_OUT_OF_SYNC ∨ result = CR_SERVER_GONE_ERROR

instance (result : Int) : Decidable (Lost result) := inferInstanceAs (Decidable (_ ∨ _ ∨ _))

/-- The results that are failures. -/
def Failed (result : Int) : Prop := result = -1 ∨ result = CR_UNKNOWN_ERROR

instance (result : Int) : Decidable (Failed result) := inferInstanceAs (Decidable (_ ∨ _))

/-- What `localtime` fills in. -/
structure Tm where
  year : Int
  mon : Int
  mday : Int
  hour : Int
  min : Int
  sec : Int

/-- What `mysql_real_query` and `mysql_real_connect` return, and the times. -/
structure Outcomes where
  results : Stream' Int
  connects : Stream' Bool
  times : Stream' Tm

inductive Event where
  | realQuery (query : List Byte) (result : Int)
  | closeDB
  | openDB (connected : Bool)

structure Run where
  returned : Bool
  events : List Event
  left : Outcomes

/-- Of the inserts of a list the statement and the events of each. -/
structure RunAll where
  returned : Bool
  inserts : List (List Byte × List Event)
  left : Outcomes

/-! ## The three functions -/

/-- The loop. Whether `openDB` connected is not asked. -/
def queryLoop (query : List Byte) : Nat → Outcomes → Run
  | 0, o => ⟨false, [], o⟩
  | retries + 1, o =>
      let result := o.results.head
      let o := { o with results := o.results.tail }
      if Lost result then
        let r := queryLoop query retries { o with connects := o.connects.tail }
        { r with
          events := .realQuery query result :: .closeDB :: .openDB o.connects.head :: r.events }
      else if Failed result then ⟨false, [.realQuery query result], o⟩
      else ⟨true, [.realQuery query result], o⟩

/-- `queryInsert(const char *)`. -/
def queryInsert (query : List Byte) (o : Outcomes) : Run := queryLoop query 2 o

/-- An int as `<<` prints it. -/
def printInt (n : Int) : List Byte :=
  if n < 0 then bytes "-" ++ decimal n.natAbs else decimal n.natAbs

section
variable (print : Rat → List Byte)

/-- The statement of a record, whose floats come out as `<<` prints them. -/
def insertText (tm : Tm) (data : MeterData) : List Byte :=
  cstr (bytes "INSERT INTO meters () VALUES (" ++
    printInt data.unit ++ bytes "," ++
    bytes "'MX'," ++
    bytes "'" ++ printInt (tm.year + 1900) ++ bytes "-" ++ printInt (tm.mon + 1) ++ bytes "-" ++
    printInt tm.mday ++ bytes " " ++
    printInt tm.hour ++ bytes ":" ++ printInt tm.min ++ bytes ":" ++ printInt tm.sec ++
    bytes "'," ++
    printInt data.chargeAmps ++ bytes "," ++
    printInt data.acLoadAmps ++ bytes "," ++
    print data.batteryVolts ++ bytes "," ++
    print data.acVoltsOut ++ bytes "," ++
    print data.ac1VoltsIn ++ bytes "," ++
    print data.ac2VoltsIn ++ bytes "," ++
    printInt data.pvAmpsIn ++ bytes "," ++
    print data.pvVoltsIn ++ bytes "," ++
    print data.buyAmps ++ bytes "," ++
    print data.sellAmps ++ bytes "," ++
    print data.dailyKwh ++ bytes "," ++
    printInt data.hertz ++ bytes "," ++
    print data.tempcompVolts ++ bytes ")" ++
    [NUL])

/-- `queryInsert(meter_data_t *)`, which leaves the result where it is. -/
def queryInsertRecord (data : MeterData) (o : Outcomes) : Run :=
  { queryInsert (insertText print o.times.head data) { o with times := o.times.tail } with
    returned := true }

/-- The loop over the vector. -/
def recordLoop : List MeterData → Outcomes → List (List Byte × List Event) × Outcomes
  | [], o => ([], o)
  | d :: data, o =>
      let r := queryInsertRecord print d o
      let rest := recordLoop data r.left
      ((insertText print o.times.head d, r.events) :: rest.1, rest.2)

/-- `queryInsert(vector<meter_data_t *>)`. -/
def queryInsertAll (data : List MeterData) (o : Outcomes) : RunAll :=
  if data = [] then ⟨false, [], o⟩
  else
    let r := recordLoop print data { o with times := o.times.tail }
    ⟨true, r.1, r.2⟩

end

/-! ## What a result is to say -/

/-- Some attempt returned 0. -/
def Inserted (query : List Byte) (events : List Event) : Prop := .realQuery query 0 ∈ events

/-- One attempt, and a second one behind a reconnect exactly if the first lost the connection. -/
inductive Attempts (query : List Byte) : List Event → Prop
  | once {result : Int} (h : ¬ Lost result) : Attempts query [.realQuery query result]
  | twice {result result' : Int} {connected : Bool} {rest : List Event} (h : Lost result)
      (hrest : ∀ query result, .realQuery query result ∉ rest) :
      Attempts query
        (.realQuery query result :: .closeDB :: .openDB connected ::
          .realQuery query result' :: rest)

/-- What is asked of the insert of one query. -/
structure Reports (query : List Byte) (r : Run) : Prop where
  attempts : Attempts query r.events
  truthful : r.returned = true ↔ Inserted query r.events

/-- The statement is that of the record at some time, and it is tried as a query is. -/
structure Tried (print : Rat → List Byte) (data : MeterData) (insert : List Byte × List Event) :
    Prop where
  statement : ∃ tm, insert.1 = insertText print tm data
  attempts : Attempts insert.1 insert.2

/-- What is asked of the insert of a list: the statement of each record in its turn, and a result
that says whether all were inserted. -/
structure ReportsAll (print : Rat → List Byte) (data : List MeterData) (r : RunAll) : Prop where
  inOrder : List.Forall₂ (Tried print) data r.inserts
  truthful : r.returned = true ↔ ∀ i ∈ r.inserts, Inserted i.1 i.2

/-! ## One query -/

/-- The result that decides a query: the first, or the second if the connection was lost. -/
def decisive (results : Stream' Int) : Int :=
  if Lost results.head then results.tail.head else results.head

/-- What a query leaves of the results. -/
def afterQuery (results : Stream' Int) : Stream' Int :=
  if Lost results.head then results.tail.tail else results.tail

theorem lost_ne_zero {result : Int} (h : Lost result) : result ≠ 0 := by
  rintro rfl
  exact absurd h (by decide)

theorem queryLoop_zero (query : List Byte) (o : Outcomes) :
    queryLoop query 0 o = ⟨false, [], o⟩ := rfl

/-- An attempt that did not lose the connection is the last. -/
theorem queryLoop_kept {query : List Byte} {o : Outcomes} (h : ¬ Lost o.results.head) (n : Nat) :
    queryLoop query (n + 1) o =
      ⟨!decide (Failed o.results.head), [.realQuery query o.results.head],
        { o with results := o.results.tail }⟩ := by
  rw [queryLoop]
  simp only [if_neg h]
  split
  · next hf => simp [hf]
  · next hf => simp [hf]

/-- One that did is followed by a reconnect and the rest of the loop. -/
theorem queryLoop_lost {query : List Byte} {o : Outcomes} (h : Lost o.results.head) (n : Nat) :
    queryLoop query (n + 1) o =
      { queryLoop query n { o with results := o.results.tail, connects := o.connects.tail } with
        events := .realQuery query o.results.head :: .closeDB :: .openDB o.connects.head ::
          (queryLoop query n
            { o with results := o.results.tail, connects := o.connects.tail }).events } := by
  rw [queryLoop]
  simp only [if_pos h]

theorem decisive_lost {results : Stream' Int} (h : Lost results.head) :
    decisive results = results.tail.head := if_pos h

theorem decisive_kept {results : Stream' Int} (h : ¬ Lost results.head) :
    decisive results = results.head := if_neg h

/-- What a query does, by its decisive result. -/
theorem queryInsert_spec (query : List Byte) (o : Outcomes) :
    Attempts query (queryInsert query o).events ∧
      (Inserted query (queryInsert query o).events ↔ decisive o.results = 0) ∧
      ((queryInsert query o).returned = true ↔
        ¬ Lost (decisive o.results) ∧ ¬ Failed (decisive o.results)) ∧
      (queryInsert query o).left.results = afterQuery o.results := by
  rw [queryInsert]
  by_cases h : Lost o.results.head
  · have hne := (lost_ne_zero h).symm
    have hafter : afterQuery o.results = o.results.tail.tail := if_pos h
    rw [queryLoop_lost h, decisive_lost h, hafter]
    by_cases h' : Lost o.results.tail.head
    · -- the second reconnect is not followed by an attempt
      rw [queryLoop_lost h', queryLoop_zero]
      refine ⟨.twice h (by simp), ?_, ?_, rfl⟩
      · generalize o.results.tail.head = result
        simp [Inserted, hne, eq_comm]
      · exact iff_of_false (by simp) fun hneither => hneither.1 h'
    · rw [queryLoop_kept h']
      refine ⟨.twice h (by simp), ?_, ?_, rfl⟩
      · generalize o.results.tail.head = result
        simp [Inserted, hne, eq_comm]
      · generalize o.results.tail.head = result at h'
        simp [h']
  · have hafter : afterQuery o.results = o.results.tail := if_neg h
    rw [queryLoop_kept h, decisive_kept h, hafter]
    refine ⟨.once h, ?_, ?_, rfl⟩
    · simp [Inserted, eq_comm]
    · simp [h]

/-- The code is one that the switch knows: no other error is told from a success. -/
def Known (result : Int) : Prop := result = 0 ∨ Lost result ∨ Failed result

theorem queryInsert_reports_iff (query : List Byte) (o : Outcomes) :
    Reports query (queryInsert query o) ↔ Known (decisive o.results) := by
  obtain ⟨hattempts, hinserted, hreturned, -⟩ := queryInsert_spec query o
  have hzero : decisive o.results = 0 →
      ¬ Lost (decisive o.results) ∧ ¬ Failed (decisive o.results) := by
    intro h
    rw [h]
    decide
  constructor
  · intro h
    have htruth := h.truthful
    rw [hreturned, hinserted] at htruth
    by_cases hlost : Lost (decisive o.results)
    · exact Or.inr (Or.inl hlost)
    · by_cases hfailed : Failed (decisive o.results)
      · exact Or.inr (Or.inr hfailed)
      · exact Or.inl (htruth.mp ⟨hlost, hfailed⟩)
  · intro h
    refine ⟨hattempts, ?_⟩
    rw [hreturned, hinserted]
    constructor
    · intro hneither
      rcases h with hz | hlost | hfailed
      · exact hz
      · exact absurd hlost hneither.1
      · exact absurd hfailed hneither.2
    · exact hzero

/-! ## One record -/

theorem queryInsertRecord_spec (print : Rat → List Byte) (data : MeterData) (o : Outcomes) :
    Attempts (insertText print o.times.head data) (queryInsertRecord print data o).events ∧
      (Inserted (insertText print o.times.head data) (queryInsertRecord print data o).events ↔
        decisive o.results = 0) ∧
      (queryInsertRecord print data o).left.results = afterQuery o.results := by
  obtain ⟨hattempts, hinserted, -, hleft⟩ :=
    queryInsert_spec (insertText print o.times.head data) { o with times := o.times.tail }
  exact ⟨hattempts, hinserted, hleft⟩

theorem queryInsertRecord_reports_iff (print : Rat → List Byte) (data : MeterData) (o : Outcomes) :
    Reports (insertText print o.times.head data) (queryInsertRecord print data o) ↔
      decisive o.results = 0 := by
  obtain ⟨hattempts, hinserted, -⟩ := queryInsertRecord_spec print data o
  have htrue : (queryInsertRecord print data o).returned = true := rfl
  constructor
  · intro h
    exact hinserted.mp (h.truthful.mp htrue)
  · intro h
    exact ⟨hattempts, iff_of_true htrue (hinserted.mpr h)⟩

/-! ## A list of records -/

/-- The results that decide so many queries. -/
def decisives : Nat → Stream' Int → List Int
  | 0, _ => []
  | n + 1, results => decisive results :: decisives n (afterQuery results)

theorem tried_pair {print : Rat → List Byte} {data : MeterData} {statement : List Byte}
    {events : List Event} {tm : Tm} (hs : statement = insertText print tm data)
    (ha : Attempts statement events) : Tried print data (statement, events) := ⟨⟨tm, hs⟩, ha⟩

theorem recordLoop_cons (print : Rat → List Byte) (d : MeterData) (data : List MeterData)
    (o : Outcomes) :
    (recordLoop print (d :: data) o).1 =
      (insertText print o.times.head d, (queryInsertRecord print d o).events) ::
        (recordLoop print data (queryInsertRecord print d o).left).1 := rfl

/-- Each record is tried in its turn, whatever became of those before it. -/
theorem recordLoop_spec (print : Rat → List Byte) (data : List MeterData) (o : Outcomes) :
    List.Forall₂ (Tried print) data (recordLoop print data o).1 ∧
      ((∀ i ∈ (recordLoop print data o).1, Inserted i.1 i.2) ↔
        ∀ result ∈ decisives data.length o.results, result = 0) := by
  induction data generalizing o with
  | nil => exact ⟨.nil, by simp [recordLoop, decisives]⟩
  | cons d data ih =>
    obtain ⟨hattempts, hinserted, hleft⟩ := queryInsertRecord_spec print d o
    obtain ⟨hrest, hall⟩ := ih (queryInsertRecord print d o).left
    rw [hleft] at hall
    rw [recordLoop_cons]
    refine ⟨.cons (tried_pair rfl hattempts) hrest, ?_⟩
    rw [List.forall_mem_cons, List.length_cons, decisives, List.forall_mem_cons, hall]
    dsimp only
    rw [hinserted]

/-- No record at all is a failure. -/
theorem queryInsertAll_nil (print : Rat → List Byte) (o : Outcomes) :
    queryInsertAll print [] o = ⟨false, [], o⟩ := rfl

theorem queryInsertAll_of_ne {print : Rat → List Byte} {data : List MeterData} (h : data ≠ [])
    (o : Outcomes) :
    queryInsertAll print data o =
      ⟨true, (recordLoop print data { o with times := o.times.tail }).1,
        (recordLoop print data { o with times := o.times.tail }).2⟩ := if_neg h

theorem queryInsertAll_reports_iff (print : Rat → List Byte) (data : List MeterData)
    (o : Outcomes) :
    ReportsAll print data (queryInsertAll print data o) ↔
      data ≠ [] ∧ ∀ result ∈ decisives data.length o.results, result = 0 := by
  by_cases hdata : data = []
  · subst hdata
    rw [queryInsertAll_nil]
    refine iff_of_false ?_ fun h => h.1 rfl
    intro h
    have hfalse := h.truthful.mpr fun i hi => absurd hi List.not_mem_nil
    exact absurd hfalse (by simp)
  · obtain ⟨htried, hall⟩ := recordLoop_spec print data { o with times := o.times.tail }
    rw [queryInsertAll_of_ne hdata, and_iff_right hdata, ← hall]
    constructor
    · intro h
      exact h.truthful.mp rfl
    · intro h
      exact ⟨htried, iff_of_true rfl h⟩

/-! ## All three -/

/-- The result says the truth for one query exactly if the result that decides it is 0 or a code
that the switch names, for one record exactly if it is 0, and for a list exactly if there are
records and it is 0 for each. -/
theorem inserts_report_iff (print : Rat → List Byte) (o : Outcomes) :
    (∀ query, Reports query (queryInsert query o) ↔ Known (decisive o.results)) ∧
    (∀ data, Reports (insertText print o.times.head data) (queryInsertRecord print data o) ↔
      decisive o.results = 0) ∧
    (∀ data, ReportsAll print data (queryInsertAll print data o) ↔
      data ≠ [] ∧ ∀ result ∈ decisives data.length o.results, result = 0) :=
  ⟨fun query => queryInsert_reports_iff query o,
    fun data => queryInsertRecord_reports_iff print data o,
    fun data => queryInsertAll_reports_iff print data o⟩

/-- A server that answers each query with the 1 of an error. -/
def refusing : Outcomes :=
  ⟨Stream'.const 1, Stream'.const true, Stream'.const ⟨104, 0, 4, 8, 34, 34⟩⟩

/-- The query is refused, and the result is true. -/
theorem refused_reported (query : List Byte) : (queryInsert query refusing).returned = true ∧
    ¬ Inserted query (queryInsert query refusing).events := by
  have hkept : ¬ Lost refusing.results.head := by decide
  rw [queryInsert, queryLoop_kept hkept]
  exact ⟨rfl, by simp [Inserted, refusing]⟩

theorem refused_unreported : ¬ Reports (bytes "INSERT INTO meters () VALUES (1)")
    (queryInsert (bytes "INSERT INTO meters () VALUES (1)") refusing) := by
  obtain ⟨htrue, hno⟩ := refused_reported (bytes "INSERT INTO meters () VALUES (1)")
  exact fun h => hno (h.truthful.mp htrue)

end PowerGuru.Store.Mariadb
