import PowerGuru.Lib.AssocMap
import PowerGuru.Lib.Calendar
import PowerGuru.Python.Sensor

/-!
# `rtl433.py`: `rtl433_handler`

A line of the receiver's CSV file is one reading of one sensor. What was last heard of a sensor
is in a dictionary, which starts out with the wall clock.
-/
namespace PowerGuru.Python.Rtl433

open Lib.AssocMap Lib.PyRepr

/-! ## A line -/

/-- What the per-line dictionary holds of a known model. -/
structure Reading where
  timestamp : Text
  model : Text
  id : Text
  channel : Text
  temperature : Text
  humidity : Text
  deriving DecidableEq

def poolThermometer : Text := "WT0124 Pool Thermometer".toList
def acuriteTower : Text := "Acurite tower sensor".toList

inductive Parsed where
  | header
  /-- A token that is not there raises IndexError. -/
  | short
  /-- The dictionary has no id. -/
  | unknown (timestamp : Text)
  | reading (r : Reading)
  deriving DecidableEq

/-- The tokens of a reading, if they are there. -/
def readingOf (timestamp model : Text) (tokens : List Text) : Option Reading :=
  if model = poolThermometer then do
    let temperature ← tokens[8]?
    let id ← tokens[10]?
    return ⟨timestamp, model, id, ['A'], temperature, ['0']⟩
  else do
    let id ← tokens[5]?
    let channel ← tokens[6]?
    let temperature ← tokens[8]?
    let humidity ← tokens[11]?
    return ⟨timestamp, model, id, channel, temperature, humidity⟩

def parse (line : Text) : Parsed :=
  let tokens := line.splitOn ','
  let first := tokens.headD []
  if first = "time".toList then .header
  else
    match tokens[3]? with
    | none => .short
    | some model =>
        if model = poolThermometer ∨ model = acuriteTower then
          match readingOf first model tokens with
          | none => .short
          | some r => .reading r
        else .unknown first

/-! ## The handler -/

/-- The options, and what is used of the library: a time in seconds that is read in a text, and
the text of a temperature converted to Fahrenheit. Both raise ValueError. -/
structure Env where
  interval : Int
  scale : Text
  strptime : Text → Option Int
  fahrenheit : Text → Option Text

/-- The list of sensors: whether it has an id, and what is left of it when one is added, unless
that raises. -/
structure SensorList (S : Type) where
  get : S → Text → Bool
  add : S → Reading → Option S

structure State (S : Type) where
  /-- The text of the time a sensor was last heard of. -/
  previous : List (Text × Text)
  sensors : S

inductive Outcome where
  | passed
  | stored (query : Text)
  /-- An exception leaves the handler. -/
  | raised
  deriving DecidableEq

def insertText (scale : Text) (r : Reading) (temperature : Text) : Text :=
  "INSERT INTO weather VALUES( '".toList ++ r.id ++ "', ".toList ++ temperature ++
    ", 0, 0, ".toList ++ r.humidity ++ ", '".toList ++ scale ++ "', '".toList ++ r.timestamp ++
    "' )  ON CONFLICT DO NOTHING;; ".toList

/-- A difference of times in days and seconds, of which the days are compared with -1 only. -/
def withinInterval (interval delta : Int) : Bool :=
  decide (delta % 86400 ≤ interval) && decide (delta / 86400 ≠ -1)

section
variable {S : Type} (E : Env) (L : SensorList S)

/-- The query of a reading. -/
def Env.query (r : Reading) : Option Text :=
  if E.scale = ['F'] then (E.fahrenheit r.temperature).map (insertText E.scale r)
  else some (insertText E.scale r r.temperature)

/-- The reading is not passed over: both times are read, and are far enough apart. -/
def Env.due (r : Reading) (previous : Text) : Bool :=
  match E.strptime r.timestamp, E.strptime previous with
  | some t, some p => !withinInterval E.interval (t - p)
  | _, _ => false

/-- What happens to a reading that is not passed over. -/
def storeReading (st : State S) (r : Reading) : Outcome × State S :=
  let st := { st with previous := assign st.previous r.id r.timestamp }
  let sensors := if L.get st.sensors r.id then some st.sensors else L.add st.sensors r
  match sensors with
  | none => (.raised, st)
  | some sensors =>
      match E.query r with
      | none => (.raised, { st with sensors })
      | some query => (.stored query, { st with sensors })

/-- One line at the time of day that `strftime` gives. Any exception up to the comparison is
caught, and the line passed over. -/
def handle (st : State S) (now line : Text) : Outcome × State S :=
  match parse line with
  | .header => (.passed, st)
  | .short => (.raised, st)
  | .unknown _ => (.passed, st)
  | .reading r =>
      let st := { st with previous := touch st.previous r.id now }
      if E.due r ((st.previous.lookup r.id).getD now) then storeReading E L st r
      else (.passed, st)

/-- The outcomes of a stream of lines, up to the one that raises. -/
def run : State S → List (Text × Text) → List Outcome
  | _, [] => []
  | st, (now, line) :: rest =>
      match handle E L st now line with
      | (.raised, _) => [.raised]
      | (outcome, st) => outcome :: run st rest

/-! ## What a reading does -/

/-- What comes of a reading of a sensor last heard of at this time. -/
def Env.verdict (r : Reading) (previous : Text) : Outcome :=
  if E.due r previous then
    match E.query r with
    | none => .raised
    | some query => .stored query
  else .passed

/-- The time that is remembered of the sensor. -/
def Env.remembered (r : Reading) (previous : Text) : Text :=
  if E.due r previous then r.timestamp else previous

variable {E L}

theorem lookup_touch_self (m : List (Text × Text)) (k d : Text) :
    (touch m k d).lookup k = some ((m.lookup k).getD d) := by
  unfold touch
  split
  · next h =>
    obtain ⟨v, hv⟩ := Option.isSome_iff_exists.mp h
    rw [hv]
    rfl
  · next h =>
    rw [Bool.not_eq_true, Option.isSome_eq_false_iff, Option.isNone_iff_eq_none] at h
    rw [lookup_assign_self, h]
    rfl

theorem lookup_touch_of_ne (m : List (Text × Text)) {k j : Text} (h : j ≠ k) (d : Text) :
    (touch m k d).lookup j = m.lookup j := by
  unfold touch
  split
  · rfl
  · exact lookup_assign_of_ne m h d

/-- What a line leaves of the times: its own sensor's changes and no other. -/
structure Remembers (st st' : State S) (id last : Text) : Prop where
  own : st'.previous.lookup id = some last
  other : ∀ j, j ≠ id → st'.previous.lookup j = st.previous.lookup j

/-- A reading that is passed over only starts its sensor's clock. -/
theorem handle_passed {st : State S} {now line : Text} {r : Reading}
    (hparse : parse line = .reading r)
    (hdue : E.due r ((st.previous.lookup r.id).getD now) = false) :
    ∃ st', handle E L st now line = (.passed, st') ∧ st'.sensors = st.sensors ∧
      Remembers st st' r.id ((st.previous.lookup r.id).getD now) := by
  refine ⟨{ st with previous := touch st.previous r.id now }, ?_, rfl,
    ⟨lookup_touch_self _ _ _, fun j hj => lookup_touch_of_ne _ hj _⟩⟩
  simp only [handle, hparse, lookup_touch_self, Option.getD_some, hdue, Bool.false_eq_true,
    if_false]

/-- A reading that is due is stored, if its sensor is in the list or can be added. -/
theorem handle_due {st : State S} {now line : Text} {r : Reading} (hparse : parse line = .reading r)
    (hdue : E.due r ((st.previous.lookup r.id).getD now) = true) {query : Text}
    (hquery : E.query r = some query) {sensors : S}
    (hsensors : (if L.get st.sensors r.id then some st.sensors else L.add st.sensors r) =
      some sensors) :
    ∃ st', handle E L st now line = (.stored query, st') ∧ st'.sensors = sensors ∧
      Remembers st st' r.id r.timestamp := by
  refine ⟨⟨assign (touch st.previous r.id now) r.id r.timestamp, sensors⟩, ?_, rfl,
    ⟨lookup_assign_self _ _ _, fun j hj => ?_⟩⟩
  · simp only [handle, hparse, lookup_touch_self, Option.getD_some, hdue, if_true, storeReading,
      hsensors, hquery]
  · exact (lookup_assign_of_ne _ hj _).trans (lookup_touch_of_ne _ hj _)

/-- Otherwise the handler is left. -/
theorem handle_raised {st : State S} {now line : Text} {r : Reading}
    (hparse : parse line = .reading r)
    (hdue : E.due r ((st.previous.lookup r.id).getD now) = true)
    (hsensors : (if L.get st.sensors r.id then some st.sensors else L.add st.sensors r) = none) :
    (handle E L st now line).1 = .raised := by
  simp only [handle, hparse, lookup_touch_self, Option.getD_some, hdue, if_true, storeReading,
    hsensors]

/-! ## Sensors among each other -/

/-- The line is the header or has all its columns, with a numeric temperature. -/
def complete (E : Env) (line : Text) : Bool :=
  match parse line with
  | .short => false
  | .reading r => (E.fahrenheit r.temperature).isSome
  | _ => true

/-- A line of this sensor. -/
def own (id line : Text) : Bool :=
  match parse line with
  | .reading r => r.id == id
  | _ => false

/-- A line that stays when those of other sensors and of unknown models are deleted. -/
def stays (id line : Text) : Bool :=
  match parse line with
  | .reading r => r.id == id
  | .unknown _ => false
  | _ => true

/-- The stream without those. -/
def aloneWith (id : Text) (stream : List (Text × Text)) : List (Text × Text) :=
  stream.filter fun p => stays id p.2

/-- What becomes of the lines of a sensor. -/
def ownOutcomes (id : Text) (stream : List (Text × Text)) (outcomes : List Outcome) :
    List Outcome :=
  ((stream.zip outcomes).filter fun p => own id p.1.2).map (·.2)

/-- Adding a sensor returns normally. -/
def SensorList.AddReturns (L : SensorList S) : Prop := ∀ s r, (L.add s r).isSome = true

theorem query_isSome {r : Reading} (h : (E.fahrenheit r.temperature).isSome = true) :
    ∃ query, E.query r = some query := by
  unfold Env.query
  split
  · obtain ⟨t, ht⟩ := Option.isSome_iff_exists.mp h
    exact ⟨_, by rw [ht]; rfl⟩
  · exact ⟨_, rfl⟩

/-- A complete reading does not leave the handler, and of the state only the time its sensor
was last heard of counts. -/
theorem handle_reading (hadd : L.AddReturns) (st : State S) (now : Text) {line : Text} {r : Reading}
    (hparse : parse line = .reading r) (hcomplete : complete E line = true) :
    ∃ st', handle E L st now line =
        (E.verdict r ((st.previous.lookup r.id).getD now), st') ∧
      E.verdict r ((st.previous.lookup r.id).getD now) ≠ .raised ∧
      Remembers st st' r.id (E.remembered r ((st.previous.lookup r.id).getD now)) := by
  cases hdue : E.due r ((st.previous.lookup r.id).getD now) with
  | false =>
    obtain ⟨st', hst, -, hrem⟩ := handle_passed (L := L) hparse hdue
    have hv : E.verdict r ((st.previous.lookup r.id).getD now) = .passed := by
      simp [Env.verdict, hdue]
    have hr : E.remembered r ((st.previous.lookup r.id).getD now) =
        (st.previous.lookup r.id).getD now := by simp [Env.remembered, hdue]
    exact ⟨st', by rw [hv, hst], by rw [hv]; decide, by rw [hr]; exact hrem⟩
  | true =>
    have hnumeric : (E.fahrenheit r.temperature).isSome = true := by
      simpa only [complete, hparse] using hcomplete
    obtain ⟨query, hquery⟩ := query_isSome hnumeric
    obtain ⟨sensors, hsensors⟩ : ∃ sensors,
        (if L.get st.sensors r.id then some st.sensors else L.add st.sensors r) = some sensors := by
      split
      · exact ⟨_, rfl⟩
      · exact Option.isSome_iff_exists.mp (hadd _ _)
    obtain ⟨st', hst, -, hrem⟩ := handle_due hparse hdue hquery hsensors
    have hv : E.verdict r ((st.previous.lookup r.id).getD now) = .stored query := by
      simp [Env.verdict, hdue, hquery]
    have hr : E.remembered r ((st.previous.lookup r.id).getD now) = r.timestamp := by
      simp [Env.remembered, hdue]
    exact ⟨st', by rw [hv, hst], by rw [hv]; exact nofun, by rw [hr]; exact hrem⟩

theorem run_next {st st' : State S} {now line : Text} {outcome : Outcome}
    (h : handle E L st now line = (outcome, st')) (hne : outcome ≠ .raised)
    (rest : List (Text × Text)) :
    run E L st ((now, line) :: rest) = outcome :: run E L st' rest := by
  rw [run, h]
  cases outcome with
  | raised => exact absurd rfl hne
  | passed => rfl
  | stored query => rfl

theorem ownOutcomes_cons (id : Text) (p : Text × Text) (stream : List (Text × Text))
    (outcome : Outcome) (outcomes : List Outcome) :
    ownOutcomes id (p :: stream) (outcome :: outcomes) =
      if own id p.2 = true then outcome :: ownOutcomes id stream outcomes
      else ownOutcomes id stream outcomes := by
  rw [ownOutcomes, List.zip_cons_cons, List.filter_cons]
  split <;> rfl

theorem aloneWith_cons (id : Text) (p : Text × Text) (stream : List (Text × Text)) :
    aloneWith id (p :: stream) =
      if stays id p.2 = true then p :: aloneWith id stream else aloneWith id stream := by
  rw [aloneWith, List.filter_cons]
  rfl

/-- A line that is neither a reading nor too short changes nothing. -/
theorem handle_other {line : Text} (hread : ∀ r, parse line ≠ .reading r)
    (hshort : parse line ≠ .short) (st : State S) (now : Text) :
    handle E L st now line = (.passed, st) := by
  unfold handle
  cases hparse : parse line with
  | header => rfl
  | short => exact absurd hparse hshort
  | unknown timestamp => rfl
  | reading r => exact absurd hparse (hread r)

/-- Two runs that remember the same of a sensor treat its lines alike, whatever stands between
them. -/
theorem ownOutcomes_filter (hadd : L.AddReturns) (id : Text) (stream : List (Text × Text)) :
    ∀ {st st' : State S}, (∀ p ∈ stream, complete E p.2 = true) →
      st.previous.lookup id = st'.previous.lookup id →
      ownOutcomes id stream (run E L st stream) =
        ownOutcomes id (aloneWith id stream) (run E L st' (aloneWith id stream)) := by
  induction stream with
  | nil =>
    intro st st' _ _
    rfl
  | cons p stream ih =>
    obtain ⟨now, line⟩ := p
    intro st st' hcomplete hsame
    obtain ⟨hline, hrest⟩ := List.forall_mem_cons.mp hcomplete
    by_cases hread : ∃ r, parse line = .reading r
    · obtain ⟨r, hparse⟩ := hread
      obtain ⟨t, ht, htr, hrem⟩ := handle_reading hadd st now hparse hline
      by_cases hid : r.id = id
      · -- a line of the sensor itself: both runs have it, and remember the same
        subst hid
        have hstays : stays r.id line = true := by simp [stays, hparse]
        obtain ⟨t', ht', -, hrem'⟩ := handle_reading hadd st' now hparse hline
        rw [← hsame] at ht' hrem'
        rw [aloneWith_cons, if_pos hstays, run_next ht htr, run_next ht' htr, ownOutcomes_cons,
          ownOutcomes_cons, ih hrest (hrem.own.trans hrem'.own.symm)]
      · -- a line of another one: only the first run has it
        have hstays : ¬ stays id line = true := by simp [stays, hparse, hid]
        have hown : ¬ own id line = true := by simp [own, hparse, hid]
        rw [aloneWith_cons, if_neg hstays, run_next ht htr, ownOutcomes_cons, if_neg hown]
        exact ih hrest ((hrem.other id (Ne.symm hid)).trans hsame)
    · have hother : ∀ r, parse line ≠ .reading r := fun r h => hread ⟨r, h⟩
      have hshort : parse line ≠ .short := by
        intro hparse
        simp [complete, hparse] at hline
      have hown : ¬ own id line = true := by
        unfold own
        cases hparse : parse line <;> simp_all
      rw [run_next (handle_other hother hshort st now) nofun, ownOutcomes_cons, if_neg hown]
      by_cases hstays : stays id line = true
      · rw [aloneWith_cons, if_pos hstays, run_next (handle_other hother hshort st' now) nofun,
          ownOutcomes_cons, if_neg hown]
        exact ih hrest hsame
      · rw [aloneWith_cons, if_neg hstays]
        exact ih hrest hsame

/-- The lines of a sensor come to the same without those of other sensors and of unknown
models. -/
theorem undisturbed (hadd : L.AddReturns) (id : Text) (stream : List (Text × Text))
    (hcomplete : ∀ p ∈ stream, complete E p.2 = true) (sensors : S) :
    ownOutcomes id stream (run E L ⟨[], sensors⟩ stream) =
      ownOutcomes id (aloneWith id stream) (run E L ⟨[], sensors⟩ (aloneWith id stream)) :=
  ownOutcomes_filter hadd id stream hcomplete rfl

end

/-- A sensor is added to a list of ids. -/
def idList : SensorList (List Text) := ⟨fun s id => s.contains id, fun s r => some (r.id :: s)⟩

/-- The defaults, with the one temperature of the stream below. -/
def sampleEnv : Env where
  interval := 300
  scale := ['F']
  strptime := Lib.Calendar.strptime
  fahrenheit t := if t = "20".toList then some "68.0".toList else none

def sampleStream : List (Text × Text) :=
  [("2019-06-01 12:00:01".toList, "time,msg,codes,model".toList),
    ("2019-06-01 12:00:01".toList,
      "2019-06-01 12:00:00,,,Acurite tower sensor,,1234,A,1,20,,,55".toList),
    ("2019-06-01 12:03:01".toList,
      "2019-06-01 12:03:00,,,WT0124 Pool Thermometer,,,,,20,,77,".toList),
    ("2019-06-01 12:04:01".toList, "2019-06-01 12:04:00,,,Doorbell,,9".toList),
    ("2019-06-01 12:10:01".toList,
      "2019-06-01 12:10:00,,,Acurite tower sensor,,1234,A,1,20,,,56".toList)]

theorem sampleStream_undisturbed :
    (∀ p ∈ sampleStream, complete sampleEnv p.2 = true) ∧
      ownOutcomes "1234".toList sampleStream (run sampleEnv idList ⟨[], []⟩ sampleStream) =
        ownOutcomes "1234".toList (aloneWith "1234".toList sampleStream)
          (run sampleEnv idList ⟨[], []⟩ (aloneWith "1234".toList sampleStream)) := by
  have hcomplete : ∀ p ∈ sampleStream, complete sampleEnv p.2 = true :=
    List.all_eq_true.mp (by decide)
  exact ⟨hcomplete, undisturbed (fun _ _ => rfl) _ _ hcomplete _⟩

end PowerGuru.Python.Rtl433
