import Mathlib.Logic.Function.Basic
import PowerGuru.Python.Rtl433

/-!
# How often `rtl433_handler` stores a sensor

The first line of a sensor is measured against the wall clock, of a difference in days and
seconds only the seconds are compared, and a sensor that is not in the list cannot be added.
-/
namespace PowerGuru.Python.Rtl433Limit

open Lib.AssocMap Lib.PyRepr Sensor Rtl433

/-! ## The list of sensors -/

/-- The sensor that is added for a reading. -/
def newSensor (r : Reading) : SensorDevice where
  id := .str r.id
  aliasName := .str r.model
  location := .none
  device := .deviceType .rtl433
  sensor := .sensorType .temperature
  channel := .str r.channel

/-- `sensors.get` and `sensors.add`, with the table in the database. -/
def daemonList (server : Server) (printable : Char → Bool) : SensorList (Sensors × List Row) where
  get s id := (s.1.get (.str id)).isSome
  add s r :=
    let added := s.1.add server printable s.2 (newSensor r)
    match added.raised with
    | none => some (added.sensors, added.table)
    | some _ => none

/-- There is no query for it, and the query of none raises. -/
theorem daemonList_add (server : Server) (printable : Char → Bool) (s : Sensors × List Row)
    (r : Reading) : (daemonList server printable).add s r = none := rfl

/-! ## The rule -/

/-- A line that is a reading, at a time of day; both times are read, and the temperature. -/
structure SensorLine (E : Env) where
  now : Text
  clock : Int
  now_read : E.strptime now = some clock
  line : Text
  reading : Reading
  parsed : parse line = .reading reading
  time : Int
  time_read : E.strptime reading.timestamp = some time
  numeric : (E.fahrenheit reading.temperature).isSome = true

variable {E : Env}

def SensorLine.id (l : SensorLine E) : Text := l.reading.id

/-- Lines whose times do not decrease. -/
structure Stream (E : Env) where
  lines : List (SensorLine E)
  sorted : lines.Pairwise fun l k => l.time ≤ k.time

def input (lines : List (SensorLine E)) : List (Text × Text) := lines.map fun l => (l.now, l.line)

def isStored : Outcome → Bool
  | .stored _ => true
  | _ => false

/-- Which lines are stored; behind an exception none is. -/
def marks : List (SensorLine E) → List Outcome → List (SensorLine E × Bool)
  | [], _ => []
  | l :: ls, [] => (l, false) :: marks ls []
  | l :: ls, outcome :: outcomes => (l, isStored outcome) :: marks ls outcomes

/-- The line is to be stored, after these lines, the latest first: it is the first of its
sensor, or more than the interval after the last one stored. -/
def Rule (history : List (SensorLine E × Bool)) (l : SensorLine E) : Prop :=
  (∀ p ∈ history, p.1.id ≠ l.id) ∨
    ∃ p, history.find? (fun p => p.2 && p.1.id == l.id) = some p ∧
      E.interval < l.time - p.1.time

/-- Every line is stored if and only if it is to be. -/
def Obeys : List (SensorLine E × Bool) → List (SensorLine E × Bool) → Prop
  | _, [] => True
  | history, (l, stored) :: rest =>
      (stored = true ↔ Rule history l) ∧ Obeys ((l, stored) :: history) rest

/-- Apart in the seconds of the day, or a day at most before. -/
def Apart (interval delta : Int) : Prop := interval < delta % 86400 ∨ delta / 86400 = -1

/-- By the times that were last stored: the first line of a sensor is apart from the clock, its
sensor is in the list, and a line that is due is apart from the last one. -/
def Met (known : Text → Bool) : (Text → Option Int) → List (SensorLine E) → Prop
  | _, [] => True
  | last, l :: ls =>
      match last l.id with
      | none =>
          (Apart E.interval (l.time - l.clock) ∧ known l.id = true) ∧
            Met known (Function.update last l.id (some l.time)) ls
      | some t =>
          if E.interval < l.time - t then
            E.interval < (l.time - t) % 86400 ∧
              Met known (Function.update last l.id (some l.time)) ls
          else Met known last ls

/-! ## One line -/

theorem due_iff {r : Reading} {previous : Text} {t p : Int} (ht : E.strptime r.timestamp = some t)
    (hp : E.strptime previous = some p) :
    E.due r previous = true ↔ Apart E.interval (t - p) := by
  simp only [Env.due, ht, hp, withinInterval, Bool.not_eq_true', Bool.and_eq_false_iff,
    decide_eq_false_iff_not, Apart]
  omega

/-- From a time on, the days are not the last one before it. -/
theorem apart_iff {interval delta : Int} (h : 0 ≤ delta) :
    Apart interval delta ↔ interval < delta % 86400 := by
  unfold Apart
  omega

section
variable {S : Type} {L : SensorList S}

/-- What is remembered of a sensor is the time of its last line that was stored. -/
structure Tracked (last : Text → Option Int) (previous : List (Text × Text))
    (history : List (SensorLine E × Bool)) (known : Text → Bool) (id : Text) : Prop where
  unheard : last id = none → previous.lookup id = none ∧ ∀ p ∈ history, p.1.id ≠ id
  heard : ∀ t, last id = some t → known id = true ∧
    (∃ text, previous.lookup id = some text ∧ E.strptime text = some t) ∧
    ∃ p, history.find? (fun p => p.2 && p.1.id == id) = some p ∧ p.1.time = t

/-- The line of another sensor changes none of that. -/
theorem Tracked.frame {last : Text → Option Int} {previous previous' : List (Text × Text)}
    {history : List (SensorLine E × Bool)} {known : Text → Bool} {id : Text}
    (h : Tracked last previous history known id) {l : SensorLine E} (hne : l.id ≠ id)
    (hlookup : previous'.lookup id = previous.lookup id) (stored : Bool) :
    Tracked last previous' ((l, stored) :: history) known id where
  unheard hnone := by
    obtain ⟨hp, hall⟩ := h.unheard hnone
    exact ⟨hlookup.trans hp, List.forall_mem_cons.mpr ⟨hne, hall⟩⟩
  heard t ht := by
    obtain ⟨hknown, htext, p, hp, hpt⟩ := h.heard t ht
    rw [← hlookup] at htext
    refine ⟨hknown, htext, p, ?_, hpt⟩
    rw [List.find?_cons_of_neg (by simp [hne]), hp]

/-- A line that is stored is the one that is remembered. -/
theorem tracked_stored {last : Text → Option Int} {st st' : State S}
    {history : List (SensorLine E × Bool)} {known : Text → Bool}
    (h : ∀ id, Tracked last st.previous history known id) {l : SensorLine E}
    (hknown : known l.id = true) (hrem : Remembers st st' l.id l.reading.timestamp) (id : Text) :
    Tracked (Function.update last l.id (some l.time)) st'.previous ((l, true) :: history) known
      id := by
  by_cases hid : l.id = id
  · subst hid
    have hlast : Function.update last l.id (some l.time) l.id = some l.time :=
      Function.update_self _ _ _
    refine ⟨fun hnone => absurd (hlast.symm.trans hnone) (by simp), fun t ht => ?_⟩
    obtain rfl := Option.some.inj (hlast.symm.trans ht)
    exact ⟨hknown, ⟨_, hrem.own, l.time_read⟩, (l, true), by simp, rfl⟩
  · have hlast : Function.update last l.id (some l.time) id = last id :=
      Function.update_of_ne (Ne.symm hid) _ _
    have hframe := (h id).frame hid (hrem.other id (Ne.symm hid)) true
    exact ⟨fun hnone => hframe.unheard (hlast.symm.trans hnone),
      fun t ht => hframe.heard t (hlast.symm.trans ht)⟩

/-- A line that is passed over is not. -/
theorem tracked_passed {last : Text → Option Int} {st st' : State S}
    {history : List (SensorLine E × Bool)} {known : Text → Bool}
    (h : ∀ id, Tracked last st.previous history known id) {l : SensorLine E} {t : Int}
    (hlast : last l.id = some t) {text : Text} (htext : st.previous.lookup l.id = some text)
    (hrem : Remembers st st' l.id text) (id : Text) :
    Tracked last st'.previous ((l, false) :: history) known id := by
  by_cases hid : l.id = id
  · subst hid
    refine ⟨fun hnone => absurd (hlast.symm.trans hnone) (by simp), fun u hu => ?_⟩
    obtain ⟨hknown, ⟨text', htext', hread⟩, p, hp, hpt⟩ := (h l.id).heard u hu
    refine ⟨hknown, ⟨text', ?_, hread⟩, p, ?_, hpt⟩
    · rw [hrem.own, ← htext, htext']
    · rw [List.find?_cons_of_neg (by simp), hp]
  · exact (h id).frame hid (hrem.other id (Ne.symm hid)) false

/-- A line of a sensor that has been heard is measured against its last line stored. -/
theorem Tracked.rule_iff {last : Text → Option Int} {previous : List (Text × Text)}
    {history : List (SensorLine E × Bool)} {known : Text → Bool} {l : SensorLine E}
    (h : Tracked last previous history known l.id) {t : Int} (hlast : last l.id = some t) :
    Rule history l ↔ E.interval < l.time - t := by
  obtain ⟨-, -, q, hq, rfl⟩ := h.heard t hlast
  constructor
  · rintro (hall | ⟨p, hp, hlt⟩)
    · have hid := List.find?_some hq
      simp only [Bool.and_eq_true, beq_iff_eq] at hid
      exact absurd hid.2 (hall q (List.mem_of_find?_eq_some hq))
    · rwa [Option.some.inj (hq.symm.trans hp)]
  · exact fun hlt => .inr ⟨q, hq, hlt⟩

/-- No line to come is before a line that is stored now. -/
theorem past_update {last : Text → Option Int} {l : SensorLine E} {ls : List (SensorLine E)}
    (hfirst : ∀ k ∈ ls, l.time ≤ k.time)
    (hpast : ∀ id t, last id = some t → ∀ k ∈ l :: ls, t ≤ k.time) (id : Text) (t : Int)
    (ht : Function.update last l.id (some l.time) id = some t) : ∀ k ∈ ls, t ≤ k.time := by
  intro k hk
  by_cases hid : id = l.id
  · rw [hid, Function.update_self, Option.some.injEq] at ht
    exact ht ▸ hfirst k hk
  · rw [Function.update_of_ne hid] at ht
    exact hpast id t ht k (List.mem_cons_of_mem _ hk)

/-- The lines from this state on, as they were stored. -/
def marked (E : Env) (L : SensorList S) (st : State S) (lines : List (SensorLine E)) :
    List (SensorLine E × Bool) :=
  marks lines (run E L st (input lines))

theorem marked_next {st st' : State S} {l : SensorLine E} {outcome : Outcome}
    (h : handle E L st l.now l.line = (outcome, st')) (hne : outcome ≠ .raised)
    (ls : List (SensorLine E)) :
    marked E L st (l :: ls) = (l, isStored outcome) :: marked E L st' ls := by
  have hinput : input (l :: ls) = (l.now, l.line) :: input ls := rfl
  rw [marked, hinput, run_next h hne, marks]
  rfl

theorem marked_raised {st : State S} {l : SensorLine E}
    (h : (handle E L st l.now l.line).1 = .raised) (ls : List (SensorLine E)) :
    marked E L st (l :: ls) = (l, false) :: marks ls [] := by
  have hinput : input (l :: ls) = (l.now, l.line) :: input ls := rfl
  have hrun : run E L st ((l.now, l.line) :: input ls) = [.raised] := by
    rw [run]
    obtain ⟨st', hst⟩ : ∃ st', handle E L st l.now l.line = (.raised, st') :=
      ⟨_, Prod.ext h rfl⟩
    rw [hst]
  rw [marked, hinput, hrun, marks]
  rfl

/-- A line that is due and is passed over breaks the rule. -/
theorem not_obeys {history rest : List (SensorLine E × Bool)} {l : SensorLine E}
    (h : Rule history l) : ¬ Obeys history ((l, false) :: rest) :=
  fun hobeys => absurd (hobeys.1.mpr h) (by decide)

/-- A line measured against this time: it is stored, or the handler is left, or it is passed
over. -/
theorem line_cases (hadd : ∀ s r, L.add s r = none) {st : State S} (l : SensorLine E) {p : Int}
    (hp : E.strptime ((st.previous.lookup l.id).getD l.now) = some p) :
    (Apart E.interval (l.time - p) ∧ L.get st.sensors l.id = true ∧
      ∃ st', st'.sensors = st.sensors ∧ Remembers st st' l.id l.reading.timestamp ∧
        ∀ ls, marked E L st (l :: ls) = (l, true) :: marked E L st' ls) ∨
    (Apart E.interval (l.time - p) ∧ ¬ L.get st.sensors l.id = true ∧
      ∀ ls, ∃ rest, marked E L st (l :: ls) = (l, false) :: rest) ∨
    (¬ Apart E.interval (l.time - p) ∧
      ∃ st', st'.sensors = st.sensors ∧
        Remembers st st' l.id ((st.previous.lookup l.id).getD l.now) ∧
        ∀ ls, marked E L st (l :: ls) = (l, false) :: marked E L st' ls) := by
  have hdue := due_iff l.time_read hp
  by_cases hapart : Apart E.interval (l.time - p)
  · by_cases hknown : L.get st.sensors l.id = true
    · obtain ⟨query, hquery⟩ := query_isSome l.numeric
      have hlisted : (if L.get st.sensors l.id then some st.sensors
          else L.add st.sensors l.reading) = some st.sensors := if_pos hknown
      obtain ⟨st', hst, hsensors, hrem⟩ :=
        handle_due l.parsed (hdue.mpr hapart) hquery hlisted
      exact .inl ⟨hapart, hknown, st', hsensors, hrem, marked_next hst nofun⟩
    · have hnone : (if L.get st.sensors l.id then some st.sensors else L.add st.sensors l.reading) =
          none := by rw [if_neg hknown, hadd]
      exact .inr (.inl ⟨hapart, hknown,
        fun ls => ⟨_, marked_raised (handle_raised l.parsed (hdue.mpr hapart) hnone) ls⟩⟩)
  · obtain ⟨st', hst, hsensors, hrem⟩ := handle_passed (L := L) l.parsed
      (Bool.eq_false_iff.mpr fun h => hapart (hdue.mp h))
    exact .inr (.inr ⟨hapart, st', hsensors, hrem, marked_next hst nofun⟩)

/-- The rule is obeyed from a state on exactly if the condition holds from it on. -/
theorem obeys_iff (hadd : ∀ s r, L.add s r = none) (sensors : S) (lines : List (SensorLine E)) :
    ∀ {st : State S} {history : List (SensorLine E × Bool)} {last : Text → Option Int},
      st.sensors = sensors → lines.Pairwise (fun l k => l.time ≤ k.time) →
      (∀ id t, last id = some t → ∀ l ∈ lines, t ≤ l.time) →
      (∀ id, Tracked last st.previous history (L.get sensors) id) →
      (Obeys history (marked E L st lines) ↔ Met (L.get sensors) last lines) := by
  induction lines with
  | nil =>
    intro st history last _ _ _ _
    exact iff_of_true trivial trivial
  | cons l ls ih =>
    intro st history last hsensors hsorted hpast htracked
    obtain ⟨hfirst, hsorted⟩ := List.pairwise_cons.mp hsorted
    -- the lines behind this one, if it is stored
    have hstored : ∀ {st' : State S}, st'.sensors = st.sensors → L.get st.sensors l.id = true →
        Remembers st st' l.id l.reading.timestamp →
        (Obeys ((l, true) :: history) (marked E L st' ls) ↔
          Met (L.get sensors) (Function.update last l.id (some l.time)) ls) := by
      intro st' hs hknown hrem
      rw [hsensors] at hs hknown
      exact ih hs hsorted (past_update hfirst hpast) (tracked_stored htracked hknown hrem)
    cases hlast : last l.id with
    | none =>
      obtain ⟨hprevious, hall⟩ := (htracked l.id).unheard hlast
      have hrule : Rule history l := .inl hall
      have hclock : E.strptime ((st.previous.lookup l.id).getD l.now) = some l.clock := by
        rw [hprevious]
        exact l.now_read
      simp only [Met, hlast]
      rcases line_cases hadd l hclock with ⟨hapart, hknown, st', hs, hrem, hmarked⟩ |
        ⟨-, hknown, hmarked⟩ | ⟨hapart, st', -, -, hmarked⟩
      · rw [hmarked, Obeys, iff_true_left rfl, and_iff_right hrule, hstored hs hknown hrem,
          and_iff_right ⟨hapart, hsensors ▸ hknown⟩]
      · obtain ⟨rest, hrest⟩ := hmarked ls
        rw [hrest]
        exact iff_of_false (not_obeys hrule) fun h => hknown (hsensors ▸ h.1.2)
      · rw [hmarked]
        exact iff_of_false (not_obeys hrule) fun h => hapart h.1.1
    | some t =>
      obtain ⟨hknown, ⟨text, htext, hread⟩, -⟩ := (htracked l.id).heard t hlast
      have hgap : 0 ≤ l.time - t := Int.sub_nonneg.mpr (hpast l.id t hlast l List.mem_cons_self)
      have hrule := (htracked l.id).rule_iff hlast
      have hprevious : E.strptime ((st.previous.lookup l.id).getD l.now) = some t := by
        rw [htext]
        exact hread
      simp only [Met, hlast]
      rcases line_cases hadd l hprevious with ⟨hapart, hknown, st', hs, hrem, hmarked⟩ |
        ⟨-, hno, -⟩ | ⟨hapart, st', hs, hrem, hmarked⟩
      · rw [apart_iff hgap] at hapart
        have hlt : E.interval < l.time - t := by omega
        rw [if_pos hlt, and_iff_right hapart, hmarked, Obeys, iff_true_left rfl,
          and_iff_right (hrule.mpr hlt), hstored hs hknown hrem]
      · exact absurd (hsensors ▸ hknown) hno
      · rw [apart_iff hgap] at hapart
        rw [hmarked]
        by_cases hlt : E.interval < l.time - t
        · rw [if_pos hlt]
          exact iff_of_false (not_obeys (hrule.mpr hlt)) fun h => hapart h.1
        · have hnot : (false = true) ↔ Rule history l :=
            iff_of_false (by decide) fun h => hlt (hrule.mp h)
          rw [htext, Option.getD_some] at hrem
          rw [if_neg hlt, Obeys, and_iff_right hnot]
          exact ih (hs.trans hsensors) hsorted
            (fun id u hu k hk => hpast id u hu k (List.mem_cons_of_mem _ hk))
            (tracked_passed htracked hlast htext hrem)

end

/-- A stream is stored by the rule exactly if every first line is apart from the clock and of a
sensor in the list, and every line that is due is apart from the last one stored. -/
theorem rateLimit_iff (server : Server) (printable : Char → Bool) (sensors : Sensors × List Row)
    (stream : Stream E) :
    Obeys [] (marked E (daemonList server printable) ⟨[], sensors⟩ stream.lines) ↔
      Met ((daemonList server printable).get sensors) (fun _ => none) stream.lines := by
  refine obeys_iff (daemonList_add server printable) sensors stream.lines rfl stream.sorted
    (fun id t ht => nomatch ht) ?_
  intro id
  exact ⟨fun _ => ⟨rfl, fun p hp => absurd hp List.not_mem_nil⟩, fun t ht => nomatch ht⟩

def towerReading (timestamp : Text) : Reading :=
  ⟨timestamp, acuriteTower, "1234".toList, ['A'], "20".toList, "55".toList⟩

/-- A line at noon, heard a second later. -/
def noon : SensorLine sampleEnv where
  now := "2019-06-01 12:00:01".toList
  clock := 63695073601
  now_read := by decide
  line := "2019-06-01 12:00:00,,,Acurite tower sensor,,1234,A,1,20,,,55".toList
  reading := towerReading "2019-06-01 12:00:00".toList
  parsed := by decide
  time := 63695073600
  time_read := by decide
  numeric := by decide

/-- A day and ten seconds later. -/
def dayAfter : SensorLine sampleEnv where
  now := "2019-06-02 12:00:11".toList
  clock := 63695160011
  now_read := by decide
  line := "2019-06-02 12:00:10,,,Acurite tower sensor,,1234,A,1,20,,,55".toList
  reading := towerReading "2019-06-02 12:00:10".toList
  parsed := by decide
  time := 63695160010
  time_read := by decide
  numeric := by decide

theorem noon_le : noon.time ≤ dayAfter.time := by decide

def days : Stream sampleEnv := ⟨[noon, dayAfter], List.pairwise_pair.mpr noon_le⟩

/-- The sensor has been entered before. -/
def entered : Sensors × List Row := ([(.str "1234".toList, newSensor noon.reading)], [])

theorem days_passed :
    marked sampleEnv (daemonList (fun _ t => (none, t)) fun _ => true) ⟨[], entered⟩ days.lines =
        [(noon, true), (dayAfter, false)] ∧
      ¬ Obeys [] (marked sampleEnv (daemonList (fun _ t => (none, t)) fun _ => true)
        ⟨[], entered⟩ days.lines) := by
  have hmarked : marked sampleEnv (daemonList (fun _ t => (none, t)) fun _ => true) ⟨[], entered⟩
      days.lines = [(noon, true), (dayAfter, false)] := by
    have hrun : run sampleEnv (daemonList (fun _ t => (none, t)) fun _ => true) ⟨[], entered⟩
        (input days.lines) =
          [.stored (insertText ['F'] noon.reading "68.0".toList), .passed] := by decide +kernel
    rw [marked, hrun]
    rfl
  refine ⟨hmarked, ?_⟩
  rw [hmarked]
  intro h
  refine not_obeys (.inr ⟨(noon, true), ?_, ?_⟩) h.2
  · rw [List.find?_cons_of_pos (by decide)]
  · decide

end PowerGuru.Python.Rtl433Limit
