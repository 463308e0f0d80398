import PowerGuru.Lib.PyRepr
import PowerGuru.Lib.Sweep
import PowerGuru.Lib.NullableTable

/-!
# `ownet.py`: `ownet_handler`

The thread that reads the 1-wire server in rounds and inserts what it reads. The tables of
`powerguru.sql` have a unique timestamp, and the timestamp of a row is the second in which it is
inserted.
-/
namespace PowerGuru.Python.OwnetHandler

open Lib.PyRepr Lib.Sweep Lib.NullableTable

/-! ## The database -/

inductive Relation where
  | weather
  | power
  deriving DecidableEq, Repr

/-- A row, with the second that the server reads in its timestamp. -/
structure Row where
  relation : Relation
  timestamp : Int
  statement : Text
  deriving DecidableEq

def Row.key (r : Row) : Relation × Int := (r.relation, r.timestamp)

abbrev Store := Table fun r : Row => some r.key

/-- What the server says of a statement, the unique columns apart. -/
inductive Verdict where
  | accepted
  /-- A `ProgrammingError`, such as of the syntax or of a column that is not there. -/
  | programming
  /-- Any other exception. -/
  | other
  deriving DecidableEq, Repr

/-- `_family`, without the descriptions. -/
def familyTypes : List (Text × List Text) :=
  [("TEMPERATURE".toList, ["10".toList, "22".toList, "28".toList]),
    ("POWER".toList, ["30".toList, "32".toList, "35".toList, "2E".toList, "3D".toList, "31".toList,
      "26".toList, "51".toList, "1B".toList, "1E".toList, "B2".toList]),
    ("ACVOLTAGE".toList, ["A2".toList]),
    ("AUTH".toList, ["82".toList]),
    ("CLOCK".toList, ["24".toList, "27".toList]),
    ("UNSUPPORTED".toList, ["36".toList, "1D".toList, "16".toList, "04".toList, "7E".toList,
      "41".toList, "81".toList, "01".toList, "A6".toList, "06".toList, "08".toList, "09".toList,
      "14".toList, "23".toList, "43".toList, "0B".toList, "0F".toList, "2D".toList, "1F".toList,
      "EF".toList, "02".toList, "37".toList, "FC".toList, "00".toList, "A0".toList, "18".toList,
      "44".toList, "34".toList, "33".toList, "FF".toList, "05".toList, "12".toList, "29".toList,
      "1C".toList, "3A".toList, "3B".toList, "42".toList, "B1".toList, "B3".toList, "21".toList,
      "EE".toList, "89".toList, "8B".toList, "8F".toList, "2C".toList, "A1".toList, "20".toList])]

/-- `_family[family]['type']`. -/
def familyType (family : Text) : Option Text :=
  (familyTypes.find? fun t => t.2.any fun f => decide (f = family)).map Prod.fst

/-- The options, and what is used of the library and of the server. -/
structure Env where
  interval : Int
  scale : Text
  /-- `str((float(t) * 1.8) + 32.0)`, unless `float` raises. -/
  fahrenheit : Text → Option Text
  /-- The text is the same object as the literal `"0"`. -/
  isZero : Text → Bool
  server : Text → Verdict
  seconds : Text → Int

section
variable (E : Env)

/-- `Postgresql.query` on an open connection, unless an exception leaves it. The violation of a
unique column is no `ProgrammingError`. -/
def Env.query (db : Store) (r : Row) : Option Store :=
  match E.server r.statement with
  | .accepted => if r.key ∈ db.keys then none else some (db.insert r)
  | .programming => some db
  | .other => none

/-! ## A directory -/

/-- The entries of a directory, decoded, unless reading or decoding raises, and the text that
`strftime` gives at the end. -/
structure Visit where
  read : Text → Option Text
  now : Text

/-- `lstrip` of bytes. -/
def lstrip (t : Text) : Text :=
  t.dropWhile fun c => c = ' ' || (decide (9 ≤ c.toNat) && decide (c.toNat ≤ 13))

def weatherInsert (id temperature lowtemp hightemp scale now : Text) : Text :=
  "INSERT INTO weather VALUES('".toList ++ id ++ "', ".toList ++ temperature ++ ", ".toList ++
    lowtemp ++ ", ".toList ++ hightemp ++ ", 0, '".toList ++ scale ++ "', '".toList ++ now ++
    "');".toList

def powerInsert (id current voltage now : Text) : Text :=
  "INSERT INTO power VALUES('".toList ++ id ++ "', ".toList ++ current ++ ", ".toList ++ voltage ++
    ", 'DC', '".toList ++ now ++ "');".toList

/-- What comes of a directory. -/
inductive Reading where
  /-- A sensor of a type that is not recorded. -/
  | nothing
  /-- The server could not be read, or the family is not known. -/
  | fault
  /-- `float` raised, which is not caught. -/
  | raised
  | row (r : Row)

/-- A lowest or highest temperature in Fahrenheit. -/
def Env.extreme (t : Text) : Option Text := if E.isZero t then some t else E.fahrenheit t

def Env.temperature (id : Text) (v : Visit) : Reading :=
  match v.read "temperature".toList, v.read "templow".toList, v.read "temphigh".toList with
  | some t, some low, some high =>
      let (t, low, high) := (lstrip t, lstrip low, lstrip high)
      let row t low high : Reading :=
        .row ⟨.weather, E.seconds v.now, weatherInsert id t low high E.scale v.now⟩
      if E.scale = ['F'] then
        match E.fahrenheit t, E.extreme low, E.extreme high with
        | some t, some low, some high => row t low high
        | _, _, _ => .raised
      else row t low high
  | _, _, _ => .fault

def Env.battery (id : Text) (v : Visit) : Reading :=
  match v.read "current".toList, v.read "volts".toList with
  | some current, some voltage =>
      .row ⟨.power, E.seconds v.now, powerInsert id (lstrip current) (lstrip voltage) v.now⟩
  | _, _ => .fault

def Env.visit (v : Visit) : Reading :=
  match v.read "family".toList, v.read "id".toList, v.read "alias".toList,
    v.read "type".toList with
  | some family, some id, some _, some _ =>
      match familyType family with
      | none => .fault
      | some type =>
          if type = "TEMPERATURE".toList then E.temperature id v
          else if type = "POWER".toList then E.battery id v
          else .nothing
  | _, _, _, _ => .fault

/-! ## The thread -/

/-- What happens in a round: a directory is read, or another program inserts a row if its timestamp
is not there yet, as `rtl433_handler` does. -/
inductive Event where
  | visit (v : Visit)
  | other (r : Row)

structure State where
  errors : Nat
  db : Store

/-- How the thread ends. -/
inductive Ended where
  | disconnected
  | raised
  /-- There have been errors. -/
  | returned
  deriving DecidableEq, Repr

def Env.step (s : State) : Event → State × Option Ended
  | .other r => ({ s with db := s.db.insert r }, none)
  | .visit v =>
      match E.visit v with
      | .nothing => (s, none)
      | .fault => ({ s with errors := s.errors + 1 }, none)
      | .raised => (s, some .raised)
      | .row r =>
          match E.query s.db r with
          | none => (s, some .raised)
          | some db => ({ s with db }, none)

/-- Whether the database is connected, and what `dir` lists unless it raises. -/
structure Round where
  connected : Bool
  dir : Option (List Event)

/-- One round of `while db.isConnected()`. -/
def Env.round (bound : Bool) (s : State) (r : Round) : State × Option Ended :=
  if r.connected = false then (s, some .disconnected)
  else if bound = false then (s, some .raised)
  else
    match r.dir with
    | none => (s, some .raised)
    | some events =>
        match relay E.step s events with
        | (s, some e) => (s, some e)
        | (s, none) =>
            -- `time.sleep` raises for a negative interval.
            if E.interval < 0 then (s, some .raised)
            else if 0 < s.errors then (s, some .returned)
            else (s, none)

/-- One try to connect: `protocol.proxy` returns, and `dir` does. -/
structure Try where
  proxy : Bool
  dir : Bool

/-- Whether `owproxy` has a value after the tries. -/
def connect : Nat → Bool → List Try → Bool
  | retries + 1, bound, t :: tries =>
      if t.proxy && t.dir then true else connect retries (bound || t.proxy) tries
  | _, bound, _ => bound

/-- The database after so many rounds, and how the thread ended, if it did. -/
def Env.ownetHandler (tries : List Try) (db : Store) (rounds : List Round) :
    Store × Option Ended :=
  let (s, ended) := relay (E.round (connect 3 false tries)) ⟨0, db⟩ rounds
  (s.db, ended)

/-! ## A run without errors -/

/-- A row that is put to the tables, by the thread itself or by another program. -/
structure Offer where
  own : Bool
  row : Row

def Env.offer : Event → Option Offer
  | .other r => some ⟨false, r⟩
  | .visit v =>
      match E.visit v with
      | .row r => if E.server r.statement = .accepted then some ⟨true, r⟩ else none
      | _ => none

/-- The directory is read, every number in it is one, and the server raises nothing but what is
caught. -/
def Env.Sound : Event → Prop
  | .other _ => True
  | .visit v =>
      match E.visit v with
      | .nothing => True
      | .row r => E.server r.statement ≠ .other
      | _ => False

/-- A row of the thread itself is not of the second of one before it in the same table. -/
def Apart (a b : Offer) : Prop := b.own = true → a.row.key ≠ b.row.key

/-- The thread goes on and has counted no errors. -/
def Fine (r : State × Option Ended) : Prop := r.2 = none ∧ r.1.errors = 0

/-- The rows of the thread itself are of other seconds than those of the table. -/
def Fresh (db : Store) (offers : List Offer) : Prop :=
  ∀ o ∈ offers, o.own = true → o.row.key ∉ db.keys

end

section
variable {E : Env}

theorem step_fine_iff (s : State) (e : Event) :
    Fine (E.step s e) ↔ s.errors = 0 ∧ E.Sound e ∧ Fresh s.db (E.offer e).toList := by
  unfold Fine Env.step Env.Sound Env.offer Fresh
  cases e with
  | other r => simp
  | visit v =>
    dsimp only
    cases E.visit v with
    | nothing => simp
    | fault => simp
    | raised => simp
    | row r =>
      dsimp only [Env.query]
      cases hserver : E.server r.statement with
      | accepted =>
        by_cases hkey : r.key ∈ s.db.keys
        · simp [hkey, -List.mem_map]
        · simp [hkey, -List.mem_map]
      | programming => simp
      | other => simp

theorem step_db {s : State} {e : Event} (h : (E.step s e).2 = none) :
    (E.step s e).1.db = s.db.insertAll ((E.offer e).toList.map Offer.row) := by
  unfold Env.step Env.offer at *
  cases e with
  | other r => rfl
  | visit v =>
    dsimp only at h ⊢
    cases hv : E.visit v with
    | nothing => rfl
    | fault => rfl
    | raised =>
      rw [hv] at h
      exact nomatch h
    | row r =>
      rw [hv] at h
      dsimp only [Env.query] at h ⊢
      cases hserver : E.server r.statement with
      | accepted =>
        rw [hserver] at h
        dsimp only at h ⊢
        by_cases hkey : r.key ∈ s.db.keys
        · rw [if_pos hkey] at h
          exact nomatch h
        · rw [if_neg hkey]
          rfl
      | programming => rfl
      | other =>
        rw [hserver] at h
        exact nomatch h

/-! ## A whole run -/

theorem fresh_append {db : Store} {as bs : List Offer} :
    Fresh db (as ++ bs) ↔ Fresh db as ∧ Fresh db bs := List.forall_mem_append

/-- Behind some offers the table has their seconds too. -/
theorem fresh_insertAll {db : Store} {as bs : List Offer} :
    Fresh (db.insertAll (as.map Offer.row)) bs ↔
      Fresh db bs ∧ ∀ a ∈ as, ∀ b ∈ bs, Apart a b := by
  unfold Fresh Apart
  simp only [Table.mem_keys_insertAll, not_or]
  constructor
  · intro h
    refine ⟨fun b hb hown => (h b hb hown).1, ?_⟩
    intro a ha b hb hown hkey
    exact (h b hb hown).2 ⟨a.row, List.mem_map_of_mem ha, congrArg some hkey⟩
  · rintro ⟨hfresh, hapart⟩ b hb hown
    refine ⟨hfresh b hb hown, ?_⟩
    rintro ⟨r, hr, hkey⟩
    obtain ⟨a, ha, rfl⟩ := List.mem_map.mp hr
    exact hapart a ha b hb hown (Option.some.inj hkey)

theorem pairwise_toList (o : Option Offer) : o.toList.Pairwise Apart := by
  cases o with
  | none => exact List.Pairwise.nil
  | some o => exact List.pairwise_singleton _ _

theorem relay_fine_iff (s : State) (events : List Event) :
    Fine (relay E.step s events) ↔
      s.errors = 0 ∧ (∀ e ∈ events, E.Sound e) ∧ Fresh s.db (events.filterMap E.offer) ∧
        (events.filterMap E.offer).Pairwise Apart := by
  induction events generalizing s with
  | nil => simp [Fine, relay, Fresh]
  | cons e events ih =>
    have hcons : Fine (relay E.step s (e :: events)) ↔
        Fine (E.step s e) ∧ Fine (relay E.step (E.step s e).1 events) := by
      constructor
      · intro h
        have hnone := relay_none_cons.mp h.1
        have hrest : Fine (relay E.step (E.step s e).1 events) := relay_goes_on hnone.1 ▸ h
        exact ⟨⟨hnone.1, ((ih _).mp hrest).1⟩, hrest⟩
      · intro h
        rw [relay_goes_on h.1.1]
        exact h.2
    have hoffers : (e :: events).filterMap E.offer =
        (E.offer e).toList ++ events.filterMap E.offer := by
      cases ho : E.offer e <;> simp [ho]
    rw [hcons, ih, hoffers, List.forall_mem_cons, fresh_append, List.pairwise_append]
    constructor
    · rintro ⟨hstep, -, hsound, hfresh, hapart⟩
      obtain ⟨herrors, hsound', hfresh'⟩ := (step_fine_iff s e).mp hstep
      rw [step_db hstep.1, fresh_insertAll] at hfresh
      exact ⟨herrors, ⟨hsound', hsound⟩, ⟨hfresh', hfresh.1⟩, pairwise_toList _, hapart, hfresh.2⟩
    · rintro ⟨herrors, ⟨hsound', hsound⟩, ⟨hfresh', hfresh⟩, -, hapart, hcross⟩
      have hstep : Fine (E.step s e) := (step_fine_iff s e).mpr ⟨herrors, hsound', hfresh'⟩
      refine ⟨hstep, hstep.2, hsound, ?_, hapart⟩
      rw [step_db hstep.1, fresh_insertAll]
      exact ⟨hfresh, hcross⟩

theorem relay_db {s : State} {events : List Event} (h : (relay E.step s events).2 = none) :
    (relay E.step s events).1.db =
      s.db.insertAll ((events.filterMap E.offer).map Offer.row) := by
  induction events generalizing s with
  | nil => rfl
  | cons e events ih =>
    obtain ⟨he, hrest⟩ := relay_none_cons.mp h
    have hoffers : (e :: events).filterMap E.offer =
        (E.offer e).toList ++ events.filterMap E.offer := by
      cases ho : E.offer e <;> simp [ho]
    rw [relay_goes_on he, ih hrest, step_db he, hoffers, List.map_append]
    exact (List.foldl_append ..).symm

/-- What happens in the rounds, one after the other. -/
def trace (rounds : List Round) : List Event := rounds.flatMap fun r => r.dir.getD []

/-- A round that is gone through up to the sleep. -/
def Listed (bound : Bool) (r : Round) : Prop :=
  r.connected = true ∧ bound = true ∧ r.dir.isSome = true

theorem round_none_iff {bound : Bool} {s : State} {r : Round} :
    (E.round bound s r).2 = none ↔
      Listed bound r ∧ 0 ≤ E.interval ∧ Fine (relay E.step s (r.dir.getD [])) := by
  unfold Env.round Listed Fine
  cases r.connected with
  | false => simp
  | true =>
    cases bound with
    | false => simp
    | true =>
      cases r.dir with
      | none => simp
      | some events =>
        dsimp only [Option.getD_some]
        cases hc : relay E.step s events with
        | mk s' ended =>
          cases ended with
          | some e => simp
          | none =>
            dsimp only
            by_cases hi : E.interval < 0
            · rw [if_pos hi]
              exact iff_of_false (by simp) fun h => absurd h.2.1 (Int.not_le.mpr hi)
            · rw [if_neg hi]
              by_cases he : 0 < s'.errors
              · rw [if_pos he]
                exact iff_of_false (by simp) fun h => absurd h.2.2.2 (Nat.ne_of_gt he)
              · rw [if_neg he]
                exact iff_of_true rfl
                  ⟨⟨rfl, rfl, rfl⟩, Int.not_lt.mp hi, rfl, Nat.eq_zero_of_not_pos he⟩

theorem round_state {bound : Bool} {s : State} {r : Round} (h : (E.round bound s r).2 = none) :
    (E.round bound s r).1 = (relay E.step s (r.dir.getD [])).1 := by
  obtain ⟨⟨hconnected, hbound, hdir⟩, hi, hfine⟩ := round_none_iff.mp h
  obtain ⟨events, hevents⟩ := Option.isSome_iff_exists.mp hdir
  rw [hevents, Option.getD_some] at hfine ⊢
  have hc : relay E.step s events = ((relay E.step s events).1, none) := Prod.ext rfl hfine.1
  have herrors : ¬ 0 < (relay E.step s events).1.errors := by
    rw [hfine.2]
    exact Nat.lt_irrefl 0
  unfold Env.round
  rw [if_neg (by simp [hconnected]), if_neg (by simp [hbound]), hevents]
  dsimp only
  rw [hc]
  dsimp only
  rw [if_neg (Int.not_lt.mpr hi), if_neg herrors]

theorem fine_append {s : State} {events events' : List Event} :
    Fine (relay E.step s (events ++ events')) ↔
      Fine (relay E.step s events) ∧
        Fine (relay E.step (relay E.step s events).1 events') := by
  constructor
  · intro h
    obtain ⟨hfirst, hsecond⟩ := relay_none_append.mp h.1
    have hrest : Fine (relay E.step (relay E.step s events).1 events') := relay_append hfirst ▸ h
    exact ⟨⟨hfirst, ((relay_fine_iff _ _).mp hrest).1⟩, hrest⟩
  · rintro ⟨hfirst, hrest⟩
    rw [relay_append hfirst.1]
    exact hrest

/-- The rounds are one long walk over everything that happens in them. -/
theorem rounds_none_iff {bound : Bool} {s : State} (hs : s.errors = 0) {rounds : List Round} :
    (relay (E.round bound) s rounds).2 = none ↔
      (∀ r ∈ rounds, Listed bound r ∧ 0 ≤ E.interval) ∧ Fine (relay E.step s (trace rounds)) := by
  induction rounds generalizing s with
  | nil => simp [relay, trace, Fine, hs]
  | cons r rounds ih =>
    have htrace : trace (r :: rounds) = r.dir.getD [] ++ trace rounds := rfl
    rw [relay_none_cons, htrace, fine_append, List.forall_mem_cons]
    constructor
    · rintro ⟨hround, hrest⟩
      obtain ⟨hlisted, hi, hfine⟩ := round_none_iff.mp hround
      rw [round_state hround] at hrest
      obtain ⟨hall, hfine'⟩ := (ih hfine.2).mp hrest
      exact ⟨⟨⟨hlisted, hi⟩, hall⟩, hfine, hfine'⟩
    · rintro ⟨⟨⟨hlisted, hi⟩, hall⟩, hfine, hfine'⟩
      have hround : (E.round bound s r).2 = none := round_none_iff.mpr ⟨hlisted, hi, hfine⟩
      refine ⟨hround, ?_⟩
      rw [round_state hround]
      exact (ih hfine.2).mpr ⟨hall, hfine'⟩

theorem rounds_state {bound : Bool} {s : State} {rounds : List Round}
    (h : (relay (E.round bound) s rounds).2 = none) :
    (relay (E.round bound) s rounds).1 = (relay E.step s (trace rounds)).1 := by
  induction rounds generalizing s with
  | nil => rfl
  | cons r rounds ih =>
    obtain ⟨hround, hrest⟩ := relay_none_cons.mp h
    have htrace : trace (r :: rounds) = r.dir.getD [] ++ trace rounds := rfl
    have hfine := (round_none_iff.mp hround).2.2
    rw [relay_goes_on hround, ih hrest, round_state hround, htrace, relay_append hfine.1]

/-- The rows that are put to the tables in these rounds, in their order. -/
def offers (E : Env) (rounds : List Round) : List Offer := (trace rounds).filterMap E.offer

theorem ownetHandler_none_iff (tries : List Try) (db : Store) (rounds : List Round) :
    (E.ownetHandler tries db rounds).2 = none ↔
      (∀ r ∈ rounds, Listed (connect 3 false tries) r ∧ 0 ≤ E.interval) ∧
        (∀ e ∈ trace rounds, E.Sound e) ∧ Fresh db (offers E rounds) ∧
        (offers E rounds).Pairwise Apart := by
  have hrounds : (relay (E.round (connect 3 false tries)) ⟨0, db⟩ rounds).2 = none ↔
      (∀ r ∈ rounds, Listed (connect 3 false tries) r ∧ 0 ≤ E.interval) ∧
        Fine (relay E.step ⟨0, db⟩ (trace rounds)) := rounds_none_iff rfl
  rw [relay_fine_iff, and_iff_right rfl] at hrounds
  exact hrounds

theorem ownetHandler_rows {tries : List Try} {db : Store} {rounds : List Round}
    (h : (E.ownetHandler tries db rounds).2 = none) :
    (E.ownetHandler tries db rounds).1 = db.insertAll ((offers E rounds).map Offer.row) := by
  have hrounds : (relay (E.round (connect 3 false tries)) ⟨0, db⟩ rounds).2 = none := h
  have hfine := (rounds_none_iff rfl).mp hrounds
  have hstate := rounds_state hrounds
  exact (congrArg State.db hstate).trans (relay_db hfine.2.1)

theorem own_inserted {db : Store} {os : List Offer} (hfresh : Fresh db os)
    (hapart : os.Pairwise Apart) {o : Offer} (ho : o ∈ os) (hown : o.own = true) :
    o.row ∈ (db.insertAll (os.map Offer.row)).rows := by
  induction os generalizing db with
  | nil => exact absurd ho List.not_mem_nil
  | cons p os ih =>
    obtain ⟨hp, hos⟩ := List.forall_mem_cons.mp hfresh
    obtain ⟨hfirst, hapart⟩ := List.pairwise_cons.mp hapart
    have hfresh' : Fresh (db.insert p.row) os := by
      have hiff : Fresh (db.insertAll ([p].map Offer.row)) os ↔
          Fresh db os ∧ ∀ a ∈ [p], ∀ b ∈ os, Apart a b := fresh_insertAll
      rw [List.forall_mem_singleton] at hiff
      exact hiff.mpr ⟨hos, hfirst⟩
    rcases List.mem_cons.mp ho with rfl | ho
    · have hnew : ¬ ∃ k ∈ db.keys, some o.row.key = some k := by
        rintro ⟨k, hk, hkey⟩
        exact hp hown (Option.some.inj hkey ▸ hk)
      have hrow : o.row ∈ (db.insert o.row).rows := Table.mem_insert.mpr (Or.inr ⟨rfl, hnew⟩)
      have hall := Table.mem_insertAll_of_mem (os.map Offer.row) hrow
      exact hall
    · exact ih hfresh' hapart ho

/-- The thread goes on if and only if the server and the database can be reached, whatever it reads
is in order, and no row of its own falls in a second of which its table has one. Then every row of
its own that the server accepts is in its table. -/
theorem ownetHandler_survives_iff (E : Env) (tries : List Try) (db : Store)
    (rounds : List Round) :
    ((E.ownetHandler tries db rounds).2 = none ↔
      (∀ r ∈ rounds, Listed (connect 3 false tries) r ∧ 0 ≤ E.interval) ∧
        (∀ e ∈ trace rounds, E.Sound e) ∧ Fresh db (offers E rounds) ∧
        (offers E rounds).Pairwise Apart) ∧
      ((E.ownetHandler tries db rounds).2 = none →
        (E.ownetHandler tries db rounds).1 = db.insertAll ((offers E rounds).map Offer.row) ∧
          ∀ o ∈ offers E rounds, o.own = true →
            o.row ∈ (E.ownetHandler tries db rounds).1.rows) := by
  refine ⟨ownetHandler_none_iff tries db rounds, ?_⟩
  intro h
  obtain ⟨-, -, hfresh, hapart⟩ := (ownetHandler_none_iff tries db rounds).mp h
  refine ⟨ownetHandler_rows h, ?_⟩
  intro o ho hown
  rw [ownetHandler_rows h]
  exact own_inserted hfresh hapart ho hown

theorem offer_row {v : Visit} {r : Row} (hv : E.visit v = .row r)
    (hr : E.server r.statement = .accepted) : E.offer (.visit v) = some ⟨true, r⟩ := by
  simp only [Env.offer, hv, if_pos hr]

/-- Two sensors that are read within a second end the thread. -/
theorem same_second_ends {rounds : List Round} {front middle behind : List Event} {v w : Visit}
    (htrace : trace rounds = front ++ .visit v :: (middle ++ .visit w :: behind)) {r r' : Row}
    (hv : E.visit v = .row r) (hr : E.server r.statement = .accepted)
    (hw : E.visit w = .row r') (hr' : E.server r'.statement = .accepted) (hkey : r.key = r'.key)
    (tries : List Try) (db : Store) : (E.ownetHandler tries db rounds).2 ≠ none := by
  intro h
  obtain ⟨-, -, -, hapart⟩ := (ownetHandler_none_iff tries db rounds).mp h
  rw [offers, htrace, List.filterMap_append, List.filterMap_cons_some (offer_row hv hr),
    List.filterMap_append, List.filterMap_cons_some (offer_row hw hr')] at hapart
  have hbehind := (List.pairwise_append.mp hapart).2.1
  have hlater := (List.pairwise_cons.mp hbehind).1
  exact hlater ⟨true, r'⟩ (List.mem_append_right _ List.mem_cons_self) rfl hkey

end

end PowerGuru.Python.OwnetHandler
