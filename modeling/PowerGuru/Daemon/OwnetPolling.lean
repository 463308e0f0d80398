import PowerGuru.Daemon.Polling
import PowerGuru.Devices.Discovery
import PowerGuru.Store.Schema

/-!
# `ownet_handler`

The thread that reads the sensors of an owserver in each round. A reading of a thermometer that
fails is written as zeros, one of a battery monitor ends the daemon. `queryInsert` does not look
at what the server says of a statement, and of those of the two threads it takes none.
-/
namespace PowerGuru.Daemon.OwnetPolling

open Common Lib.Bytes Lib.AssocMap Lib.Carry Lib.Sweep Lib.Hex Lib.SqlLiteral Lib.Numeral
open Devices.Sensors Devices.Ownet Devices.OnewireBus Devices.OnewireId Devices.Discovery
open Devices.Onewire (FileSystem Mount Thermometer temperatureId)
open Devices.SensorIsolation Store.Database Store.Writers Store.Schema Polling

/-- What the owserver and the clock say in one round. -/
structure Round where
  server : Server
  now : List Byte → Ptime

section
variable (R : FloatReader CFloat) (sensors : Registered)

/-- What is done with one sensor. -/
def visit (round : Round) (p : List Byte × Onewire) : Except Thrown (List (List Byte)) :=
  if p.2.type = .temperature then do
    match ← getTemperature R round.server sensors p.1 with
    | some temp =>
        return [queryInsert (formatTemperature (round.now p.1) temp) (bytes "temperature")]
    | none => return []
  else if p.2.type = .battery then do
    match ← getBattery R round.server sensors p.1 with
    | some batt =>
        return [queryInsert (formatBattery (round.now p.1) batt) (bytes "battery")]
    | none => return []
  else return []

/-- The `for` loop. -/
def poll (round : Round) : List (List Byte) × Option Thrown :=
  sweep (fun p => outcome (visit R sensors round p)) (inOrder sensors)

/-- The statements of so many rounds and what ended the thread, if anything did. `openDB` always
returns true, so its failure is no reason. -/
def ownetHandler (connected : Bool) (pollSleep : Int) (rounds : List Round) :
    List (List Byte) × Option Thrown :=
  if connected = false then ([], none)
  else if pollSleep ≤ 0 then ([], none)
  else sweep (poll R sensors) rounds

end

/-! ## One sensor -/

section
variable {R : FloatReader CFloat} {sensors : Registered}

/-- The record of a thermometer. A value that the server does not answer is the one before it, and
all three are zeros if one of them is no number. -/
def thermometer (R : FloatReader CFloat) (S : Server) (p : List Byte × Onewire) :
    Temperature CFloat :=
  let scale := ((S.get scaleFile).getD []).headD NUL
  match fields R.stof [] (reads S p.1 temperatureFiles) with
  | some [t, low, high] => ⟨p.2.id, t, low, high, scale⟩
  | _ => ⟨p.2.id, 0, 0, 0, scale⟩

/-- The record of a battery monitor. -/
def monitor (R : FloatReader CFloat) (S : Server) (p : List Byte × Onewire) : Battery CFloat :=
  match fields R.stof [] (reads S p.1 ["current", "volts"]) with
  | some [current, volts] => ⟨p.2.id, current, volts, true⟩
  | _ => ⟨p.2.id, 0, 0, true⟩

/-- What a round writes of a sensor. -/
def report (R : FloatReader CFloat) (round : Round) (p : List Byte × Onewire) :
    List (List Byte) :=
  match p.2.type with
  | .temperature =>
      [queryInsert (formatTemperature (round.now p.1) (thermometer R round.server p))
        (bytes "temperature")]
  | .battery =>
      [queryInsert (formatBattery (round.now p.1) (monitor R round.server p)) (bytes "battery")]
  | _ => []

theorem getTemperature_thermometer {p : List Byte × Onewire}
    (hl : sensors.lookup p.1 = some p.2) (ht : p.2.type = .temperature) (S : Server) :
    getTemperature R S sensors p.1 =
      if (S.get scaleFile).isSome = true then .ok (some (thermometer R S p))
      else .error .wildPointer := by
  have hfields := readTemperatures_fields R p.1 [] (S := S)
  unfold getTemperature thermometer
  rw [hl]
  simp only [ht, if_true, ← hfields]
  cases S.get scaleFile with
  | none => rfl
  | some b => cases readTemperatures R S p.1 [] <;> rfl

theorem getBattery_monitor {p : List Byte × Onewire} (hl : sensors.lookup p.1 = some p.2)
    (ht : p.2.type = .battery) (S : Server) :
    getBattery R S sensors p.1 =
      if (fields R.stof [] (reads S p.1 ["current", "volts"])).isSome = true then
        .ok (some (monitor R S p))
      else .error .badNumber := by
  have hfields := readPair_fields R p.1 [] "current" "volts" (S := S)
  unfold getBattery monitor
  rw [hl]
  simp only [ht, if_true, ← hfields]
  cases readPair R S p.1 (bytes "current") (bytes "volts") [] <;> rfl

theorem visit_ok_iff {p : List Byte × Onewire} (hl : sensors.lookup p.1 = some p.2)
    (round : Round) (out : List (List Byte)) :
    visit R sensors round p = .ok out ↔
      Interrogable round.server R p.1 p.2.type ∧ out = report R round p := by
  have hok : ∀ x y : List (List Byte), (Except.ok x : Except Thrown _) = .ok y ↔ y = x := by
    intro x y
    rw [Except.ok.injEq, eq_comm]
  unfold visit Interrogable report
  cases htype : p.2.type with
  | temperature =>
    rw [if_pos rfl, getTemperature_thermometer hl htype]
    cases round.server.get scaleFile with
    | none => simp [bind, Except.bind]
    | some b => simp [bind, Except.bind, pure, Except.pure, hok]
  | battery =>
    rw [if_neg (by decide), if_pos rfl, getBattery_monitor hl htype, ← fields_isSome_iff]
    cases fields R.stof [] (reads round.server p.1 ["current", "volts"]) with
    | none => simp [bind, Except.bind]
    | some xs => simp [bind, Except.bind, pure, Except.pure, hok]
  | _ => simp [pure, Except.pure, hok]

theorem visit_none_iff {p : List Byte × Onewire} (hl : sensors.lookup p.1 = some p.2)
    (round : Round) :
    (outcome (visit R sensors round p)).2 = none ↔ Interrogable round.server R p.1 p.2.type := by
  rw [outcome_none_iff]
  constructor
  · intro h
    obtain ⟨out, hout⟩ := h
    exact ((visit_ok_iff hl round out).mp hout).1
  · intro h
    exact ⟨_, (visit_ok_iff hl round _).mpr ⟨h, rfl⟩⟩

/-! ## Whole runs -/

theorem ownetHandler_eq {pollSleep : Int} (hs : 0 < pollSleep) (rounds : List Round) :
    ownetHandler R sensors true pollSleep rounds =
      sweep (fun round => sweep (fun p => outcome (visit R sensors round p)) (inOrder sensors))
        rounds := by
  rw [ownetHandler, if_neg (by decide), if_neg (Int.not_le.mpr hs)]
  rfl

/-- The constructor gives no device two records. -/
theorem construct_functional {S : Server} {host : List Byte} {connected : Bool}
    (h : construct R S host = .ok (connected, sensors)) : Functional sensors := by
  unfold construct at h
  dsimp only at h
  split at h
  · obtain ⟨-, rfl⟩ := Prod.mk.inj (Except.ok.inj h)
    exact functional_nil
  · obtain ⟨sensors', hregister, hpure⟩ := bind_ok_iff.mp h
    obtain ⟨-, rfl⟩ := Prod.mk.inj (Except.ok.inj hpure)
    rw [((register_ok_iff _ _ _).mp hregister).2]
    exact functional_nil.assignAll _

/-- A daemon that is connected to an owserver lives on if and only if in every round the scale is
answered, if there is a thermometer, and of every battery monitor the current is a number and the
voltage, or else what the current was, is one. Until then it hands `queryInsert` one row for each of
them and round, in the order of their names. -/
theorem owserver_survives_iff {S : Server} {host : List Byte}
    (hc : construct R S host = .ok (true, sensors)) {pollSleep : Int} (hs : 0 < pollSleep)
    (rounds : List Round) :
    ((ownetHandler R sensors true pollSleep rounds).2 = none ↔
      ∀ round ∈ rounds, ∀ p ∈ sensors, Interrogable round.server R p.1 p.2.type) ∧
    ((ownetHandler R sensors true pollSleep rounds).2 = none →
      (ownetHandler R sensors true pollSleep rounds).1 =
        rounds.flatMap fun round => (inOrder sensors).flatMap (report R round)) := by
  have hlookup : ∀ p ∈ inOrder sensors, sensors.lookup p.1 = some p.2 := by
    intro p hp
    exact (lookup_eq_some_iff (construct_functional hc)).mpr (mem_inOrder.mp hp)
  rw [ownetHandler_eq hs, rounds_none_iff]
  constructor
  · apply forall₂_congr
    intro round _
    constructor
    · intro h p hp
      have hp := mem_inOrder.mpr hp
      exact (visit_none_iff (hlookup p hp) round).mp (h p hp)
    · intro h p hp
      exact (visit_none_iff (hlookup p hp) round).mpr (h p (mem_inOrder.mp hp))
  · intro h
    rw [rounds_all h, List.flatMap_def, List.flatMap_def]
    congr 1
    apply List.map_congr_left
    intro round hround
    rw [List.flatMap_def, List.flatMap_def]
    congr 1
    apply List.map_congr_left
    intro p hp
    have hserved := (visit_none_iff (hlookup p hp) round).mp (h round hround p hp)
    rw [(visit_ok_iff (hlookup p hp) round _).mpr ⟨hserved, rfl⟩]
    rfl

end

/-- A thermometer behind an owserver, which is there in the first round and then no more. -/
def thermometerServer : Server where
  init _ _ := true
  get path :=
    if path = bytes "/" then some (bytes "/28.FF84D1F52603/")
    else if path = bytes "/28.FF84D1F52603/family" then some (bytes "28")
    else if path = scaleFile then some (bytes "F")
    else none

def lostServer : Server := ⟨fun _ _ => false, fun _ => none⟩

/-- The id and the alias are not answered. -/
def lostSensor : List Byte × Onewire :=
  (bytes "/28.FF84D1F52603/",
    ⟨bytes "28", bytes "28", bytes "28", bytes "28.28", .temperature, none⟩)

theorem lost_ends :
    (ownetHandler floatReader [lostSensor] true 300
      [⟨thermometerServer, fun _ => morning⟩, ⟨lostServer, fun _ => morning⟩]).2 ≠ none := by
  have hc : construct floatReader thermometerServer (bytes "localhost") =
      .ok (true, [lostSensor]) := by
    rfl
  intro hnone
  have hall := (owserver_survives_iff hc (show (0 : Int) < 300 by decide) _).1.mp hnone
  have hlost := hall ⟨lostServer, fun _ => morning⟩ (by simp) _ (List.mem_singleton_self _)
  exact absurd (hlost.1 rfl) (by decide)

/-! ## What the server makes of it -/

/-- Whatever is read, nothing of it is for a table that is there. -/
theorem visit_refused {R : FloatReader CFloat} {sensors : Registered} {round : Round}
    {p : List Byte × Onewire} {statement : List Byte}
    (h : statement ∈ (outcome (visit R sensors round p)).1) : ¬ MayAccept statement := by
  unfold visit at h
  split at h
  · cases ht : getTemperature R round.server sensors p.1 with
    | error e => exact absurd h (by simp [ht, bind, Except.bind, outcome])
    | ok temp =>
      cases temp with
      | none => exact absurd h (by simp [ht, bind, Except.bind, pure, Except.pure, outcome])
      | some temp =>
        obtain rfl : statement = _ := by
          simpa [ht, bind, Except.bind, pure, Except.pure, outcome] using h
        exact not_mayAccept_temperature _
  · split at h
    · cases hb : getBattery R round.server sensors p.1 with
      | error e => exact absurd h (by simp [hb, bind, Except.bind, outcome])
      | ok batt =>
        cases batt with
        | none => exact absurd h (by simp [hb, bind, Except.bind, pure, Except.pure, outcome])
        | some batt =>
          obtain rfl : statement = _ := by
            simpa [hb, bind, Except.bind, pure, Except.pure, outcome] using h
          exact not_mayAccept_battery _
    · exact absurd h (by simp [pure, Except.pure, outcome])

/-- The id of a record is one that was turned round. -/
theorem id_of_getTemperature {R : Thermometer CFloat} {fs : FileSystem} {m : Mount}
    {device : List Byte} {temp : Temperature CFloat}
    (h : Devices.Onewire.getTemperature R fs m device = .ok temp) :
    ∃ id, temperatureId id = some temp.id := by
  unfold Devices.Onewire.getTemperature at h
  split at h
  · exact nomatch h
  · next sensor _ =>
    split at h
    · exact nomatch h
    · next id hid =>
      split at h
      · obtain ⟨t, -, ht⟩ := bind_ok_iff.mp h
        obtain rfl := Except.ok.inj ht
        exact ⟨sensor.id, hid⟩
      · obtain ⟨t, -, h⟩ := bind_ok_iff.mp h
        obtain ⟨high, -, h⟩ := bind_ok_iff.mp h
        obtain ⟨low, -, h⟩ := bind_ok_iff.mp h
        obtain rfl := Except.ok.inj h
        exact ⟨sensor.id, hid⟩

theorem kernel_visit_refused {R : Thermometer CFloat} {m : Mount} {round : Polling.Round}
    {p : List Byte × Onewire} {statement : List Byte}
    (h : statement ∈ (outcome (Polling.visit R m round p)).1) : ¬ MayAccept statement := by
  have hdigit : ∀ d < 16, upperDigit d ≠ NUL ∧ upperDigit d ≠ quote := by decide
  unfold outcome Polling.visit at h
  split at h
  · next out hout =>
    split at hout
    · cases ht : Devices.Onewire.getTemperature R round.fs m p.1 with
      | error e =>
        rw [ht] at hout
        exact nomatch hout
      | ok temp =>
        rw [ht] at hout
        obtain rfl := Except.ok.inj hout
        obtain rfl := List.mem_singleton.mp h
        obtain ⟨id, hid⟩ := id_of_getTemperature ht
        have hplain : ∀ b ∈ temp.id, b ≠ NUL ∧ b ≠ quote := by
          intro b hb
          obtain ⟨d, hd, rfl⟩ := mem_temperatureId hid hb
          exact hdigit d hd
        exact not_mayAccept_weather _ (fun hn => (hplain _ hn).1 rfl) fun hq => (hplain _ hq).2 rfl
    · split at hout
      · cases hb : Devices.Onewire.getBattery R round.fs m p.1 with
        | error e =>
          rw [hb] at hout
          exact nomatch hout
        | ok batt =>
          rw [hb] at hout
          cases batt with
          | none =>
            obtain rfl := Except.ok.inj hout
            exact absurd h List.not_mem_nil
          | some batt =>
            obtain rfl := Except.ok.inj hout
            obtain rfl := List.mem_singleton.mp h
            exact not_mayAccept_battery _
      · obtain rfl := Except.ok.inj hout
        exact absurd h List.not_mem_nil
  · exact absurd h List.not_mem_nil

/-- Whatever the sensors say, however long the daemon runs and whichever of its two threads writes,
not one of its statements goes into a table of the script. -/
theorem daemon_stores_nothing :
    (∀ (R : Thermometer CFloat) (m : Mount) (pollSleep : Int) (rounds : List Polling.Round),
      ∀ statement ∈ (onewireHandler R m pollSleep rounds).1, ¬ MayAccept statement) ∧
    (∀ (R : FloatReader CFloat) (sensors : Registered) (connected : Bool) (pollSleep : Int)
        (rounds : List Round),
      ∀ statement ∈ (ownetHandler R sensors connected pollSleep rounds).1,
        ¬ MayAccept statement) := by
  constructor
  · intro R m pollSleep rounds statement h
    unfold onewireHandler at h
    split at h
    · exact absurd h List.not_mem_nil
    · split at h
      · exact absurd h List.not_mem_nil
      · obtain ⟨round, -, p, -, hp⟩ := mem_rounds h
        exact kernel_visit_refused hp
  · intro R sensors connected pollSleep rounds statement h
    unfold ownetHandler at h
    split at h
    · exact absurd h List.not_mem_nil
    · split at h
      · exact absurd h List.not_mem_nil
      · obtain ⟨round, -, p, -, hp⟩ := mem_rounds h
        exact visit_refused hp

end PowerGuru.Daemon.OwnetPolling
