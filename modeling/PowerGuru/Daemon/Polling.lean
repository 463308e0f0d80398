import PowerGuru.Devices.OnewireBus
import PowerGuru.Devices.OnewireId
import PowerGuru.Lib.Sweep
import PowerGuru.Store.Writers

/-!
# `onewire_handler`

The thread that reads every sensor in each round and writes what it finds to the database.
Nothing catches what a reading throws, so the first file that cannot be read as a number ends
the thread and the daemon with it.
-/
namespace PowerGuru.Daemon.Polling

open Lib.Bytes Lib.AssocMap Lib.Hex Lib.Sweep Lib.Strtol Lib.Numeral Devices.Sensors
open Devices.Onewire Devices.OnewireBus Devices.OnewireId Store.Database Store.Writers

instance : Zero CFloat := ⟨.finite false 0 Lib.Strtod.zero_nonneg⟩

/-- The files and the clock of one round. -/
structure Round where
  fs : FileSystem
  now : List Byte → Ptime

section
variable (R : Thermometer CFloat) (m : Mount)

/-- What is done with one sensor. -/
def visit (round : Round) (p : List Byte × Onewire) : Except Thrown (List (List Byte)) :=
  if p.2.type = .temperature then do
    let temp ← getTemperature R round.fs m p.1
    return [queryInsert (formatTemperature (round.now p.1) temp) (bytes "weather")]
  else if p.2.type = .battery then do
    match ← getBattery R round.fs m p.1 with
    | some batt =>
        return [queryInsert (formatBattery (round.now p.1) batt) (bytes "battery")]
    | none => return []
  else return []

/-- The order of a `std::map` with strings for keys. -/
def inOrder (sensors : Registered) : Registered :=
  sensors.mergeSort fun a b => decide (a.1 ≤ b.1)

/-- The `for` loop. A reading that throws has no statement. -/
def poll (round : Round) : List (List Byte) × Option Thrown :=
  sweep (fun p => outcome (visit R m round p)) (inOrder m.sensors)

/-- The statements of so many rounds and the exception that ended the thread, if one did.
`openDB` always returns true, so the thread never ends before its rounds. -/
def onewireHandler (pollSleep : Int) (rounds : List Round) : List (List Byte) × Option Thrown :=
  if m.mounted = false then ([], none)
  else if pollSleep ≤ 0 then ([], none)
  else sweep (poll R m) rounds

end

/-! ## Any sensors -/

section
variable {R : Thermometer CFloat} {m : Mount}

/-- The reading of this sensor throws nothing. -/
def Readable (R : Thermometer CFloat) (m : Mount) (fs : FileSystem) (p : List Byte × Onewire) :
    Prop :=
  (p.2.type = .temperature → ∃ temp, getTemperature R fs m p.1 = .ok temp) ∧
    (p.2.type = .battery → ∃ batt, getBattery R fs m p.1 = .ok batt)

theorem visit_none_iff (round : Round) (p : List Byte × Onewire) :
    (outcome (visit R m round p)).2 = none ↔ Readable R m round.fs p := by
  unfold outcome visit Readable
  cases htype : p.2.type with
  | temperature =>
    simp only [if_true, true_imp_iff, reduceCtorEq, false_imp_iff, and_true]
    cases getTemperature R round.fs m p.1 with
    | error e => simp [bind, Except.bind]
    | ok temp => simp [bind, Except.bind, pure, Except.pure]
  | battery =>
    simp only [reduceCtorEq, if_false, if_true, true_imp_iff, false_imp_iff, true_and]
    cases getBattery R round.fs m p.1 with
    | error e => simp [bind, Except.bind]
    | ok batt => cases batt <;> simp [bind, Except.bind, pure, Except.pure]
  | _ => simp [pure, Except.pure]

theorem mem_inOrder {sensors : Registered} {p : List Byte × Onewire} :
    p ∈ inOrder sensors ↔ p ∈ sensors := List.mem_mergeSort

theorem onewireHandler_eq (hm : m.mounted = true) {pollSleep : Int} (hs : 0 < pollSleep)
    (rounds : List Round) :
    onewireHandler R m pollSleep rounds =
      sweep (fun round => sweep (fun p => outcome (visit R m round p)) (inOrder m.sensors))
        rounds := by
  have hmounted : ¬ m.mounted = false := by rw [hm]; decide
  rw [onewireHandler, if_neg hmounted, if_neg (Int.not_le.mpr hs)]
  rfl

/-- The thread lives on as long as every reading is good. -/
theorem onewireHandler_none_iff (hm : m.mounted = true) {pollSleep : Int} (hs : 0 < pollSleep)
    (rounds : List Round) :
    (onewireHandler R m pollSleep rounds).2 = none ↔
      ∀ round ∈ rounds, ∀ p ∈ m.sensors, Readable R m round.fs p := by
  rw [onewireHandler_eq hm hs, rounds_none_iff]
  apply forall₂_congr
  intro round _
  constructor
  · intro h p hp
    exact (visit_none_iff round p).mp (h p (mem_inOrder.mpr hp))
  · intro h p hp
    exact (visit_none_iff round p).mpr (h p (mem_inOrder.mp hp))

/-- Then there is what every sensor says in every round. -/
theorem onewireHandler_all {pollSleep : Int} {rounds : List Round} (hm : m.mounted = true)
    (hs : 0 < pollSleep) (h : (onewireHandler R m pollSleep rounds).2 = none) :
    (onewireHandler R m pollSleep rounds).1 = rounds.flatMap fun round =>
      (inOrder m.sensors).flatMap fun p => (outcome (visit R m round p)).1 := by
  rw [onewireHandler_eq hm hs] at h ⊢
  exact rounds_all (rounds_none_iff.mp h)

end

/-! ## The bus of the kernel -/

/-- A device as the kernel lists it: a family in two digits and the id. -/
structure BusDevice where
  family : List Byte
  id : SensorId
  family_length : family.length = 2

def BusDevice.name (d : BusDevice) : List Byte := d.family ++ bytes "-" ++ d.id.digits

def BusDevice.path (d : BusDevice) : List Byte := entryPath w1Root d.name

def BusDevice.sensor (d : BusDevice) : Onewire :=
  ⟨d.family, d.id.digits, [], d.name, familyType d.family, some true⟩

def BusDevice.entry (d : BusDevice) : List Byte × Onewire := (d.path, d.sensor)

theorem w1Sensor_name (d : BusDevice) : w1Sensor d.name = .ok d.sensor := by
  have hlen := d.family_length
  have htake : d.name.take 2 = d.family := by
    rw [BusDevice.name, List.append_assoc, ← hlen, List.take_left]
  have hdrop : d.name.drop 3 = d.id.digits := by
    have hfront : (d.family ++ bytes "-").length = 3 := by
      rw [List.length_append, hlen]
      rfl
    rw [BusDevice.name, ← hfront, List.drop_left]
  have hlong : ¬ d.name.length < 3 := by
    rw [BusDevice.name]
    simp only [List.length_append, hlen, show (bytes "-").length = 1 from rfl]
    omega
  rw [w1Sensor, if_neg hlong, htake, hdrop]
  rfl

/-- The directory lists these devices, and besides them what is no device. -/
structure Lists (names : List (List Byte)) (bus : List BusDevice) : Prop where
  names_eq : names.filter w1Name = bus.map BusDevice.name
  nodup : (bus.map BusDevice.name).Nodup

theorem path_inj {d e : BusDevice} (h : d.path = e.path) : d.name = e.name :=
  List.append_cancel_left h

theorem scanW1_bus {names : List (List Byte)} {bus : List BusDevice} (hlists : names.filter w1Name =
    bus.map BusDevice.name) (hnodup : (bus.map BusDevice.name).Nodup) (mounted : Bool)
    (sensors : Registered) (hnew : ∀ d ∈ bus, ∀ p ∈ sensors, p.1 ≠ d.path) :
    scanW1 names mounted sensors =
      .ok (mounted || !bus.isEmpty, sensors ++ bus.map BusDevice.entry) := by
  induction names generalizing mounted sensors bus with
  | nil =>
    have hbus : bus = [] := by simpa using hlists.symm
    rw [hbus, scanW1]
    simp
  | cons name names ih =>
    by_cases hw : w1Name name = true
    · rw [List.filter_cons_of_pos hw] at hlists
      cases bus with
      | nil => exact absurd hlists (by simp)
      | cons d bus =>
        obtain ⟨hname, hrest⟩ := List.cons.inj hlists
        obtain ⟨hd, hnodup⟩ := List.nodup_cons.mp hnodup
        have hfresh : assign sensors (entryPath w1Root name) d.sensor =
            sensors ++ [d.entry] := by
          have hfilter : sensors.filter (fun a => a.1 != entryPath w1Root name) = sensors := by
            rw [List.filter_eq_self]
            intro p hp
            rw [hname, bne_iff_ne]
            exact hnew d List.mem_cons_self p hp
          rw [assign, hfilter, hname]
          rfl
        have hothers : ∀ e ∈ bus, ∀ p ∈ sensors ++ [d.entry], p.1 ≠ e.path := by
          intro e he p hp
          rcases List.mem_append.mp hp with hp | hp
          · exact hnew e (List.mem_cons_of_mem d he) p hp
          · rw [List.mem_singleton.mp hp]
            intro hpath
            exact hd (path_inj hpath ▸ List.mem_map_of_mem he)
        rw [scanW1, if_pos hw, show w1Sensor name = .ok d.sensor from hname ▸ w1Sensor_name d]
        simp only [bind, Except.bind, hfresh]
        rw [ih hrest hnodup true _ hothers, List.map_cons, List.append_assoc]
        simp
    · rw [List.filter_cons_of_neg hw] at hlists
      rw [scanW1, if_neg hw]
      exact ih hlists hnodup mounted sensors hnew

/-- The object that the constructor makes of the devices. -/
def busMount (bus : List BusDevice) : Mount := ⟨!bus.isEmpty, w1Root, bus.map BusDevice.entry, 70⟩

theorem construct_bus {fs : FileSystem} {names : List (List Byte)} {bus : List BusDevice}
    (hroot : fs.directory owfsRoot = .absent) (hbus : fs.directory w1Root = .listing names)
    (hl : Lists names bus) : construct fs = .ok (busMount bus) := by
  have hscan := scanW1_bus hl.names_eq hl.nodup false [] fun d _ p hp => absurd hp List.not_mem_nil
  rw [construct, hroot]
  dsimp only [List.length_nil]
  rw [if_pos rfl, hbus]
  simp only [bind, Except.bind, hscan, List.nil_append, Bool.false_or]
  rfl

/-- Where the kernel puts the readings of a device. -/
def BusDevice.slave (d : BusDevice) : List Byte := d.path ++ bytes "/" ++ bytes "w1_slave"

def BusDevice.Thermometer (d : BusDevice) : Prop := familyType d.family = .temperature

def BusDevice.Battery (d : BusDevice) : Prop := familyType d.family = .battery

instance (d : BusDevice) : Decidable d.Thermometer := inferInstanceAs (Decidable (_ = _))

/-- Of a thermometer there is the kernel's text or no file, and of the files of owfs none. -/
structure KernelFiles (bus : List BusDevice) (fs : FileSystem) : Prop where
  slave : ∀ d ∈ bus, d.Thermometer →
    fs.file d.slave = none ∨ ∃ t : W1Slave, fs.file d.slave = some t.text
  current : ∀ d ∈ bus, fs.file (d.path ++ bytes "/" ++ bytes "current") = none

/-- A float can be read behind the 69th character, whatever the verdict. -/
def Legible (t : W1Slave) : Prop :=
  if t.yes then t.magnitude < Lib.Binary32.limit
  else t.left ≠ [] ∧ digitsFrom 10 0 t.left < Lib.Binary32.limit

section
variable {R : Thermometer CFloat} {bus : List BusDevice} {d : BusDevice}

theorem lookup_bus (hnodup : (bus.map BusDevice.name).Nodup) (hd : d ∈ bus) :
    (bus.map BusDevice.entry).lookup d.path = some d.sensor := by
  have hpaths : ((bus.map BusDevice.entry).map Prod.fst).Nodup := by
    have hmap : (bus.map BusDevice.entry).map Prod.fst =
        (bus.map BusDevice.name).map (entryPath w1Root) := by
      rw [List.map_map, List.map_map]
      rfl
    rw [hmap]
    exact hnodup.map fun _ _ h => List.append_cancel_left h
  exact (lookup_eq_some_iff (functional_of_nodup hpaths)).mpr (List.mem_map_of_mem hd)

theorem value_bus (hd : d ∈ bus) (fs : FileSystem) (file result : List Byte) :
    (busMount bus).value fs d.path file result =
      (fs.file (d.path ++ bytes "/" ++ file)).getD [] := by
  have hmounted : (busMount bus).mounted = true := by
    obtain ⟨e, es, rfl⟩ := List.exists_cons_of_ne_nil (List.ne_nil_of_mem hd)
    rfl
  have hpath : d.path ≠ [] := by simp [BusDevice.path, entryPath, w1Root, bytes]
  simp [Mount.value, getValue, hmounted, hpath]

/-- The record of a thermometer, from its file. -/
theorem getTemperature_bus (hnodup : (bus.map BusDevice.name).Nodup) (hd : d ∈ bus)
    (fs : FileSystem) :
    getTemperature R fs (busMount bus) d.path =
      (busValue R.toFloatReader ((fs.file d.slave).getD [])).map fun x =>
        ⟨byteReversed d.id.upper, R.convertScale (R.thousandth x), 0, 0, 70⟩ := by
  have hlookup : (busMount bus).sensors.lookup d.path = some d.sensor := lookup_bus hnodup hd
  have hid : temperatureId d.sensor.id = some (byteReversed d.id.upper) := temperatureId_eq d.id
  have htrue : d.sensor.bus = some true := rfl
  have hscale : (busMount bus).scale = 70 := rfl
  simp only [getTemperature, hlookup, hid, if_pos htrue, value_bus hd, busTemperature_eq, hscale,
    if_true]
  rw [BusDevice.slave]
  cases busValue R.toFloatReader ((fs.file (d.path ++ bytes "/" ++ bytes "w1_slave")).getD []) <;>
    rfl

/-- There is no `current` to read as a number. -/
theorem getBattery_bus (hnodup : (bus.map BusDevice.name).Nodup) (hd : d ∈ bus) (hb : d.Battery)
    {fs : FileSystem} (hk : KernelFiles bus fs) :
    getBattery R fs (busMount bus) d.path = .error .badNumber := by
  have hlookup : (busMount bus).sensors.lookup d.path = some d.sensor := lookup_bus hnodup hd
  have htype : d.sensor.type = .battery := hb
  simp only [getBattery, hlookup, if_pos htype, value_bus hd, hk.current d hd, Option.getD_none,
    R.stof_nil]

theorem busValue_ok_iff (t : W1Slave) :
    (∃ x, busValue floatReader t.text = .ok x) ↔ Legible t := by
  unfold Legible
  by_cases hyes : t.yes = true
  · rw [busValue_good hyes, if_pos hyes]
    split
    · next h => exact iff_of_true ⟨_, rfl⟩ h
    · next h => exact iff_of_false (by simp) h
  · rw [busValue_bad (by simpa using hyes), if_neg hyes]
    split
    · next h => exact iff_of_true ⟨_, rfl⟩ h
    · next h => exact iff_of_false (by simp) h

/-- A missing file is too short. -/
theorem busValue_nil (R : FloatReader CFloat) : busValue R [] = .error .outOfRange :=
  if_pos (by decide)

theorem readable_bus (hR : R.toFloatReader = floatReader)
    (hnodup : (bus.map BusDevice.name).Nodup) (hd : d ∈ bus) {fs : FileSystem}
    (hk : KernelFiles bus fs) :
    Readable R (busMount bus) fs d.entry ↔ ¬ d.Battery ∧
      (d.Thermometer → ∃ t : W1Slave, fs.file d.slave = some t.text ∧ Legible t) := by
  have hbattery : (d.Battery → ∃ batt, getBattery R fs (busMount bus) d.path = .ok batt) ↔
      ¬ d.Battery := by
    constructor
    · intro h hb
      obtain ⟨batt, hok⟩ := h hb
      rw [getBattery_bus hnodup hd hb hk] at hok
      exact nomatch hok
    · exact fun h hb => absurd hb h
  have hthermometer : (d.Thermometer → ∃ temp,
      getTemperature R fs (busMount bus) d.path = .ok temp) ↔
      (d.Thermometer → ∃ t : W1Slave, fs.file d.slave = some t.text ∧ Legible t) := by
    apply imp_congr_right
    intro ht
    rw [getTemperature_bus hnodup hd, hR]
    rcases hk.slave d hd ht with hnone | ⟨t, htext⟩
    · rw [hnone, Option.getD_none, busValue_nil]
      exact iff_of_false (by simp [Except.map]) (by simp)
    · rw [htext, Option.getD_some]
      have hlegible := busValue_ok_iff t
      constructor
      · rintro ⟨temp, hok⟩
        refine ⟨t, rfl, hlegible.mp ?_⟩
        cases hv : busValue floatReader t.text with
        | error e => rw [hv] at hok; exact nomatch hok
        | ok x => exact ⟨x, rfl⟩
      · rintro ⟨t', ht', hl⟩
        have htexts : t.text = t'.text := Option.some.inj ht'
        rw [htexts]
        obtain ⟨x, hx⟩ := (busValue_ok_iff t').mpr hl
        exact ⟨_, by rw [hx]; rfl⟩
  have hentry : Readable R (busMount bus) fs d.entry ↔
      (d.Thermometer → ∃ temp, getTemperature R fs (busMount bus) d.path = .ok temp) ∧
        (d.Battery → ∃ batt, getBattery R fs (busMount bus) d.path = .ok batt) := Iff.rfl
  rw [hentry, hthermometer, hbattery, and_comm]

end

/-! ## Whole runs -/

/-- The devices in the order of their paths. -/
def byPath (bus : List BusDevice) : List BusDevice :=
  bus.mergeSort fun a b => decide (a.path ≤ b.path)

theorem inOrder_bus (bus : List BusDevice) :
    inOrder (bus.map BusDevice.entry) = (byPath bus).map BusDevice.entry := by
  rw [inOrder, byPath, List.map_mergeSort]
  exact fun _ _ _ _ => rfl

/-- The temperature that a file is taken to say. -/
def measured (R : Thermometer CFloat) (fs : FileSystem) (d : BusDevice) : CFloat :=
  match busValue R.toFloatReader ((fs.file d.slave).getD []) with
  | .ok x => R.convertScale (R.thousandth x)
  | .error _ => 0

/-- What a round writes of a device. -/
def report (R : Thermometer CFloat) (round : Round) (d : BusDevice) : List (List Byte) :=
  if d.Thermometer then
    [queryInsert (formatTemperature (round.now d.path)
      ⟨byteReversed d.id.upper, measured R round.fs d, 0, 0, 70⟩) (bytes "weather")]
  else []

theorem visit_bus {R : Thermometer CFloat} {bus : List BusDevice}
    (hnodup : (bus.map BusDevice.name).Nodup) {d : BusDevice} (hd : d ∈ bus) (round : Round)
    (hr : Readable R (busMount bus) round.fs d.entry) (hb : ¬ d.Battery) :
    (outcome (visit R (busMount bus) round d.entry)).1 = report R round d := by
  have hentry : d.entry.1 = d.path := rfl
  unfold outcome visit report
  by_cases ht : d.Thermometer
  · have htype : d.entry.2.type = .temperature := ht
    obtain ⟨temp, hok⟩ := hr.1 htype
    rw [hentry] at hok
    rw [if_pos htype, if_pos ht, hentry, hok]
    rw [getTemperature_bus hnodup hd] at hok
    cases hv : busValue R.toFloatReader ((round.fs.file d.slave).getD []) with
    | error e =>
      rw [hv] at hok
      exact nomatch hok
    | ok x =>
      rw [hv] at hok
      rw [← Except.ok.inj hok, measured, hv]
      rfl
  · have htype : ¬ d.entry.2.type = .temperature := ht
    have htype' : ¬ d.entry.2.type = .battery := hb
    rw [if_neg htype, if_neg htype', if_neg ht]
    rfl

/-- A daemon that finds the kernel's bus lives on if and only if there is no battery monitor on it
and in every round every thermometer has a file with a number behind the 69th character. Until
then it hands one row to `queryInsert` for each thermometer and round, in the order of the
paths. -/
theorem polling_survives_iff (R : Thermometer CFloat) (hR : R.toFloatReader = floatReader)
    {fs : FileSystem} {names : List (List Byte)} {bus : List BusDevice}
    (hroot : fs.directory owfsRoot = .absent) (hbus : fs.directory w1Root = .listing names)
    (hl : Lists names bus) (hne : bus ≠ []) {pollSleep : Int} (hs : 0 < pollSleep)
    {rounds : List Round} (hk : ∀ round ∈ rounds, KernelFiles bus round.fs) :
    ∃ m, construct fs = .ok m ∧
      ((onewireHandler R m pollSleep rounds).2 = none ↔
        ∀ round ∈ rounds, ∀ d ∈ bus, ¬ d.Battery ∧
          (d.Thermometer → ∃ t : W1Slave, round.fs.file d.slave = some t.text ∧ Legible t)) ∧
      ((onewireHandler R m pollSleep rounds).2 = none →
        (onewireHandler R m pollSleep rounds).1 =
          rounds.flatMap fun round => (byPath bus).flatMap (report R round)) := by
  have hmounted : (busMount bus).mounted = true := by
    obtain ⟨d, ds, rfl⟩ := List.exists_cons_of_ne_nil hne
    rfl
  have hsurvives := onewireHandler_none_iff (R := R) hmounted hs rounds
  have hsensors : (busMount bus).sensors = bus.map BusDevice.entry := rfl
  rw [hsensors] at hsurvives
  have hreadable : ∀ round ∈ rounds, ∀ d ∈ bus, (Readable R (busMount bus) round.fs d.entry ↔
      ¬ d.Battery ∧
        (d.Thermometer → ∃ t : W1Slave, round.fs.file d.slave = some t.text ∧ Legible t)) :=
    fun round hround d hd => readable_bus hR hl.nodup hd (hk round hround)
  refine ⟨busMount bus, construct_bus hroot hbus hl, ?_, ?_⟩
  · rw [hsurvives]
    apply forall₂_congr
    intro round hround
    rw [List.forall_mem_map]
    apply forall₂_congr
    intro d hd
    exact hreadable round hround d hd
  · intro hnone
    have hall := hsurvives.mp hnone
    rw [onewireHandler_all hmounted hs hnone, List.flatMap_def, List.flatMap_def]
    congr 1
    apply List.map_congr_left
    intro round hround
    rw [hsensors, inOrder_bus, List.flatMap_map, List.flatMap_def, List.flatMap_def]
    congr 1
    apply List.map_congr_left
    intro d hd
    have hd : d ∈ bus := List.mem_mergeSort.mp hd
    have hr := hall round hround d.entry (List.mem_map_of_mem hd)
    exact visit_bus hl.nodup hd round hr ((hreadable round hround d hd).mp hr).1

/-! ## A thermometer that comes off -/

/-- A function of the numbers, without rounding. -/
def exactly (f : Rat → Rat) (x : CFloat) : CFloat :=
  match x.number with
  | some q => .finite (decide (f q < 0)) |f q| (abs_nonneg (f q))
  | none => x

def exactThermometer : Thermometer CFloat :=
  ⟨floatReader, exactly fun q => q / 1000, exactly fun q => q * (9 / 5) + 32⟩

theorem shedId_hex : ∀ b ∈ bytes "0213162d84ff", digitValue b < 16 := by decide +kernel

def shedThermometer : BusDevice := ⟨bytes "28", ⟨bytes "0213162d84ff", rfl, shedId_hex⟩, rfl⟩

/-- The bus with the thermometer and what its file holds. -/
def shedFiles (slave : Option (List Byte)) : FileSystem where
  directory path :=
    if path = w1Root then .listing [shedThermometer.name, bytes "w1_bus_master1"] else .absent
  file path := if path = shedThermometer.slave then slave else none

/-- In the first round the thermometer has a bad reading, in the second it is gone. -/
def shedRounds : List Round :=
  [⟨shedFiles (some disconnected.text), fun _ => morning⟩, ⟨shedFiles none, fun _ => morning⟩]

theorem shedFiles_kernel {slave : Option (List Byte)}
    (h : slave = none ∨ ∃ t : W1Slave, slave = some t.text) :
    KernelFiles [shedThermometer] (shedFiles slave) := by
  have hslave : (shedFiles slave).file shedThermometer.slave = slave := by simp [shedFiles]
  refine ⟨?_, ?_⟩
  · intro d hd _
    rw [List.mem_singleton.mp hd, hslave]
    exact h
  · intro d hd
    have hother : shedThermometer.path ++ bytes "/" ++ bytes "current" ≠
        shedThermometer.slave := by decide
    rw [List.mem_singleton.mp hd]
    simp only [shedFiles, if_neg hother]

theorem shed_dies :
    ∃ m, construct (shedFiles none) = .ok m ∧
      (onewireHandler exactThermometer m 300 shedRounds).2 ≠ none := by
  have hroot : (shedFiles none).directory owfsRoot = .absent := by
    have hother : owfsRoot ≠ w1Root := by decide
    simp [shedFiles, hother]
  have hbus : (shedFiles none).directory w1Root =
      .listing [shedThermometer.name, bytes "w1_bus_master1"] := by
    simp [shedFiles]
  have hlists : Lists [shedThermometer.name, bytes "w1_bus_master1"] [shedThermometer] :=
    ⟨by decide, List.nodup_singleton _⟩
  have hkernel : ∀ round ∈ shedRounds, KernelFiles [shedThermometer] round.fs := by
    intro round hround
    simp only [shedRounds, List.mem_cons, List.not_mem_nil, or_false] at hround
    rcases hround with rfl | rfl
    · exact shedFiles_kernel (Or.inr ⟨disconnected, rfl⟩)
    · exact shedFiles_kernel (Or.inl rfl)
  obtain ⟨m, hm, hsurvives, -⟩ := polling_survives_iff exactThermometer rfl hroot hbus hlists
    (by simp) (show (0 : Int) < 300 by decide) hkernel
  refine ⟨m, hm, ?_⟩
  intro hnone
  have hgone := (hsurvives.mp hnone) ⟨shedFiles none, fun _ => morning⟩ (by simp [shedRounds])
    shedThermometer (List.mem_singleton_self _)
  obtain ⟨t, ht, -⟩ := hgone.2 (by decide)
  exact absurd ht (by simp [shedFiles])

end PowerGuru.Daemon.Polling
