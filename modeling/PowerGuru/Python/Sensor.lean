import PowerGuru.Lib.AssocMap
import PowerGuru.Lib.PyRepr

/-!
# `sensor.py`: sensors and their table

`MakeSQL` looks the names of the enumerations up in tuples, with the members themselves as
indices, and the loop of `Sensors.__init__` takes the device as the text it is in the table.
-/
namespace PowerGuru.Python.Sensor

open Lib.AssocMap Lib.PyRepr

/-! ## Values -/

inductive SensorType where
  | unknown
  | acvoltage
  | dcvoltage
  | auth
  | battery
  | power
  | clock
  | temperature
  | humidity
  | unsupported
  deriving DecidableEq, Repr

inductive DeviceType where
  | unknown
  | onewire
  | ownet
  | rtl433
  | rtlsdr
  | usb
  | serial
  | gpio
  deriving DecidableEq, Repr

def SensorType.name : SensorType → Text
  | .unknown => "UNKNOWN".toList
  | .acvoltage => "ACVOLTAGE".toList
  | .dcvoltage => "DCVOLTAGE".toList
  | .auth => "AUTH".toList
  | .battery => "BATTERY".toList
  | .power => "POWER".toList
  | .clock => "CLOCK".toList
  | .temperature => "TEMPERATURE".toList
  | .humidity => "HUMIDITY".toList
  | .unsupported => "UNSUPPORTED".toList

def SensorType.value : SensorType → Nat
  | .unknown => 0
  | .acvoltage => 1
  | .dcvoltage => 2
  | .auth => 3
  | .battery => 4
  | .power => 5
  | .clock => 6
  | .temperature => 7
  | .humidity => 8
  | .unsupported => 9

def DeviceType.name : DeviceType → Text
  | .unknown => "UNKNOWN".toList
  | .onewire => "ONEWIRE".toList
  | .ownet => "OWNET".toList
  | .rtl433 => "RTL433".toList
  | .rtlsdr => "RTLSDR".toList
  | .usb => "USB".toList
  | .serial => "SERIAL".toList
  | .gpio => "GPIO".toList

def DeviceType.value : DeviceType → Nat
  | .unknown => 0
  | .onewire => 1
  | .ownet => 2
  | .rtl433 => 3
  | .rtlsdr => 4
  | .usb => 5
  | .serial => 6
  | .gpio => 7

def sensorStrings : List Text :=
  ["UNKNOWN".toList, "ACVOLTAGE".toList, "DCVOLTAGE".toList, "AUTH".toList, "BATTERY".toList,
    "POWER".toList, "CLOCK".toList, "TEMPERATURE".toList, "HUMIDITY".toList,
    "UNSUPPORTED".toList]

def deviceStrings : List Text :=
  ["UNNOWN".toList, "ONEWIRE".toList, "OWNET".toList, "RTL433".toList, "RTLSDR".toList,
    "USB".toList, "SERIAL".toList, "GPIO".toList]

/-- The objects that a field of a sensor holds. -/
inductive PyObj where
  | none
  | str (s : Text)
  | int (n : Int)
  | deviceType (d : DeviceType)
  | sensorType (s : SensorType)
  deriving DecidableEq

/-- `t[x]`. A member of a plain `Enum` is no index. -/
def index (t : List Text) : PyObj → Option Text
  | .int n =>
      if 0 ≤ n then t[n.toNat]?
      else if -t.length ≤ n then t[(n + t.length).toNat]?
      else none
  | _ => none

/-- `%r`. -/
def PyObj.repr (printable : Char → Bool) : PyObj → Text
  | .none => "None".toList
  | .str s => pyRepr printable s
  | .int n => (toString n).toList
  | .deviceType d =>
      "<DeviceType.".toList ++ d.name ++ ": ".toList ++ (toString d.value).toList ++ ">".toList
  | .sensorType s =>
      "<SensorType.".toList ++ s.name ++ ": ".toList ++ (toString s.value).toList ++ ">".toList

/-! ## `SensorDevice` -/

/-- The dictionary that `SensorDevice.__init__` reads; any key may be missing. -/
structure Data where
  id : Option PyObj
  aliasName : Option PyObj
  location : Option PyObj
  device : Option PyObj
  sensor : Option PyObj
  channel : Option PyObj

structure SensorDevice where
  id : PyObj
  aliasName : PyObj
  location : PyObj
  device : PyObj
  sensor : PyObj
  channel : PyObj
  deriving DecidableEq

def SensorDevice.init (data : Data) : SensorDevice where
  id := data.id.getD .none
  aliasName := data.aliasName.getD .none
  location := data.location.getD .none
  device := data.device.getD (.deviceType .unknown)
  sensor := data.sensor.getD (.sensorType .unknown)
  channel := data.channel.getD .none

/-- `None` becomes an empty text. -/
def PyObj.orEmpty : PyObj → PyObj
  | .none => .str []
  | x => x

def insertText (printable : Char → Bool) (values : List PyObj) : Text :=
  "INSERT INTO sensors VALUES (".toList ++
    ", ".toList.intercalate (values.map (PyObj.repr printable)) ++
    ") ON CONFLICT DO NOTHING;".toList

/-- `MakeSQL`. The `except` is for any exception. -/
def SensorDevice.makeSQL (printable : Char → Bool) (s : SensorDevice) : Option Text :=
  match index deviceStrings s.device, index sensorStrings s.sensor with
  | some device, some sense =>
      some (insertText printable [s.id.orEmpty, s.aliasName.orEmpty, s.location.orEmpty,
        .str device, .str sense, s.channel.orEmpty])
  | _, _ => none

/-! ## The table -/

/-- `device_type`. -/
inductive DeviceColumn where
  | unknown
  | onewire
  | ownet
  | rtl433
  | rtlsdr
  | usb
  | serial
  | gpio
  deriving DecidableEq, Repr

/-- `sensor_type`. -/
inductive SensorColumn where
  | unknown
  | acvoltage
  | dcvoltage
  | auth
  | battery
  | power
  | clock
  | temperature
  | moisture
  | unsupported
  deriving DecidableEq, Repr

/-- `channel_type`. -/
inductive ChannelType where
  | blank
  | a
  | b
  | c
  | x
  deriving DecidableEq, Repr

def DeviceColumn.label : DeviceColumn → Text
  | .unknown => "UNKNOWN".toList
  | .onewire => "ONEWIRE".toList
  | .ownet => "OWNET".toList
  | .rtl433 => "RTL433".toList
  | .rtlsdr => "RTLSDR".toList
  | .usb => "USB".toList
  | .serial => "SERIAL".toList
  | .gpio => "GPIO".toList

def SensorColumn.label : SensorColumn → Text
  | .unknown => "UNKNOWN".toList
  | .acvoltage => "ACVOLTAGE".toList
  | .dcvoltage => "DCVOLTAGE".toList
  | .auth => "AUTH".toList
  | .battery => "BATTERY".toList
  | .power => "POWER".toList
  | .clock => "CLOCK".toList
  | .temperature => "TEMPERATURE".toList
  | .moisture => "MOISTURE".toList
  | .unsupported => "UNSUPPORTED".toList

def ChannelType.label : ChannelType → Text
  | .blank => []
  | .a => ['A']
  | .b => ['B']
  | .c => ['C']
  | .x => ['X']

/-- A row of `sensors`. -/
structure Row where
  id : Text
  aliasName : Text
  location : Text
  device : DeviceColumn
  sensor : SensorColumn
  channel : ChannelType
  id_fits : id.length ≤ 12 := by decide
  alias_fits : aliasName.length ≤ 24 := by decide
  location_fits : location.length ≤ 24 := by decide

/-- A row as the cursor returns it; a NULL would be `None`. -/
structure Fetched where
  id : Option Text
  aliasName : Option Text
  location : Option Text
  device : Option Text
  sense : Option Text
  channel : Option Text

/-- No column of the table is NULL. -/
def Row.fetched (r : Row) : Fetched where
  id := some r.id
  aliasName := some r.aliasName
  location := some r.location
  device := some r.device.label
  sense := some r.sensor.label
  channel := some r.channel.label

/-- The names are tried one after the other. -/
def senseOf (sense : Text) : Option SensorType :=
  [SensorType.temperature, .unknown, .power, .battery, .auth, .clock, .unsupported, .humidity,
    .acvoltage, .dcvoltage].find? fun t => sense == t.name

def Fetched.data (f : Fetched) : Data where
  id := f.id.map .str
  aliasName := f.aliasName.map .str
  location := f.location.map .str
  device := f.device.map .str
  sensor := (f.sense.bind senseOf).map .sensorType
  channel := f.channel.map .str

/-! ## `Sensors` -/

inductive Raised where
  | typeError
  | database

/-- What the server does with a query. -/
abbrev Server := Text → List Row → Option Raised × List Row

/-- `Postgresql.query`. The text for the log is put together first, and with `None` it cannot
be. -/
def query (server : Server) (q : Option Text) (table : List Row) : Option Raised × List Row :=
  match q with
  | none => (some .typeError, table)
  | some q => server q table

/-- The dictionary of the sensors by their `id`. -/
abbrev Sensors := List (PyObj × SensorDevice)

def Fetched.entry (f : Fetched) : PyObj × SensorDevice :=
  ((f.id.map PyObj.str).getD .none, .init f.data)

/-- `Sensors.__init__`. -/
def Sensors.init (table : List Row) : Sensors := assignAll [] (table.map fun r => r.fetched.entry)

/-- An object with its table, and what `add` raised. -/
structure Added where
  sensors : Sensors
  raised : Option Raised
  table : List Row

def Sensors.add (server : Server) (printable : Char → Bool) (sensors : Sensors) (table : List Row)
    (s : SensorDevice) : Added :=
  let (raised, table) := query server (s.makeSQL printable) table
  { sensors := assign sensors s.id s, raised, table }

def Sensors.get (sensors : Sensors) (id : PyObj) : Option SensorDevice := sensors.lookup id

/-! ## Round trip -/

/-- What the columns of the table have room for. -/
structure Storable where
  id : Text
  aliasName : Text
  location : Text
  device : DeviceType
  sensor : SensorType
  channel : ChannelType
  id_fits : id.length ≤ 12 := by decide
  alias_fits : aliasName.length ≤ 24 := by decide
  location_fits : location.length ≤ 24 := by decide

def Storable.toDevice (s : Storable) : SensorDevice :=
  .init {
    id := some (.str s.id)
    aliasName := some (.str s.aliasName)
    location := some (.str s.location)
    device := some (.deviceType s.device)
    sensor := some (.sensorType s.sensor)
    channel := some (.str s.channel.label) }

/-- The sensor that is found after a restart is the one that was added. -/
def RoundTrips (server : Server) (printable : Char → Bool) (sensors : Sensors) (table : List Row)
    (s : Storable) : Prop :=
  (Sensors.init (sensors.add server printable table s.toDevice).table).get (.str s.id) =
    some s.toDevice

/-- A tuple has no place for a member. -/
theorem makeSQL_member (printable : Char → Bool) {s : SensorDevice} {d : DeviceType}
    (h : s.device = .deviceType d) : s.makeSQL printable = none := by
  rw [SensorDevice.makeSQL, h]
  rfl

/-- Nothing is stored, but the object has the sensor. -/
theorem add_member (server : Server) (printable : Char → Bool) (sensors : Sensors)
    (table : List Row) {s : SensorDevice} {d : DeviceType} (h : s.device = .deviceType d) :
    sensors.add server printable table s = ⟨assign sensors s.id s, some .typeError, table⟩ := by
  rw [Sensors.add, makeSQL_member printable h]
  rfl

/-- A sensor that comes from the table has a text as its device. -/
theorem init_device {table : List Row} {id : PyObj} {s : SensorDevice}
    (h : (Sensors.init table).get id = some s) : ∃ label, s.device = .str label := by
  rcases mem_of_mem_assignAll (mem_of_lookup h) with hnil | hrow
  · exact absurd hnil List.not_mem_nil
  · obtain ⟨r, -, hr⟩ := List.mem_map.mp hrow
    have hs : SensorDevice.init r.fetched.data = s := congrArg Prod.snd hr
    exact ⟨r.device.label, by rw [← hs]; rfl⟩

theorem toDevice_device (s : Storable) : s.toDevice.device = .deviceType s.device := rfl

/-- Whatever the server does and the table holds, nothing is stored, and what is found under the
`id` after a restart is not the sensor. -/
theorem never_stored (server : Server) (printable : Char → Bool) (sensors : Sensors)
    (table : List Row) (s : Storable) :
    (sensors.add server printable table s.toDevice).raised = some .typeError ∧
      (sensors.add server printable table s.toDevice).table = table ∧
      ¬ RoundTrips server printable sensors table s := by
  have hadd := add_member server printable sensors table (toDevice_device s)
  refine ⟨by rw [hadd], by rw [hadd], ?_⟩
  intro h
  obtain ⟨label, hlabel⟩ := init_device h
  rw [toDevice_device] at hlabel
  exact absurd hlabel (by simp)

/-- A thermometer on channel A. -/
def thermometer : Storable where
  id := "28.97C667735".toList
  aliasName := "Solar Panel".toList
  location := "Roof".toList
  device := .onewire
  sensor := .temperature
  channel := .a

/-- A server that would store it. -/
def willing : Server := fun _ table =>
  (none, table ++ [{
    id := "28.97C667735".toList
    aliasName := "Solar Panel".toList
    location := "Roof".toList
    device := .onewire
    sensor := .temperature
    channel := .a }])

theorem thermometer_lost : ¬ RoundTrips willing (fun _ => true) [] [] thermometer := by
  have hlost : (Sensors.init (Sensors.add willing (fun _ => true) [] []
      thermometer.toDevice).table).get (.str thermometer.id) = none := rfl
  rw [RoundTrips, hlost]
  simp

/-! ## The strings and the schema -/

/-- The numbers of the members would give their names, but for one that is misspelt. -/
theorem index_deviceStrings_iff (d : DeviceType) :
    index deviceStrings (.int d.value) = some d.name ↔ d ≠ .unknown := by
  cases d <;> decide

theorem index_sensorStrings (t : SensorType) :
    index sensorStrings (.int t.value) = some t.name := by
  cases t <;> rfl

/-- The schema has moisture where the program has humidity. -/
theorem sensor_label_iff (t : SensorType) : (∃ c : SensorColumn, c.label = t.name) ↔
    t ≠ .humidity := by
  constructor
  · intro h
    obtain ⟨c, hc⟩ := h
    rintro rfl
    cases c <;> exact absurd hc (by decide)
  · intro h
    cases t with
    | unknown => exact ⟨.unknown, rfl⟩
    | acvoltage => exact ⟨.acvoltage, rfl⟩
    | dcvoltage => exact ⟨.dcvoltage, rfl⟩
    | auth => exact ⟨.auth, rfl⟩
    | battery => exact ⟨.battery, rfl⟩
    | power => exact ⟨.power, rfl⟩
    | clock => exact ⟨.clock, rfl⟩
    | temperature => exact ⟨.temperature, rfl⟩
    | humidity => exact absurd rfl h
    | unsupported => exact ⟨.unsupported, rfl⟩

/-- The type of a row is the one its label names, unless the label is none of a type: then it is
`UNKNOWN`. -/
theorem fetched_sensor (r : Row) :
    (SensorDevice.init r.fetched.data).sensor =
      .sensorType ((senseOf r.sensor.label).getD .unknown) := by
  simp only [SensorDevice.init, Fetched.data, Row.fetched, Option.bind_some]
  cases senseOf r.sensor.label <;> rfl

theorem senseOf_name (t : SensorType) : senseOf t.name = some t := by
  cases t <;> rfl

end PowerGuru.Python.Sensor
