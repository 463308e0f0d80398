import PowerGuru.Lib.Strtol
import PowerGuru.Devices.Sensors

/-!
# `Onewire`

Sensors behind a mounted owfs, or in the kernel's own directory of 1-wire devices.
-/
namespace PowerGuru.Devices.Onewire

open Lib.Bytes Lib.AssocMap Lib.Strtol Sensors

/-- What `exists`, `is_directory` and a `directory_iterator` see. -/
inductive Directory where
  | absent
  /-- A `filesystem_error`. -/
  | denied
  | listing (names : List (List Byte))

structure FileSystem where
  directory : List Byte → Directory
  /-- The contents of a file that can be opened. -/
  file : List Byte → Option (List Byte)

/-- A file that cannot be opened reads as empty; nothing is read while `_mounted` is false. -/
def getValue (fs : FileSystem) (mounted : Bool) (rootdir device file result : List Byte) :
    List Byte :=
  if !mounted then result
  else (fs.file ((if device = [] then rootdir else device ++ bytes "/") ++ file)).getD []

/-- A constructed object. -/
structure Mount where
  mounted : Bool
  rootdir : List Byte
  sensors : Registered
  scale : Byte

/-! ## The constructor -/

def owfsRoot : List Byte := bytes "/mnt/1wire"
def w1Root : List Byte := bytes "/sys/bus/w1/devices"

def entryPath (rootdir name : List Byte) : List Byte := rootdir ++ bytes "/" ++ name

/-- `[A-Z0-9.]*`. -/
def owfsName (name : List Byte) : Bool :=
  name.all fun b => (65 ≤ b && b ≤ 90) || (48 ≤ b && b ≤ 57) || b == 46

/-- `[a-z0-9-]*`. -/
def w1Name (name : List Byte) : Bool :=
  name.all fun b => (97 ≤ b && b ≤ 122) || (48 ≤ b && b ≤ 57) || b == 45

/-- The id and the alias are read with paths that are still empty, and both are stored in
the id. -/
def owfsSensor (fs : FileSystem) (mounted : Bool) (path : List Byte) : Option Onewire :=
  let family := getValue fs mounted owfsRoot path (bytes "family") []
  if family = [] then none
  else
    let first := getValue fs mounted owfsRoot [] (bytes "id") family
    let id := getValue fs mounted owfsRoot [] (bytes "alias") first
    some ⟨family, id, [], family ++ bytes "." ++ id, familyType family, some false⟩

def scanOwfs (fs : FileSystem) (mounted : Bool) : List (List Byte) → Registered → Registered
  | [], sensors => sensors
  | name :: names, sensors =>
      if owfsName name then
        match owfsSensor fs mounted (entryPath owfsRoot name) with
        | none => scanOwfs fs mounted names sensors
        | some owire => scanOwfs fs mounted names (assign sensors (entryPath owfsRoot name) owire)
      else scanOwfs fs mounted names sensors

def w1Sensor (device : List Byte) : Except Thrown Onewire :=
  if device.length < 3 then .error .outOfRange
  else .ok ⟨device.take 2, device.drop 3, [], device, familyType (device.take 2), some true⟩

/-- The file `name` is read and not used. -/
def scanW1 : List (List Byte) → Bool → Registered → Except Thrown (Bool × Registered)
  | [], mounted, sensors => .ok (mounted, sensors)
  | name :: names, mounted, sensors =>
      if w1Name name then do
        let owire ← w1Sensor name
        scanW1 names true (assign sensors (entryPath w1Root name) owire)
      else scanW1 names mounted sensors

/-- `_mounted` starts as false. -/
def construct (fs : FileSystem) : Except Thrown Mount :=
  let sensors :=
    match fs.directory owfsRoot with
    | .listing names => scanOwfs fs false names []
    | _ => []
  if sensors.length = 0 then
    match fs.directory w1Root with
    | .listing names => do
        let (mounted, sensors) ← scanW1 names false sensors
        return ⟨mounted, w1Root, sensors, 70⟩
    | .absent => .ok ⟨false, w1Root, sensors, 70⟩
    | .denied => .error .filesystemError
  else .ok ⟨false, owfsRoot, sensors, 70⟩

/-! ## Readings -/

/-- `std::stoll(s, 0, 16)`. -/
def stoll (s : List Byte) (base : Nat) : Option Int :=
  let s := s.dropWhile isSpace
  let digits := if s.head? = some 45 ∨ s.head? = some 43 then s.tail else s
  let x : Int := if s.head? = some 45 then -(magnitude base digits : Int) else magnitude base digits
  if (digits.head?.any fun b => digitValue b < base) ∧ x = clampLong x then some x else none

/-- `boost::endian::endian_reverse` of 64 bits. -/
def endianReverse (x : BitVec 64) : BitVec 64 :=
  x.extractLsb' 0 8 ++ x.extractLsb' 8 8 ++ x.extractLsb' 16 8 ++ x.extractLsb' 24 8 ++
    x.extractLsb' 32 8 ++ x.extractLsb' 40 8 ++ x.extractLsb' 48 8 ++ x.extractLsb' 56 8

/-- `std::hex << std::setw(12) << std::setfill('0')`, in upper case. -/
def hexId (x : BitVec 64) : List Byte :=
  ((Nat.toDigits 16 x.toNat).map fun c => c.toUpper.toNat.toUInt8).leftpad 12 48

/-- The id that is stored with a temperature. -/
def temperatureId (id : List Byte) : Option (List Byte) :=
  (stoll id 16).map fun idnum => hexId (endianReverse (BitVec.ofInt 64 idnum <<< 16))

/-- A thousandth of a number, and `convertScale`. -/
structure Thermometer (F : Type) extends FloatReader F where
  thousandth : F → F
  convertScale : F → F

section
variable {F : Type} [Zero F] (R : Thermometer F) (fs : FileSystem) (m : Mount)

def Mount.value (device file result : List Byte) : List Byte :=
  getValue fs m.mounted m.rootdir device file result

/-- An empty file counts as zero. -/
def numberOf (result : List Byte) : Except Thrown F :=
  if result.length = 0 then .ok 0
  else
    match R.stof result with
    | none => .error .badNumber
    | some x => .ok x

/-- What the kernel's file says, behind its 69th byte. -/
def busTemperature (result : List Byte) : Except Thrown F :=
  if result.length < 69 then .error .outOfRange
  else
    match R.stof (result.drop 69) with
    | none => .error .badNumber
    | some x =>
        .ok (if m.scale = 70 then R.convertScale (R.thousandth x) else R.thousandth x)

def getTemperature (device : List Byte) : Except Thrown (Temperature F) :=
  match m.sensors.lookup device with
  | none => .error .nullSensor
  | some sensor =>
      match temperatureId sensor.id with
      | none => .error .badNumber
      | some id =>
          if sensor.bus = some true then do
            let temp ← busTemperature R m (m.value fs device (bytes "w1_slave") [])
            return ⟨id, temp, 0, 0, m.scale⟩
          else do
            let result := m.value fs device (bytes "temperature") []
            let temp ← numberOf R result
            let result := m.value fs device (bytes "temphigh") result
            let hightemp ← numberOf R result
            let result := m.value fs device (bytes "templow") result
            let lowtemp ← numberOf R result
            let result := m.value fs [] (bytes "/settings/units/temperature_scale") result
            return ⟨id, temp, lowtemp, hightemp, result.headD NUL⟩

def getBattery (device : List Byte) : Except Thrown (Option (Battery F)) :=
  match m.sensors.lookup device with
  | none => .error .nullSensor
  | some sensor =>
      if sensor.type = .battery then
        let id := m.value fs device (bytes "id") []
        let result := m.value fs device (bytes "current") id
        match R.stof result with
        | none => .error .badNumber
        | some current =>
            let result := m.value fs device (bytes "volts") result
            match R.stof result with
            | none => .error .badNumber
            | some volts => .ok (some ⟨id, current, volts, true⟩)
      else .ok none

end

end PowerGuru.Devices.Onewire
