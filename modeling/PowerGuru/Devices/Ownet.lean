import PowerGuru.Devices.Sensors

/-!
# `Ownet`

Sensors behind an owserver. All values of one sensor are read through the same string.
-/
namespace PowerGuru.Devices.Ownet

open Lib.Bytes Lib.AssocMap Sensors

/-- The owcapi library: whether an `OW_init` succeeds, and the string that an `OW_get` of a
positive length leaves. -/
structure Server where
  init : Nat → List Byte → Bool
  get : List Byte → Option (List Byte)

/-- A failed `OW_get` leaves the result as it was. -/
def getValue (S : Server) (device file result : List Byte) : List Byte :=
  (S.get (device ++ file)).getD result

def scaleFile : List Byte := bytes "/settings/units/temperature_scale"

section
variable {F : Type} (R : FloatReader F) (S : Server)

/-- Three numbers through one string. -/
def readTemperatures (device result : List Byte) : Option (F × F × F) := do
  let result := getValue S device (bytes "temperature") result
  let temp ← R.stof result
  let result := getValue S device (bytes "templow") result
  let lowtemp ← R.stof result
  let result := getValue S device (bytes "temphigh") result
  let hightemp ← R.stof result
  return (temp, lowtemp, hightemp)

/-- Two numbers through one string. -/
def readPair (device first second result : List Byte) : Option (F × F) := do
  let result := getValue S device first result
  let x ← R.stof result
  let result := getValue S device second result
  let y ← R.stof result
  return (x, y)

def getBattery (sensors : Registered) (device : List Byte) :
    Except Thrown (Option (Battery F)) :=
  match sensors.lookup device with
  | none => .error .nullSensor
  | some sensor =>
      if sensor.type = .battery then
        match readPair R S device (bytes "current") (bytes "volts") [] with
        | none => .error .badNumber
        | some (current, volts) => .ok (some ⟨sensor.id, current, volts, true⟩)
      else .ok none

variable [Zero F]

/-- The scale is read through `buffer` whether or not `OW_get` has set it. -/
def getTemperature (sensors : Registered) (device : List Byte) :
    Except Thrown (Option (Temperature F)) :=
  match sensors.lookup device with
  | none => .error .nullSensor
  | some sensor =>
      if sensor.type = .temperature then
        let (temp, lowtemp, hightemp) := (readTemperatures R S device []).getD (0, 0, 0)
        match S.get scaleFile with
        | none => .error .wildPointer
        | some buffer => .ok (some ⟨sensor.id, temp, lowtemp, hightemp, buffer.headD NUL⟩)
      else .ok none

/-! ## The constructor -/

/-- The constructor reads the numbers of a thermometer once more, into a record that it
then drops. -/
def refillTemperature (device result id : List Byte) (temp : Temperature F) : Temperature F :=
  let (t, lowtemp, hightemp) := (readTemperatures R S device result).getD (0, 0, 0)
  { temp with id := id, temp := t, lowtemp := lowtemp, hightemp := hightemp }

def refillBattery (device result id : List Byte) (power : Battery F) : Battery F :=
  match readPair R S device (bytes "volts") (bytes "current") result with
  | some (volts, current) => { id := id, volts := volts, current := current, dc := true }
  | none => { power with id := id, volts := 0, current := 0 }

/-- The record of an entry, if it has a family. -/
def sensorOf (entry : List Byte) : Option Onewire :=
  let family := getValue S entry (bytes "family") []
  if family = [] then none
  else
    let id := getValue S entry (bytes "id") family
    let aliasName := getValue S entry (bytes "alias") id
    some ⟨family, id, aliasName, family ++ bytes "." ++ id, familyType family, none⟩

/-- What a new sensor is asked for. The string still holds its alias. -/
def interrogate (sensors : Registered) (device : List Byte) (data : Onewire) :
    Except Thrown Unit :=
  match data.type with
  | .temperature => do
      let temp ← getTemperature R S sensors device
      let _temp := temp.map (refillTemperature R S device data.aliasName data.id)
      return ()
  | .battery => do
      let power ← getBattery R S sensors device
      let _power := power.map (refillBattery R S device data.aliasName data.id)
      return ()
  | _ => return ()

def register : List (List Byte) → Registered → Except Thrown Registered
  | [], sensors => .ok sensors
  | entry :: entries, sensors =>
      match sensorOf S entry with
      | none => register entries sensors
      | some data => do
          interrogate R S (assign sensors entry data) entry data
          register entries (assign sensors entry data)

/-- `while (retries-- > 0)`: whether there is a connection, and what is left of `retries`. -/
def connect (argv : List Byte) : Nat → Nat → Bool × Int
  | 0, _ => (false, -1)
  | retries + 1, i => if S.init i argv then (true, retries) else connect argv retries (i + 1)

/-- The root directory, split at its commas. -/
def rootEntries : List (List Byte) :=
  match S.get (bytes "/") with
  | none => []
  | some buf => buf.splitOn comma

def argument (host : List Byte) : List Byte :=
  bytes "-s " ++ if (58 : Byte) ∈ host then host else host ++ bytes ":4304"

/-- Whether the object is connected, and the sensors it has registered. -/
def construct (host : List Byte) : Except Thrown (Bool × Registered) :=
  match connect S (argument host) 3 0 with
  | (owserver, retries) =>
      if retries ≤ 0 then .ok (owserver, [])
      else do
        let sensors ← register R S (rootEntries S) []
        return (owserver, sensors)

end

end PowerGuru.Devices.Ownet
