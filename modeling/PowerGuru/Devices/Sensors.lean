import PowerGuru.Lib.AssocMap
import PowerGuru.Lib.Bytes

/-!
# The records of the 1-wire sensors
-/
namespace PowerGuru.Devices.Sensors

open Lib.Bytes

/-- `family_e`. -/
inductive FamilyType where
  | acvoltage
  | dcvoltage
  | auth
  | battery
  | clock
  | temperature
  | thermcouple
  | moisture
  | unsupported
  deriving DecidableEq, Repr

/-- `onewire_t`; `bus` is not set by everyone who makes one. -/
structure Onewire where
  family : List Byte
  id : List Byte
  aliasName : List Byte
  device : List Byte
  type : FamilyType
  bus : Option Bool
  deriving DecidableEq

/-- `temperature_t` over the type of its floats. -/
structure Temperature (F : Type) where
  id : List Byte
  temp : F
  lowtemp : F
  hightemp : F
  scale : Byte
  deriving DecidableEq

/-- `battery_t`. -/
structure Battery (F : Type) where
  id : List Byte
  current : F
  volts : F
  dc : Bool
  deriving DecidableEq

/-- `_sensors`, by the name of the device. -/
abbrev Registered := List (List Byte × Onewire)

/-- What ends a constructor or a reading early. -/
inductive Thrown where
  /-- `std::stof` or `std::stoll`. -/
  | badNumber
  /-- `substr` behind the end of the string. -/
  | outOfRange
  | filesystemError
  /-- A device that is not registered. -/
  | nullSensor
  /-- A `char *` that nobody set. -/
  | wildPointer
  deriving DecidableEq, Repr

/-- `std::stof`, which throws when there is no number to convert. -/
structure FloatReader (F : Type) where
  stof : List Byte → Option F
  stof_nil : stof [] = none

/-- `initTable`. -/
def table : List (String × FamilyType) :=
  [("A2", .acvoltage), ("82", .auth), ("30", .battery), ("32", .battery), ("35", .battery),
   ("2E", .battery), ("3D", .battery), ("31", .battery), ("26", .battery), ("51", .battery),
   ("1B", .battery), ("1E", .battery), ("24", .clock), ("27", .clock), ("36", .unsupported),
   ("1D", .unsupported), ("16", .unsupported), ("B2", .battery), ("04", .unsupported),
   ("7E", .unsupported), ("41", .unsupported), ("81", .unsupported), ("01", .unsupported),
   ("A6", .unsupported), ("06", .unsupported), ("08", .unsupported), ("09", .unsupported),
   ("14", .unsupported), ("23", .unsupported), ("43", .unsupported), ("0B", .unsupported),
   ("0F", .unsupported), ("2D", .unsupported), ("1F", .unsupported), ("EF", .unsupported),
   ("02", .unsupported), ("37", .unsupported), ("FC", .unsupported), ("00", .unsupported),
   ("A0", .unsupported), ("18", .unsupported), ("44", .unsupported), ("34", .unsupported),
   ("33", .unsupported), ("FF", .unsupported), ("05", .unsupported), ("12", .unsupported),
   ("29", .unsupported), ("1C", .unsupported), ("3A", .unsupported), ("10", .temperature),
   ("22", .temperature), ("28", .temperature), ("3B", .unsupported), ("42", .unsupported),
   ("B1", .unsupported), ("B3", .unsupported), ("21", .unsupported), ("EE", .unsupported),
   ("89", .unsupported), ("8B", .unsupported), ("8F", .unsupported), ("2C", .unsupported),
   ("A1", .unsupported), ("20", .unsupported)]

/-- `_family[family].type`; an unknown family gets the first type. -/
def familyType (family : List Byte) : FamilyType :=
  ((table.map fun row => (bytes row.1, row.2)).lookup family).getD .acvoltage

end PowerGuru.Devices.Sensors
