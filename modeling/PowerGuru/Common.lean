/-!
# Types shared by the libraries and the devices
-/
namespace PowerGuru.Common

inductive Retcode where
  | success
  | error
  deriving DecidableEq, Repr

/-- The two codes of boost's `errc` that are returned. -/
inductive ErrorCode where
  | success
  | notSupported
  deriving DecidableEq, Repr

/-- `device_t`. -/
inductive Device where
  | noDevice
  | mxOutback
  | fxOutback
  | swXantrex
  deriving DecidableEq, Repr

/-- `meter_data_t`; its floats are kept before rounding. -/
structure MeterData where
  unit : Int
  type : Device
  chargeAmps : Int
  acLoadAmps : Int
  batteryVolts : Rat
  acVoltsOut : Rat
  ac1VoltsIn : Rat
  ac2VoltsIn : Rat
  pvAmpsIn : Int
  pvVoltsIn : Rat
  buyAmps : Rat
  sellAmps : Rat
  dailyKwh : Rat
  hertz : Int
  tempcompVolts : Rat
  deriving DecidableEq, Repr

/-- A computation that ends well ended well at each of its steps. -/
theorem bind_ok_iff {ε α β : Type} {x : Except ε α} {f : α → Except ε β} {b : β} :
    (x >>= f) = .ok b ↔ ∃ a, x = .ok a ∧ f a = .ok b := by
  cases x with
  | error e => simp [bind, Except.bind]
  | ok a => simp [bind, Except.bind]

end PowerGuru.Common
