import PowerGuru.Devices.OutbackParse

/-!
# `outback::exportMeterData`
-/
namespace PowerGuru.Devices.OutbackExport

open Lib.Bytes Common OutbackParse

/-- The type of the record is left as it was when the object has none. -/
def exportType (o : Outback) (old : Device) : Device :=
  match o.type with
  | .mx => .mxOutback
  | .fx => .fxOutback
  | .none => old

def exportUnit (o : Outback) : Int :=
  match o.type with
  | .mx => schar o.address - 48
  | .fx => schar o.address - 65
  | .none => schar o.address

def exportMeterData (o : Outback) (data : MeterData) : MeterData where
  unit := exportUnit o
  type := exportType o data.type
  chargeAmps := o.chargeCurrent
  acLoadAmps := o.inverterCurrent
  batteryVolts := (o.batteryVoltage : Rat) / 10
  acVoltsOut := o.acOutputVoltage
  ac1VoltsIn := o.acInputVoltage
  ac2VoltsIn := 0
  pvAmpsIn := o.pvCurrent
  pvVoltsIn := o.pvInputVoltage
  buyAmps := o.buyCurrent
  sellAmps := o.sellCurrent
  dailyKwh := (o.dailyKwh : Rat) / 10
  hertz := 60
  tempcompVolts := 0

end PowerGuru.Devices.OutbackExport
