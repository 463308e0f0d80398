import PowerGuru.Devices.OutbackExport
import PowerGuru.Devices.OutbackFailure

/-!
# Records of one object

What `exportMeterData` makes of an object that any number of packets have gone through.
-/
namespace PowerGuru.Devices.OutbackHistory

open Lib.Bytes Common OutbackParse OutbackExport OutbackFailure OutbackFrame

/-- What a sequence of strings can leave of a constructed object. For an empty string `parse`
compares a byte from behind it, so that address and type are anything. -/
inductive Reached : Outback → Prop
  | constructed : Reached {}
  | parsed {o : Outback} (data : List Byte) : Reached o → Reached (parse o data).2
  | unread {o : Outback} (data : List Byte) (address : Byte) (type : OutbackType) :
      cstr data = [] → Reached o → Reached { o with address := address, type := type }

/-- The members that only an FX fills. -/
structure Untouched (o : Outback) : Prop where
  buyCurrent : o.buyCurrent = 0
  sellCurrent : o.sellCurrent = 0
  acInputVoltage : o.acInputVoltage = 0
  acOutputVoltage : o.acOutputVoltage = 0

theorem Untouched.partly {o : Outback} (h : Untouched o) (packet : List Byte) :
    Untouched (partly o packet) := ⟨h.1, h.2, h.3, h.4⟩

theorem Untouched.parse {o : Outback} (h : Untouched o) (data : List Byte) :
    Untouched (parse o data).2 := by
  by_cases hne : cstr data = []
  · rw [parse_empty o hne]
    exact h
  by_cases ha : addressOk (cstr data)
  · rw [parse_good_address o ha]
    exact h.partly (cstr data)
  · rw [parse_bad_address o (List.length_pos_iff.mpr hne) ha]
    exact ⟨h.1, h.2, h.3, h.4⟩

/-- The classification as MX keeps every string away from them. -/
theorem Reached.untouched {o : Outback} (h : Reached o) : Untouched o := by
  induction h with
  | constructed => exact ⟨rfl, rfl, rfl, rfl⟩
  | parsed data _ ih => exact ih.parse data
  | unread data address type _ _ ih => exact ⟨ih.1, ih.2, ih.3, ih.4⟩

/-- A whole packet replaces everything else that is exported. -/
theorem export_assigned {o : Outback} (h : Untouched o) (packet : List Byte) (md md' : MeterData) :
    exportMeterData (assigned o packet) md = exportMeterData (assigned {} packet) md' := by
  simp only [exportMeterData, exportUnit, exportType, assigned, h.buyCurrent, h.sellCurrent,
    h.acInputVoltage, h.acOutputVoltage]

theorem parse_of_success {o : Outback} {data : List Byte}
    (h : (parse o data).1 = .ok .success) (o' : Outback) :
    parse o' data = (.ok .success, assigned o' (cstr data)) := by
  obtain ⟨ha, h45⟩ := (parse_success_iff o data).mp h
  exact parse_whole o' h45 ha

/-- The record of a packet is that of a new object, whatever came before. -/
theorem export_of_history {o : Outback} (h : Reached o) {data : List Byte}
    (hok : (parse o data).1 = .ok .success) (md md' : MeterData) :
    exportMeterData (parse o data).2 md = exportMeterData (parse {} data).2 md' := by
  rw [parse_of_success hok o, parse_of_success hok {}]
  exact export_assigned h.untouched (cstr data) md md'

def blankRecord : MeterData := ⟨0, .noDevice, 0, 0, 0, 0, 0, 0, 0, 0, 0, 0, 0, 0, 0⟩

/-- An FX page, a rejected string and a cut one, then an MX page. -/
def visited : Outback :=
  (parse (parse (parse {} sampleFx.encode).2 (bytes "zz")).2 (bytes "0B,12")).2

theorem visited_reached : Reached visited :=
  .parsed _ (.parsed _ (.parsed _ .constructed))

theorem visited_forgotten :
    exportMeterData (parse visited sampleMx.encode).2 blankRecord =
      exportMeterData (parse {} sampleMx.encode).2 blankRecord :=
  export_of_history visited_reached (by rw [sampleMx.parse_encode]) blankRecord blankRecord

/-! ## Type and unit -/

/-- The type is that of the address, and the unit counts from the first address of the type. -/
def Identified (address : Byte) (r : MeterData) : Prop :=
  (isFxAddress address = true → r.type = .fxOutback ∧ r.unit = schar address - 48) ∧
    (isMxAddress address = true → r.type = .mxOutback ∧ r.unit = schar address - 65)

theorem export_identity {o : Outback} {data : List Byte} (hok : (parse o data).1 = .ok .success)
    (md : MeterData) :
    (exportMeterData (parse o data).2 md).type = .mxOutback ∧
      (exportMeterData (parse o data).2 md).unit = schar ((cstr data).getD 1 NUL) - 48 := by
  rw [parse_of_success hok o]
  exact ⟨rfl, rfl⟩

/-- The FX at port 0 is recorded as an MX. -/
theorem sampleFx_misnamed :
    ¬ ∀ (o : Outback) (data : List Byte) (md : MeterData), (parse o data).1 = .ok .success →
      Identified ((cstr data).getD 1 NUL) (exportMeterData (parse o data).2 md) := by
  intro h
  have hok : (parse {} sampleFx.encode).1 = .ok .success := by rw [sampleFx.parse_encode]
  have hident := (h {} sampleFx.encode blankRecord hok).1 (by decide)
  rw [(export_identity hok blankRecord).1] at hident
  exact absurd hident.1 (by decide)

/-- An FX gets the type of an MX, and an MX the base of an FX. -/
theorem export_misidentified {o : Outback} {data : List Byte}
    (hok : (parse o data).1 = .ok .success) (md : MeterData) :
    ¬ Identified ((cstr data).getD 1 NUL) (exportMeterData (parse o data).2 md) := by
  obtain ⟨htype, hunit⟩ := export_identity hok md
  obtain ⟨ha, -⟩ := (parse_success_iff o data).mp hok
  intro h
  rcases ha with hfx | hmx
  · rw [(h.1 hfx).1] at htype
    exact absurd htype (by decide)
  · rw [(h.2 hmx).2] at hunit
    omega

theorem sampleMx_misidentified :
    ¬ Identified ((cstr sampleMx.encode).getD 1 NUL)
      (exportMeterData (parse {} sampleMx.encode).2 blankRecord) :=
  export_misidentified (by rw [sampleMx.parse_encode]) blankRecord

theorem schar_injective : Function.Injective schar := by
  intro a b h
  have ha := a.toNat_lt
  have hb := b.toNat_lt
  unfold schar at h
  simp only [UInt8.lt_iff_toNat_lt, UInt8.reduceToNat] at h
  apply UInt8.toNat_inj.mp
  split at h <;> split at h <;> omega

/-- The units of two addresses still differ. -/
theorem export_distinct {o o' : Outback} {data data' : List Byte}
    (hok : (parse o data).1 = .ok .success) (hok' : (parse o' data').1 = .ok .success)
    (hne : (cstr data).getD 1 NUL ≠ (cstr data').getD 1 NUL) (md md' : MeterData) :
    (exportMeterData (parse o data).2 md).unit ≠ (exportMeterData (parse o' data').2 md').unit := by
  rw [(export_identity hok md).2, (export_identity hok' md').2]
  intro h
  exact hne (schar_injective (by omega))

end PowerGuru.Devices.OutbackHistory
