import PowerGuru.Devices.OutbackParse

/-!
# Status pages and what `parse` reads out of them

`struct outback_mx` and `struct outback_fx` are the same 49 bytes: LF, an address,
thirteen numbers each behind its comma, CR. They differ in what the numbers mean.
-/
namespace PowerGuru.Devices.OutbackFrame

open Lib.Bytes Lib.Strtol Common OutbackParse

/-- Every slot is a width and the number written into it. -/
def statusPage (address : Byte) (slots : List (Nat × Nat)) : List Byte :=
  LF :: address :: slots.flatMap (fun s => comma :: pad s.1 s.2) ++ [CR]

/-- Fields of `struct outback_mx` in their documented ranges. -/
structure MxFrame where
  address : Byte
  chargerCurrent : Nat
  pvCurrent : Nat
  pvInputVoltage : Nat
  dailyKwh : Nat
  auxMode : Nat
  errorMode : Nat
  chargerMode : Nat
  batteryVoltage : Nat
  checksum : Nat
  address_mx : isMxAddress address = true := by decide
  chargerCurrent_le : chargerCurrent ≤ 99 := by decide
  pvCurrent_le : pvCurrent ≤ 99 := by decide
  pvInputVoltage_le : pvInputVoltage ≤ 256 := by decide
  dailyKwh_le : dailyKwh ≤ 999 := by decide
  auxMode_le : auxMode ≤ 99 := by decide
  errorMode_le : errorMode ≤ 256 := by decide
  chargerMode_le : chargerMode ≤ 99 := by decide
  batteryVoltage_le : batteryVoltage ≤ 999 := by decide
  checksum_le : checksum ≤ 999 := by decide

def MxFrame.slots (f : MxFrame) : List (Nat × Nat) :=
  [(2, 0), (2, f.chargerCurrent), (2, f.pvCurrent), (3, f.pvInputVoltage), (3, f.dailyKwh),
    (2, 0), (2, f.auxMode), (3, f.errorMode), (2, f.chargerMode), (3, f.batteryVoltage),
    (3, 0), (3, 0), (3, f.checksum)]

def MxFrame.encode (f : MxFrame) : List Byte := statusPage f.address f.slots

/-- Fields of `struct outback_fx` in their documented ranges. -/
structure FxFrame where
  address : Byte
  inverterCurrent : Nat
  chargerCurrent : Nat
  buyCurrent : Nat
  acInputVoltage : Nat
  acOutputVoltage : Nat
  sellCurrent : Nat
  operatingMode : Nat
  errorMode : Nat
  acMode : Nat
  batteryVoltage : Nat
  misc : Nat
  warningMode : Nat
  checksum : Nat
  address_fx : isFxAddress address = true := by decide
  inverterCurrent_le : inverterCurrent ≤ 99 := by decide
  chargerCurrent_le : chargerCurrent ≤ 99 := by decide
  buyCurrent_le : buyCurrent ≤ 99 := by decide
  acInputVoltage_le : acInputVoltage ≤ 256 := by decide
  acOutputVoltage_le : acOutputVoltage ≤ 256 := by decide
  sellCurrent_le : sellCurrent ≤ 99 := by decide
  operatingMode_le : operatingMode ≤ 99 := by decide
  errorMode_le : errorMode ≤ 255 := by decide
  acMode_le : acMode ≤ 99 := by decide
  batteryVoltage_le : batteryVoltage ≤ 999 := by decide
  misc_le : misc ≤ 255 := by decide
  warningMode_le : warningMode ≤ 255 := by decide
  checksum_le : checksum ≤ 999 := by decide

def FxFrame.slots (f : FxFrame) : List (Nat × Nat) :=
  [(2, f.inverterCurrent), (2, f.chargerCurrent), (2, f.buyCurrent), (3, f.acInputVoltage),
    (3, f.acOutputVoltage), (2, f.sellCurrent), (2, f.operatingMode), (3, f.errorMode),
    (2, f.acMode), (3, f.batteryVoltage), (3, f.misc), (3, f.warningMode), (3, f.checksum)]

def FxFrame.encode (f : FxFrame) : List Byte := statusPage f.address f.slots

/-! ## The bytes of a page -/

/-- A slot's number fits its width. -/
def Fits (slots : List (Nat × Nat)) : Prop := ∀ s ∈ slots, s.2 < 10^s.1

theorem MxFrame.fits (f : MxFrame) : Fits f.slots := by
  have h := f.chargerCurrent_le; have h := f.pvCurrent_le; have h := f.pvInputVoltage_le
  have h := f.dailyKwh_le; have h := f.auxMode_le; have h := f.errorMode_le
  have h := f.chargerMode_le; have h := f.batteryVoltage_le; have h := f.checksum_le
  intro s hs
  simp only [MxFrame.slots, List.mem_cons, List.not_mem_nil, or_false] at hs
  rcases hs with rfl | rfl | rfl | rfl | rfl | rfl | rfl | rfl | rfl | rfl | rfl | rfl | rfl <;>
    norm_num <;> omega

theorem FxFrame.fits (f : FxFrame) : Fits f.slots := by
  have h := f.inverterCurrent_le; have h := f.chargerCurrent_le; have h := f.buyCurrent_le
  have h := f.acInputVoltage_le; have h := f.acOutputVoltage_le; have h := f.sellCurrent_le
  have h := f.operatingMode_le; have h := f.errorMode_le; have h := f.acMode_le
  have h := f.batteryVoltage_le; have h := f.misc_le; have h := f.warningMode_le
  have h := f.checksum_le
  intro s hs
  simp only [FxFrame.slots, List.mem_cons, List.not_mem_nil, or_false] at hs
  rcases hs with rfl | rfl | rfl | rfl | rfl | rfl | rfl | rfl | rfl | rfl | rfl | rfl | rfl <;>
    norm_num <;> omega

/-- The digits of a number are none of the bytes that end a string or a page. -/
theorem pad_bytes {w n : Nat} (hn : n < 10^w) :
    ∀ b ∈ pad w n, b ≠ NUL ∧ b ≠ LF ∧ b ≠ CR ∧ b < 128 := by
  induction w generalizing n with
  | zero => intro b hb; simp [pad] at hb
  | succ w ih =>
    obtain ⟨hd, hr, -⟩ := split_digit hn
    intro b hb
    rcases List.mem_cons.mp hb with rfl | hb
    · obtain ⟨-, h0, hl, hc, ha, -⟩ := digit_cases hd
      exact ⟨h0, hl, hc, ha⟩
    · exact ih hr b hb

theorem nul_not_mem_statusPage {address : Byte} {slots : List (Nat × Nat)} (ha : address ≠ NUL)
    (hf : Fits slots) : NUL ∉ statusPage address slots := by
  intro h
  simp only [statusPage, List.cons_append, List.mem_cons, List.mem_append, List.mem_flatMap,
    List.not_mem_nil, or_false] at h
  rcases h with h | h | ⟨s, hs, h | h⟩ | h
  · exact absurd h (by decide)
  · exact ha h.symm
  · exact absurd h (by decide)
  · exact (pad_bytes (hf s hs) NUL h).1 rfl
  · exact absurd h (by decide)

theorem isMxAddress_iff (a : Byte) : isMxAddress a = true ↔ 65 ≤ a ∧ a ≤ 75 := by
  simp [isMxAddress]

theorem isFxAddress_iff (a : Byte) : isFxAddress a = true ↔ 48 ≤ a ∧ a ≤ 57 := by
  simp [isFxAddress]

theorem address_ne_nul {a : Byte} (h : isFxAddress a = true ∨ isMxAddress a = true) : a ≠ NUL := by
  rintro rfl
  revert h
  decide

theorem MxFrame.cstr_encode (f : MxFrame) : cstr f.encode = f.encode :=
  cstr_of_not_mem (nul_not_mem_statusPage (address_ne_nul (Or.inr f.address_mx)) f.fits)

theorem FxFrame.cstr_encode (f : FxFrame) : cstr f.encode = f.encode :=
  cstr_of_not_mem (nul_not_mem_statusPage (address_ne_nul (Or.inl f.address_fx)) f.fits)

theorem MxFrame.encode_length (f : MxFrame) : f.encode.length = 49 := by
  simp [MxFrame.encode, MxFrame.slots, statusPage]

theorem FxFrame.encode_length (f : FxFrame) : f.encode.length = 49 := by
  simp [FxFrame.encode, FxFrame.slots, statusPage]

/-! ## Round trips -/

/-- `parse` of a string succeeds and every MX member is the frame's number. -/
def MxFrame.ParsedFrom (f : MxFrame) (o : Outback) (data : List Byte) : Prop :=
  (parse o data).1 = .ok .success ∧
  (parse o data).2.address = f.address ∧
  (parse o data).2.type = .mx ∧
  (parse o data).2.chargeCurrent = f.chargerCurrent ∧
  (parse o data).2.pvCurrent = f.pvCurrent ∧
  (parse o data).2.pvInputVoltage = f.pvInputVoltage ∧
  (parse o data).2.dailyKwh = f.dailyKwh ∧
  (parse o data).2.auxMode = f.auxMode ∧
  (parse o data).2.chargeMode = f.chargerMode ∧
  (parse o data).2.batteryVoltage = f.batteryVoltage ∧
  (parse o data).2.checksum = f.checksum

/-- A padded number that base 0 does not take for octal, or not wrongly. -/
abbrev OctalSafe (w n : Nat) : Prop := n ≤ 7 ∨ 10^w ≤ n

def MxFrame.Legible (f : MxFrame) : Prop :=
  OctalSafe 1 f.chargerCurrent ∧ OctalSafe 1 f.pvCurrent ∧
  (f.pvInputVoltage ≤ 7 ∨ 10 ≤ f.pvInputVoltage ∧ f.pvInputVoltage ≤ 99) ∧
  OctalSafe 2 f.dailyKwh ∧ OctalSafe 1 f.auxMode ∧ OctalSafe 1 f.chargerMode ∧
  OctalSafe 2 f.batteryVoltage ∧ OctalSafe 2 f.checksum

theorem two_digits {n : Nat} (h : n ≤ 99) :
    toInt (strtol (pad 2 n) 0) = n ↔ OctalSafe 1 n := by
  simpa [OctalSafe] using strtol_pad_eq_iff (w := 1) (n := n) (by omega) (by omega) stops_nil

theorem three_digits {n : Nat} (h : n ≤ 999) :
    toInt (strtol (pad 3 n) 0) = n ↔ OctalSafe 2 n := by
  simpa [OctalSafe] using strtol_pad_eq_iff (w := 2) (n := n) (by omega) (by omega) stops_nil

/-- A three-digit number read one byte late: its last two digits and the comma. -/
theorem late_digits {n : Nat} (h : n ≤ 999) :
    toInt (strtol (pad 2 (n % 100) ++ [comma]) 0) = n ↔ n ≤ 7 ∨ 10 ≤ n ∧ n ≤ 99 := by
  have hs : Stops [comma] := stops_comma []
  obtain ⟨v, hv, he⟩ := strtol_pad_le (w := 1) (n := n % 100) (by omega) (by omega) hs
  have hiff := strtol_pad_eq_iff (w := 1) (n := n % 100) (by omega) (by omega) hs
  by_cases hn : n ≤ 99
  · have hm : n % 100 = n := by omega
    rw [hm] at hiff ⊢
    rw [hiff]
    omega
  · rw [he]
    omega

/-- The address of a page, and its slots at the offsets of the structure. -/
theorem MxFrame.slot_values (f : MxFrame) :
    f.encode.getD 1 NUL = f.address ∧
    slotValue f.encode 6 2 = toInt (strtol (pad 2 f.chargerCurrent) 0) ∧
    slotValue f.encode 9 2 = toInt (strtol (pad 2 f.pvCurrent) 0) ∧
    slotValue f.encode 13 3 = toInt (strtol (pad 2 (f.pvInputVoltage % 100) ++ [comma]) 0) ∧
    slotValue f.encode 16 3 = toInt (strtol (pad 3 f.dailyKwh) 0) ∧
    slotValue f.encode 23 2 = toInt (strtol (pad 2 f.auxMode) 0) ∧
    slotValue f.encode 30 2 = toInt (strtol (pad 2 f.chargerMode) 0) ∧
    slotValue f.encode 33 3 = toInt (strtol (pad 3 f.batteryVoltage) 0) ∧
    slotValue f.encode 45 3 = toInt (strtol (pad 3 f.checksum) 0) :=
  ⟨rfl, rfl, rfl, rfl, rfl, rfl, rfl, rfl, rfl⟩

theorem MxFrame.parse_encode (f : MxFrame) (o : Outback) :
    parse o f.encode = (.ok .success, assigned o f.encode) := by
  have h45 : 45 ≤ (cstr f.encode).length := by rw [f.cstr_encode, f.encode_length]; decide
  have ha : addressOk (cstr f.encode) := by rw [f.cstr_encode]; exact Or.inr f.address_mx
  rw [parse_whole o h45 ha, f.cstr_encode]

theorem FxFrame.parse_encode (f : FxFrame) (o : Outback) :
    parse o f.encode = (.ok .success, assigned o f.encode) := by
  have h45 : 45 ≤ (cstr f.encode).length := by rw [f.cstr_encode, f.encode_length]; decide
  have ha : addressOk (cstr f.encode) := by rw [f.cstr_encode]; exact Or.inl f.address_fx
  rw [parse_whole o h45 ha, f.cstr_encode]

/-- An MX page survives `parse` exactly when no padded number is misread as octal and
the PV voltage, read from byte 13 instead of 12, has at most two digits. -/
theorem mx_round_trip_iff (f : MxFrame) (o : Outback) : f.ParsedFrom o f.encode ↔ f.Legible := by
  obtain ⟨ha, h6, h9, h13, h16, h23, h30, h33, h45⟩ := f.slot_values
  simp only [MxFrame.ParsedFrom, f.parse_encode, assigned, ha, h6, h9, h13, h16, h23, h30, h33, h45,
    two_digits f.chargerCurrent_le, two_digits f.pvCurrent_le,
    late_digits (f.pvInputVoltage_le.trans (by decide)), three_digits f.dailyKwh_le,
    two_digits f.auxMode_le, two_digits f.chargerMode_le, three_digits f.batteryVoltage_le,
    three_digits f.checksum_le, true_and, MxFrame.Legible]

/-- A sunny morning: 119 V at the panels, 8 A into batteries at 28.8 V. -/
def sampleMx : MxFrame where
  address := 66
  chargerCurrent := 8
  pvCurrent := 2
  pvInputVoltage := 119
  dailyKwh := 12
  auxMode := 0
  errorMode := 0
  chargerMode := 2
  batteryVoltage := 288
  checksum := 62

/-- `08` is read as octal and stops at the 8: eight amperes become none. -/
theorem sampleMx_not_round_trip : ¬ sampleMx.ParsedFrom {} sampleMx.encode := by
  intro h
  have hc : (parse {} sampleMx.encode).2.chargeCurrent = 0 := by decide
  rw [h.2.2.2.1] at hc
  exact absurd hc (by decide)

/-- `parse` of a string succeeds, classifies it as FX, and every FX member is the
frame's number. -/
def FxFrame.ParsedFrom (f : FxFrame) (o : Outback) (data : List Byte) : Prop :=
  (parse o data).1 = .ok .success ∧
  (parse o data).2.address = f.address ∧
  (parse o data).2.type = .fx ∧
  (parse o data).2.inverterCurrent = f.inverterCurrent ∧
  (parse o data).2.chargeCurrent = f.chargerCurrent ∧
  (parse o data).2.buyCurrent = f.buyCurrent ∧
  (parse o data).2.acInputVoltage = f.acInputVoltage ∧
  (parse o data).2.acOutputVoltage = f.acOutputVoltage ∧
  (parse o data).2.sellCurrent = f.sellCurrent ∧
  (parse o data).2.operatingMode = f.operatingMode ∧
  (parse o data).2.errorMode = f.errorMode ∧
  (parse o data).2.acMode = f.acMode ∧
  (parse o data).2.batteryVoltage = f.batteryVoltage ∧
  (parse o data).2.miscByte = f.misc ∧
  (parse o data).2.warningMode = f.warningMode ∧
  (parse o data).2.checksum = f.checksum

def sampleFx : FxFrame where
  address := 48
  inverterCurrent := 0
  chargerCurrent := 0
  buyCurrent := 0
  acInputVoltage := 119
  acOutputVoltage := 0
  sellCurrent := 0
  operatingMode := 0
  errorMode := 0
  acMode := 1
  batteryVoltage := 254
  misc := 8
  warningMode := 0
  checksum := 31

/-- The classification is overwritten before any slot is read. -/
theorem sampleFx_not_round_trip : ¬ sampleFx.ParsedFrom {} sampleFx.encode := by
  intro h
  have ht : (parse {} sampleFx.encode).2.type = .mx := by decide
  rw [h.2.2.1] at ht
  exact absurd ht (by decide)

/-- Every FX page leaves the object classified MX, so none survives. -/
theorem fx_round_trip_never (f : FxFrame) (o : Outback) : ¬ f.ParsedFrom o f.encode := by
  intro h
  have ht := h.2.2.1
  rw [f.parse_encode o] at ht
  exact absurd ht (by simp [assigned])

end PowerGuru.Devices.OutbackFrame
