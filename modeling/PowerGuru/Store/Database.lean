import PowerGuru.Devices.Sensors
import PowerGuru.Lib.SqlLiteral

/-!
# `Database::formatQuery`

The values of an INSERT, one after the other. A text is put between quotes as it
is, a float has six decimals, and the type of a 1-wire sensor stands bare.
-/
namespace PowerGuru.Store.Database

open Lib.Bytes Lib.Strtol Lib.Numeral Lib.SqlLiteral Devices.Sensors

/-- The clock `gettime` asks. -/
structure Ptime where
  year : Nat
  month : Nat
  day : Nat
  hour : Nat
  minute : Nat
  second : Nat
  year_lt : year < 10^4 := by decide
  month_lt : month < 10^2 := by decide
  day_lt : day < 10^2 := by decide
  hour_lt : hour < 10^2 := by decide
  minute_lt : minute < 10^2 := by decide
  second_lt : second < 10^2 := by decide

/-- `%Y-%m-%d %H:%M:%S`. -/
def gettime (now : Ptime) : List Byte :=
  pad 4 now.year ++ bytes "-" ++ pad 2 now.month ++ bytes "-" ++ pad 2 now.day ++ bytes " " ++
    pad 2 now.hour ++ bytes ":" ++ pad 2 now.minute ++ bytes ":" ++ pad 2 now.second

/-- `_ftable`. -/
def ftable : FamilyType → List Byte
  | .acvoltage => bytes "ACVOLTAGE"
  | .dcvoltage => bytes "DCVOLTAGE"
  | .auth => bytes "AUTHENTICATIN"
  | .battery => bytes "BATTERY"
  | .clock => bytes "CLOCK"
  | .temperature => bytes "TEMPERATURE"
  | .thermcouple => bytes "THERMOCOUPLE"
  | .moisture => bytes "MOISTURE"
  | .unsupported => bytes "UNSUPORTED"

/-! ## The three functions -/

/-- `formatQuery(onewire_t)`. -/
def formatOnewire (now : Ptime) (one : Onewire) : List Byte :=
  bytes "'" ++ one.family ++ bytes "'" ++
  (bytes ", '" ++ one.id ++ bytes "'") ++
  (bytes ", '" ++ one.aliasName ++ bytes "'") ++
  (bytes ", " ++ ftable one.type) ++
  (bytes ", '" ++ gettime now ++ bytes "'")

/-- `formatQuery(temperature_t)`. -/
def formatTemperature (now : Ptime) (temp : Temperature CFloat) : List Byte :=
  bytes "'" ++ temp.id ++ bytes "'" ++
  (bytes ", " ++ temp.temp.toString) ++
  (bytes ", " ++ temp.hightemp.toString) ++
  (bytes ", " ++ temp.lowtemp.toString) ++
  bytes ", '" ++
  [temp.scale] ++
  (bytes "', '" ++ gettime now ++ bytes "'")

/-- `formatQuery(battery_t)`. -/
def formatBattery (now : Ptime) (batt : Battery CFloat) : List Byte :=
  bytes "'" ++ batt.id ++ bytes "'" ++
  (bytes ", " ++ batt.current.toString) ++
  (bytes ", " ++ batt.volts.toString) ++
  bytes ", '" ++
  (if batt.dc = true then bytes "DC'" else bytes "AC'") ++
  (bytes ", '" ++ gettime now ++ bytes "'")

/-! ## The values they are to stand for -/

def onewireValues (now : Ptime) (one : Onewire) : List Value :=
  [.text one.family, .text one.id, .text one.aliasName, .text (ftable one.type),
    .text (gettime now)]

/-- Infinity and NaN are no values of a literal. -/
def temperatureValues (now : Ptime) (temp : Temperature CFloat) : Option (List Value) := do
  let t ← temp.temp.number
  let high ← temp.hightemp.number
  let low ← temp.lowtemp.number
  return [.text temp.id, .number t, .number high, .number low, .text [temp.scale],
    .text (gettime now)]

def batteryValues (now : Ptime) (batt : Battery CFloat) : Option (List Value) := do
  let current ← batt.current.number
  let volts ← batt.volts.number
  return [.text batt.id, .number current, .number volts,
    .text (if batt.dc = true then bytes "DC" else bytes "AC"), .text (gettime now)]

/-- Between the parentheses of VALUES the query is a list of literals, one for each value
and nothing behind them. -/
def ReadsBack (query : List Byte) (values : Option (List Value)) : Prop :=
  ∃ vs, values = some vs ∧ readValues (query ++ [close]) = some (vs, [])

/-! ## Reading back -/

theorem quote_not_mem_pad {k n : Nat} (hn : n < 10^k) : quote ∉ pad k n := by
  intro h
  exact absurd (isDigit_of_mem_pad hn h) (by decide)

theorem quote_not_mem_gettime (now : Ptime) : quote ∉ gettime now := by
  have hsep : ∀ s ∈ ["-", " ", ":"], quote ∉ bytes s := by decide
  simp only [List.forall_mem_cons] at hsep
  obtain ⟨hdash, hblank, hcolon, -⟩ := hsep
  simp only [gettime, List.mem_append, not_or]
  exact ⟨⟨⟨⟨⟨⟨⟨⟨⟨⟨quote_not_mem_pad now.year_lt, hdash⟩, quote_not_mem_pad now.month_lt⟩, hdash⟩,
    quote_not_mem_pad now.day_lt⟩, hblank⟩, quote_not_mem_pad now.hour_lt⟩, hcolon⟩,
    quote_not_mem_pad now.minute_lt⟩, hcolon⟩, quote_not_mem_pad now.second_lt⟩

theorem readsBack_joined_iff {query : List Byte} {f : Field} {fs : List Field}
    (hq : query = joined (f :: fs)) (hp : ∀ g ∈ f :: fs, g.Plain) :
    ReadsBack query (some ((f :: fs).map Field.value)) ↔ ∀ g ∈ f :: fs, g.Safe := by
  have hiff := readValues_iff (show ([] : List Byte).all isSpace = true from rfl)
    (show ([] : List Byte).all isSpace = true from rfl) [] f fs hp (r := [])
  simp only [List.nil_append, and_true] at hiff
  rw [← hiff, ReadsBack, hq]
  simp

/-! ### `onewire_t` -/

/-- The name of a type is no literal. -/
theorem ftable_plain (type : FamilyType) (v : Value) :
    (Field.bare (ftable type) v).Plain ∧ ¬ (Field.bare (ftable type) v).Safe := by
  have hword : ftable type ≠ [] ∧ (ftable type).head? ≠ some quote ∧
      (∀ b ∈ ftable type, endsToken b = false) ∧ readNumber (ftable type) = none := by
    cases type <;> decide +kernel
  obtain ⟨hne, hquote, hends, hread⟩ := hword
  exact ⟨⟨hne, hquote, hends⟩, by simp [Field.Safe, hread]⟩

def onewireFields (now : Ptime) (one : Onewire) : List Field :=
  [.text one.family, .text one.id, .text one.aliasName,
    .bare (ftable one.type) (.text (ftable one.type)), .text (gettime now)]

theorem formatOnewire_joined (now : Ptime) (one : Onewire) :
    formatOnewire now one = joined (onewireFields now one) := by
  simp [formatOnewire, onewireFields, joined_cons, joined_singleton, Field.written, bytes, quote,
    comma]

theorem onewire_never_reads (now : Ptime) (one : Onewire) :
    ¬ ReadsBack (formatOnewire now one) (some (onewireValues now one)) := by
  obtain ⟨hplain, hspoilt⟩ := ftable_plain one.type (.text (ftable one.type))
  have hall : ∀ g ∈ onewireFields now one, g.Plain := by
    simp [onewireFields, hplain]
  intro h
  have hsafe := (readsBack_joined_iff (formatOnewire_joined now one) hall).mp h
  exact hspoilt (hsafe _ (by simp))

/-! ### `temperature_t` -/

def temperatureFields (now : Ptime) (temp : Temperature CFloat) (t high low : Rat) : List Field :=
  [.text temp.id, floatField temp.temp t, floatField temp.hightemp high,
    floatField temp.lowtemp low, .text [temp.scale], .text (gettime now)]

theorem formatTemperature_joined (now : Ptime) (temp : Temperature CFloat) (t high low : Rat) :
    formatTemperature now temp = joined (temperatureFields now temp t high low) := by
  simp [formatTemperature, temperatureFields, joined_cons, joined_singleton, Field.written,
    floatField, bytes, quote, comma]

theorem temperature_reads_iff (now : Ptime) (temp : Temperature CFloat) :
    ReadsBack (formatTemperature now temp) (temperatureValues now temp) ↔
      quote ∉ temp.id ∧ temp.scale ≠ quote ∧
        temp.temp.Micro ∧ temp.hightemp.Micro ∧ temp.lowtemp.Micro := by
  by_cases hn : ∃ t high low, temp.temp.number = some t ∧ temp.hightemp.number = some high ∧
      temp.lowtemp.number = some low
  · obtain ⟨t, high, low, ht, hh, hl⟩ := hn
    have hplain : ∀ g ∈ temperatureFields now temp t high low, g.Plain := by
      simp [temperatureFields, floatField_plain]
    have hvalues : temperatureValues now temp =
        some ((temperatureFields now temp t high low).map Field.value) := by
      simp [temperatureValues, temperatureFields, ht, hh, hl, floatField, Field.value]
    rw [hvalues]
    refine (readsBack_joined_iff (formatTemperature_joined now temp t high low) hplain).trans ?_
    simp only [List.forall_mem_cons, Field.safe_text, floatField_safe_iff ht,
      floatField_safe_iff hh, floatField_safe_iff hl]
    have hscale : quote ∉ [temp.scale] ↔ temp.scale ≠ quote := by simp [eq_comm]
    rw [hscale]
    constructor
    · intro h
      obtain ⟨hid, ht, hh, hl, hscale, -⟩ := h
      exact ⟨hid, hscale, ht, hh, hl⟩
    · intro h
      obtain ⟨hid, hscale, ht, hh, hl⟩ := h
      exact ⟨hid, ht, hh, hl, hscale, quote_not_mem_gettime now, by simp⟩
  · refine iff_of_false ?_ ?_
    · intro h
      obtain ⟨vs, hvs, -⟩ := h
      simp only [temperatureValues, Option.bind_eq_bind, Option.bind_eq_some_iff] at hvs
      obtain ⟨t, ht, high, hh, low, hl, -⟩ := hvs
      exact hn ⟨t, high, low, ht, hh, hl⟩
    · intro h
      obtain ⟨-, -, ht, hh, hl⟩ := h
      obtain ⟨t, ht⟩ := number_of_micro ht
      obtain ⟨high, hh⟩ := number_of_micro hh
      obtain ⟨low, hl⟩ := number_of_micro hl
      exact hn ⟨t, high, low, ht, hh, hl⟩

/-! ### `battery_t` -/

def batteryFields (now : Ptime) (batt : Battery CFloat) (current volts : Rat) : List Field :=
  [.text batt.id, floatField batt.current current, floatField batt.volts volts,
    .text (if batt.dc = true then bytes "DC" else bytes "AC"), .text (gettime now)]

theorem formatBattery_joined (now : Ptime) (batt : Battery CFloat) (current volts : Rat) :
    formatBattery now batt = joined (batteryFields now batt current volts) := by
  cases hdc : batt.dc <;> simp [formatBattery, batteryFields, joined_cons, joined_singleton,
    Field.written, floatField, bytes, quote, comma, hdc]

theorem battery_reads_iff (now : Ptime) (batt : Battery CFloat) :
    ReadsBack (formatBattery now batt) (batteryValues now batt) ↔
      quote ∉ batt.id ∧ batt.current.Micro ∧ batt.volts.Micro := by
  by_cases hn : ∃ current volts, batt.current.number = some current ∧
      batt.volts.number = some volts
  · obtain ⟨current, volts, hc, hv⟩ := hn
    have hplain : ∀ g ∈ batteryFields now batt current volts, g.Plain := by
      simp [batteryFields, floatField_plain]
    have hvalues : batteryValues now batt =
        some ((batteryFields now batt current volts).map Field.value) := by
      simp [batteryValues, batteryFields, hc, hv, floatField, Field.value]
    have hword : quote ∉ (if batt.dc = true then bytes "DC" else bytes "AC") := by
      cases batt.dc <;> decide
    rw [hvalues]
    refine (readsBack_joined_iff (formatBattery_joined now batt current volts) hplain).trans ?_
    simp only [List.forall_mem_cons, Field.safe_text, floatField_safe_iff hc,
      floatField_safe_iff hv]
    constructor
    · intro h
      exact ⟨h.1, h.2.1, h.2.2.1⟩
    · intro h
      exact ⟨h.1, h.2.1, h.2.2, hword, quote_not_mem_gettime now, by simp⟩
  · refine iff_of_false ?_ ?_
    · intro h
      obtain ⟨vs, hvs, -⟩ := h
      simp only [batteryValues, Option.bind_eq_bind, Option.bind_eq_some_iff] at hvs
      obtain ⟨current, hc, volts, hv, -⟩ := hvs
      exact hn ⟨current, volts, hc, hv⟩
    · intro h
      obtain ⟨-, hc, hv⟩ := h
      obtain ⟨current, hc⟩ := number_of_micro hc
      obtain ⟨volts, hv⟩ := number_of_micro hv
      exact hn ⟨current, volts, hc, hv⟩

/-! ### All three -/

/-- The time `gettime` is explained with. -/
def morning : Ptime :=
  ⟨2019, 1, 4, 8, 34, 34, by decide, by decide, by decide, by decide, by decide, by decide⟩

/-- A shed whose owner's name has an apostrophe. -/
def shed : Onewire :=
  ⟨bytes "28", bytes "97C6697351AB", bytes "Bob's shed", bytes "28.97C6697351AB", .temperature,
    none⟩

/-- An id with an apostrophe in it. -/
def cell : Battery CFloat :=
  ⟨bytes "4AEC'CDBAAB", .finite false 2 (by decide), .finite false 14 (by decide), true⟩

theorem shed_and_cell_spoilt :
    ¬ ReadsBack (formatOnewire morning shed) (some (onewireValues morning shed)) ∧
      ¬ ReadsBack (formatBattery morning cell) (batteryValues morning cell) := by
  refine ⟨onewire_never_reads morning shed, ?_⟩
  rw [battery_reads_iff]
  intro h
  exact absurd h.1 (by decide)

/-- A sensor's row is never read back, since its type is no literal. The others are exactly
when their texts hold no quote and their floats are numbers of millionths. -/
theorem formatQuery_reads_iff (now : Ptime) :
    (∀ one, ¬ ReadsBack (formatOnewire now one) (some (onewireValues now one))) ∧
    (∀ temp, ReadsBack (formatTemperature now temp) (temperatureValues now temp) ↔
      quote ∉ temp.id ∧ temp.scale ≠ quote ∧
        temp.temp.Micro ∧ temp.hightemp.Micro ∧ temp.lowtemp.Micro) ∧
    (∀ batt, ReadsBack (formatBattery now batt) (batteryValues now batt) ↔
      quote ∉ batt.id ∧ batt.current.Micro ∧ batt.volts.Micro) :=
  ⟨onewire_never_reads now, temperature_reads_iff now, battery_reads_iff now⟩

end PowerGuru.Store.Database
