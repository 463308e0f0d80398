import PowerGuru.Store.Database

/-!
# The INSERTs into the weather table

Three programs write the table, each with the values in an order of its own and
without naming the columns.
-/
namespace PowerGuru.Store.Writers

open Lib.Bytes Lib.Strtol Lib.Numeral Lib.SqlLiteral Devices.Sensors Database

inductive Column where
  | id
  | temperature
  | temphigh
  | templow
  | humidity
  | scale
  | timestamp
  deriving DecidableEq, Repr

/-- `CREATE TABLE weather`. -/
def weather : List Column :=
  [.id, .temperature, .temphigh, .templow, .humidity, .scale, .timestamp]

/-- A reading of a sensor; its humidity is 0 where the sensor has none. -/
structure Sample where
  id : List Byte
  temperature : Rat
  low : Rat
  high : Rat
  humidity : Rat
  scale : List Byte
  time : List Byte
  deriving DecidableEq

def Sample.column (r : Sample) : Column → Value
  | .id => .text r.id
  | .temperature => .number r.temperature
  | .temphigh => .number r.high
  | .templow => .number r.low
  | .humidity => .number r.humidity
  | .scale => .text r.scale
  | .timestamp => .text r.time

/-- The statement has one value for each column, in the order of the table, and they are
those of the reading. -/
def Stores (statement : List Byte) (r : Sample) : Prop :=
  readInsert (bytes "weather") statement = some (weather.map r.column)

/-! ## The statements -/

/-- `queryInsert` hands a C string to the library. -/
def queryInsert (query db : List Byte) : List Byte :=
  cstr (bytes "INSERT INTO " ++ db ++ bytes "  VALUES(" ++ (query ++ bytes ");"))

/-- `ownet_handler`; the numbers are strings of the server or printed floats. -/
def ownetInsert (now : Ptime) (id : List Byte) (temperature lowtemp hightemp : NumberText)
    (scale : List Byte) : List Byte :=
  bytes "INSERT INTO weather VALUES(" ++
  (bytes "'" ++ id ++ bytes "'") ++
  (bytes ", " ++ temperature.text) ++
  (bytes ", " ++ lowtemp.text) ++
  (bytes ", " ++ hightemp.text) ++
  bytes ", 0" ++
  (bytes ", " ++ bytes "'" ++ scale ++ bytes "'") ++
  (bytes ", '" ++ gettime now ++ bytes "');")

/-- `rtl433_handler`. -/
def rtl433Insert (id : List Byte) (temperature humidity : NumberText)
    (scale timestamp : List Byte) : List Byte :=
  bytes "INSERT INTO weather VALUES( '" ++ id ++ bytes "', " ++ temperature.text ++ bytes ", " ++
    bytes "0" ++ bytes ", " ++ bytes "0" ++ bytes ", " ++ humidity.text ++ bytes ", '" ++
    scale ++ bytes "', '" ++ timestamp ++ bytes "' )  ON CONFLICT DO NOTHING;; "

/-! ## Rows of seven fields -/

/-- The text `0`. -/
def zero : NumberText := ⟨bytes "0", 0, by decide +kernel⟩

theorem stores_joined_iff {statement blanks lead trail rest : List Byte} {r : Sample} {f : Field}
    {fs : List Field} (hb : blanks.all isSpace = true) (hl : lead.all isSpace = true)
    (ht : trail.all isSpace = true) (hend : isEnd rest = true)
    (hs : statement = bytes "INSERT INTO " ++ bytes "weather" ++ bytes " " ++
      (blanks ++ (bytes "VALUES(" ++ (lead ++ (joined (f :: fs) ++ (trail ++ close :: rest))))))
    (hp : ∀ g ∈ f :: fs, g.Plain) (hv : weather.map r.column = (f :: fs).map Field.value) :
    Stores statement r ↔ ∀ g ∈ f :: fs, g.Safe := by
  rw [Stores, hs, readInsert_eq_some_iff _ hb, hv]
  simp only [readValues_iff hl ht rest f fs hp]
  constructor
  · intro h
    obtain ⟨r, ⟨hsafe, -⟩, -⟩ := h
    exact hsafe
  · intro h
    exact ⟨rest, ⟨h, rfl⟩, hend⟩

/-- The low temperature stands in the column of the high one, and the humidity is 0. -/
theorem ownet_stores_iff (now : Ptime) (id : List Byte) (t low high : NumberText) (humidity : Rat)
    (scale : List Byte) :
    Stores (ownetInsert now id t low high scale)
        ⟨id, t.value, low.value, high.value, humidity, scale, gettime now⟩ ↔
      low.value = high.value ∧ humidity = 0 ∧ quote ∉ id ∧ quote ∉ scale := by
  have hjoined : ownetInsert now id t low high scale =
      bytes "INSERT INTO " ++ bytes "weather" ++ bytes " " ++ ([] ++ (bytes "VALUES(" ++ ([] ++
        (joined [.text id, numberField t t.value, numberField low high.value,
          numberField high low.value, numberField zero humidity, .text scale,
          .text (gettime now)] ++ ([] ++ close :: bytes ";"))))) := by
    simp [ownetInsert, joined_cons, joined_singleton, Field.written, numberField, zero, bytes,
      quote, comma, close]
  rw [stores_joined_iff rfl rfl rfl (by decide) hjoined (by simp [numberField_plain]) rfl]
  simp only [List.forall_mem_cons, Field.safe_text, numberField_safe_iff]
  constructor
  · intro h
    obtain ⟨hid, -, hlow, -, hhum, hscale, -⟩ := h
    exact ⟨hlow, hhum.symm, hid, hscale⟩
  · intro h
    obtain ⟨hlow, hhum, hid, hscale⟩ := h
    exact ⟨hid, trivial, hlow, hlow.symm, hhum.symm, hscale, quote_not_mem_gettime now, by simp⟩

/-- Both extremes are written as 0. -/
theorem rtl433_stores_iff (id : List Byte) (t humidity : NumberText) (low high : Rat)
    (scale timestamp : List Byte) :
    Stores (rtl433Insert id t humidity scale timestamp)
        ⟨id, t.value, low, high, humidity.value, scale, timestamp⟩ ↔
      low = 0 ∧ high = 0 ∧ quote ∉ id ∧ quote ∉ scale ∧ quote ∉ timestamp := by
  have hjoined : rtl433Insert id t humidity scale timestamp =
      bytes "INSERT INTO " ++ bytes "weather" ++ bytes " " ++ ([] ++ (bytes "VALUES(" ++ ([32] ++
        (joined [.text id, numberField t t.value, numberField zero high, numberField zero low,
          numberField humidity humidity.value, .text scale, .text timestamp] ++
          ([32] ++ close :: bytes "  ON CONFLICT DO NOTHING;; "))))) := by
    simp [rtl433Insert, joined_cons, joined_singleton, Field.written, numberField, zero, bytes,
      quote, comma, close]
  rw [stores_joined_iff rfl rfl rfl (by decide) hjoined (by simp [numberField_plain]) rfl]
  simp only [List.forall_mem_cons, Field.safe_text, numberField_safe_iff]
  constructor
  · intro h
    obtain ⟨hid, -, hhigh, hlow, -, hscale, htime, -⟩ := h
    exact ⟨hlow.symm, hhigh.symm, hid, hscale, htime⟩
  · intro h
    obtain ⟨hlow, hhigh, hid, hscale, htime⟩ := h
    exact ⟨hid, trivial, hhigh.symm, hlow.symm, trivial, hscale, htime, by simp⟩

/-! ## Six values -/

theorem nul_not_mem_toString (x : CFloat) : NUL ∉ x.toString := by
  intro h
  exact absurd (List.all_eq_true.mp (isNumeral_toString x) NUL h) (by decide)

/-- The fields in front of the scale. -/
def front (temp : Temperature CFloat) (t high low : Rat) : List Field :=
  [.text temp.id, floatField temp.temp t, floatField temp.hightemp high,
    floatField temp.lowtemp low]

theorem queryInsert_front (now : Ptime) (temp : Temperature CFloat) (t high low : Rat)
    (hid : NUL ∉ temp.id) :
    ∃ u, cstr (formatTemperature now temp ++ bytes ");") =
      ahead (front temp t high low) (quote :: u) := by
  have hfront : NUL ∉ ahead (front temp t high low) [] := by
    have hq : NUL ≠ quote := by decide
    have hc : NUL ≠ comma := by decide
    have hb : NUL ≠ 32 := by decide
    simp [front, Field.written, floatField, nul_not_mem_toString, hid, hq, hc, hb]
  refine ⟨cstr (temp.scale :: (bytes "', '" ++ gettime now ++ bytes "');")), ?_⟩
  rw [ahead_append, show ∀ s, quote :: cstr s = cstr (quote :: s) from fun s => rfl,
    ← cstr_append hfront]
  simp [formatTemperature, front, Field.written, floatField, bytes, quote, comma]

/-- Whatever the id holds, the scale stands where the humidity belongs. -/
theorem queryInsert_never_stores (now : Ptime) (temp : Temperature CFloat)
    (t low high humidity : Rat) (scale time : List Byte) :
    ¬ Stores (queryInsert (formatTemperature now temp) (bytes "weather"))
      ⟨temp.id, t, low, high, humidity, scale, time⟩ := by
  have hstatement : queryInsert (formatTemperature now temp) (bytes "weather") =
      bytes "INSERT INTO " ++ bytes "weather" ++ bytes " " ++ ([32] ++ (bytes "VALUES(" ++
        cstr (formatTemperature now temp ++ bytes ");"))) := by
    have hword : NUL ∉ bytes "INSERT INTO " ++ bytes "weather" ++ bytes "  VALUES(" := by decide
    rw [queryInsert, cstr_append hword]
    simp [bytes]
  intro h
  rw [Stores, hstatement, readInsert_eq_some_iff _ rfl] at h
  obtain ⟨r, hread, -⟩ := h
  have hid : NUL ∉ temp.id := by
    intro hn
    have hquote : cstr (formatTemperature now temp ++ bytes ");") =
        quote :: cstr (formatTemperature now temp ++ bytes ");").tail := rfl
    rw [hquote] at hread
    exact nul_not_mem_cstr _ (mem_of_readTuple hread hn)
  obtain ⟨u, hu⟩ := queryInsert_front now temp t high low hid
  have hplain : ∀ g ∈ front temp t high low, g.Plain := by simp [front, floatField_plain]
  rw [hu] at hread
  obtain ⟨m, hrest⟩ := readTuple_skip hplain hread
  exact readTuple_text hrest

/-! ## All three -/

/-- 50 degrees, between 51 and 52 so far. -/
def warm : Sample :=
  ⟨bytes "67C6697351FF", 50, 51, 52, 0, bytes "F", gettime morning⟩

def fifty : NumberText := ⟨bytes "50", 50, by decide +kernel⟩
def fiftyOne : NumberText := ⟨bytes "51", 51, by decide +kernel⟩
def fiftyTwo : NumberText := ⟨bytes "52", 52, by decide +kernel⟩

def warmRecord : Temperature CFloat :=
  ⟨bytes "67C6697351FF", .finite false 50 (by decide), .finite false 51 (by decide),
    .finite false 52 (by decide), 70⟩

theorem warm_never_stored :
    ¬ Stores (queryInsert (formatTemperature morning warmRecord) (bytes "weather")) warm ∧
    ¬ Stores (ownetInsert morning warm.id fifty fiftyOne fiftyTwo warm.scale) warm ∧
    ¬ Stores (rtl433Insert warm.id fifty zero warm.scale warm.time) warm := by
  refine ⟨queryInsert_never_stores morning warmRecord 50 51 52 0 _ _, ?_, ?_⟩
  · intro h
    have hlow := ((ownet_stores_iff morning warm.id fifty fiftyOne fiftyTwo 0 warm.scale).mp h).1
    exact absurd hlow (by decide)
  · intro h
    have hlow := ((rtl433_stores_iff warm.id fifty zero 51 52 warm.scale warm.time).mp h).1
    exact absurd hlow (by decide)

/-- The daemon never stores a reading. `ownet.py` stores one without humidity whose extremes
are equal, `rtl433.py` one whose extremes are 0, and neither if a text holds a quote. -/
theorem writers_store_iff (now : Ptime) :
    (∀ temp t low high humidity scale time,
      ¬ Stores (queryInsert (formatTemperature now temp) (bytes "weather"))
        ⟨temp.id, t, low, high, humidity, scale, time⟩) ∧
    (∀ id t low high humidity scale,
      Stores (ownetInsert now id t low high scale)
          ⟨id, t.value, low.value, high.value, humidity, scale, gettime now⟩ ↔
        low.value = high.value ∧ humidity = 0 ∧ quote ∉ id ∧ quote ∉ scale) ∧
    (∀ id t humidity low high scale timestamp,
      Stores (rtl433Insert id t humidity scale timestamp)
          ⟨id, t.value, low, high, humidity.value, scale, timestamp⟩ ↔
        low = 0 ∧ high = 0 ∧ quote ∉ id ∧ quote ∉ scale ∧ quote ∉ timestamp) :=
  ⟨queryInsert_never_stores now, ownet_stores_iff now, rtl433_stores_iff⟩

end PowerGuru.Store.Writers
