import PowerGuru.Store.Writers

/-!
# `powerguru.sql`

The tables that the script makes. Of a statement only that is looked at which keeps its row out
of all of them: the name of the table, the number of the values, texts that are too long and
labels that are none.
-/
namespace PowerGuru.Store.Schema

open Lib.Bytes Lib.Strtol Lib.Numeral Lib.SqlLiteral Devices.Sensors Database Writers

inductive ColumnType where
  | integer
  | float
  | varchar (n : Nat)
  | char (n : Nat)
  | enumeration (labels : List (List Byte))
  | timestamp

structure Relation where
  name : List Byte
  columns : List (List Byte × ColumnType)

/-! ## The script -/

def channelType : ColumnType :=
  .enumeration [bytes "", bytes "A", bytes "B", bytes "C", bytes "X"]

def triggerType : ColumnType :=
  .enumeration [bytes "FIRE_STARTED", bytes "FIRE_OUT", bytes "DOOR_OPEN", bytes "DOOR_CLOSED",
    bytes "WINDOW_OPEN", bytes "WINDOW_CLOSED", bytes "GENERIC", bytes "DEVICE_ON",
    bytes "DEVICE_OFF", bytes "HOME_LEAVE", bytes "HOME_ARRIVE", bytes "ADD_FIREWOOD"]

def voltType : ColumnType := .enumeration [bytes "AC", bytes "DC"]

def deviceType : ColumnType :=
  .enumeration [bytes "UNKNOWN", bytes "ONEWIRE", bytes "OWNET", bytes "RTL433", bytes "RTLSDR",
    bytes "USB", bytes "SERIAL", bytes "GPIO"]

def sensorType : ColumnType :=
  .enumeration [bytes "UNKNOWN", bytes "ACVOLTAGE", bytes "DCVOLTAGE", bytes "AUTH",
    bytes "BATTERY", bytes "POWER", bytes "CLOCK", bytes "TEMPERATURE", bytes "MOISTURE",
    bytes "UNSUPPORTED"]

def meters : Relation where
  name := bytes "meters"
  columns :=
    [(bytes "unit", .integer), (bytes "charge_amps", .integer), (bytes "ac_load_amps", .integer),
      (bytes "battery_volts", .float), (bytes "ac_volts_out", .float),
      (bytes "ac1_volts_in", .float), (bytes "ac2_volts_in", .float),
      (bytes "pv_amps_in", .integer), (bytes "pv_volts_in", .float), (bytes "buy_amps", .integer),
      (bytes "sell_amps", .integer), (bytes "daily_kwh", .float), (bytes "hertz", .integer),
      (bytes "battery_tempcomp", .float)]

def sensors : Relation where
  name := bytes "sensors"
  columns :=
    [(bytes "id", .varchar 12), (bytes "alias", .varchar 24), (bytes "location", .varchar 24),
      (bytes "device", deviceType), (bytes "sensor", sensorType), (bytes "channel", channelType)]

def triggers : Relation where
  name := bytes "triggers"
  columns :=
    [(bytes "id", .varchar 12), (bytes "name", .varchar 24), (bytes "trigger", triggerType),
      (bytes "timestamp", .timestamp)]

def weather : Relation where
  name := bytes "weather"
  columns :=
    [(bytes "id", .varchar 12), (bytes "temperature", .float), (bytes "temphigh", .float),
      (bytes "templow", .float), (bytes "humidity", .float), (bytes "scale", .char 1),
      (bytes "timestamp", .timestamp)]

def power : Relation where
  name := bytes "power"
  columns :=
    [(bytes "id", .char 16), (bytes "current", .float), (bytes "volts", .float),
      (bytes "type", voltType), (bytes "timestamp", .timestamp)]

def powerguru : List Relation := [meters, sensors, triggers, weather, power]

/-! ## What the server may take -/

/-- The first byte of a character. -/
def leads (b : Byte) : Bool := b < 128 || 192 ≤ b

/-- Beyond so many characters there are blanks only, which are cut off. -/
def fitsInto (n : Nat) (s : List Byte) : Bool := ((s.filter leads).drop n).all fun b => b == 32

/-- What the type does not take is refused; a text for a number or a time is not looked into. -/
def ColumnType.mayHold : ColumnType → Value → Bool
  | .varchar n, .text s => fitsInto n s
  | .char n, .text s => fitsInto n s
  | .enumeration labels, .text s => labels.any fun l => decide (l = s)
  | .enumeration _, .number _ => false
  | .timestamp, .number _ => false
  | _, _ => true

/-- The columns without a value keep their defaults. -/
def Relation.mayTake (t : Relation) (vs : List Value) : Bool :=
  decide (vs.length ≤ t.columns.length) && (t.columns.zip vs).all fun p => p.1.2.mayHold p.2

/-- The statement is not refused for the reasons above. -/
def MayAccept (statement : List Byte) : Prop :=
  ∃ t ∈ powerguru, ∃ vs, readInsert t.name statement = some vs ∧ t.mayTake vs = true

/-! ## The statements of the daemon -/

theorem queryInsert_eq (query : List Byte) {db : List Byte} (hdb : NUL ∉ db) :
    queryInsert query db =
      bytes "INSERT INTO " ++ db ++ bytes " " ++ ([32] ++ (bytes "VALUES(" ++
        cstr (query ++ bytes ");"))) := by
  have hword : NUL ∉ bytes "INSERT INTO " ++ db ++ bytes "  VALUES(" := by
    simpa [bytes, NUL] using hdb
  rw [queryInsert, cstr_append hword]
  simp [bytes]

/-- A statement is for the table that it names. -/
theorem name_of_readInsert {query db table : List Byte} {vs : List Value} (hdb : NUL ∉ db)
    (hdb' : 32 ∉ db) (ht : 32 ∉ table) (h : readInsert table (queryInsert query db) = some vs) :
    table = db := by
  cases hs : strip (bytes "INSERT INTO " ++ table ++ bytes " ") (queryInsert query db) with
  | none =>
    rw [readInsert, hs] at h
    exact absurd h (by simp)
  | some s =>
    have heq := strip_eq_some_iff.mp hs
    rw [queryInsert_eq query hdb] at heq
    simp only [List.append_assoc] at heq
    have hrest := List.append_cancel_left heq
    exact (append_cons_inj hdb' ht hrest).1.symm

theorem blank_not_mem_name : ∀ t ∈ powerguru, 32 ∉ t.name := by decide

/-- There is no such table. -/
theorem not_mayAccept_missing {query db : List Byte} (hdb : NUL ∉ db) (hdb' : 32 ∉ db)
    (hmissing : ∀ t ∈ powerguru, t.name ≠ db) : ¬ MayAccept (queryInsert query db) := by
  intro h
  obtain ⟨t, ht, vs, hread, -⟩ := h
  exact hmissing t ht (name_of_readInsert hdb hdb' (blank_not_mem_name t ht) hread)

theorem not_mayAccept_battery (query : List Byte) :
    ¬ MayAccept (queryInsert query (bytes "battery")) :=
  not_mayAccept_missing (by decide) (by decide) (by decide)

theorem not_mayAccept_temperature (query : List Byte) :
    ¬ MayAccept (queryInsert query (bytes "temperature")) :=
  not_mayAccept_missing (by decide) (by decide) (by decide)

/-! ## The weather table -/

theorem nul_not_mem_gettime (now : Ptime) : NUL ∉ gettime now := by
  have hpad : ∀ {k n : Nat}, n < 10^k → NUL ∉ pad k n := by
    intro k n hn h
    exact absurd (isDigit_of_mem_pad hn h) (by decide)
  have hsep : ∀ s ∈ ["-", " ", ":"], NUL ∉ bytes s := by decide
  simp only [List.forall_mem_cons] at hsep
  obtain ⟨hdash, hblank, hcolon, -⟩ := hsep
  simp only [gettime, List.mem_append, not_or]
  exact ⟨⟨⟨⟨⟨⟨⟨⟨⟨⟨hpad now.year_lt, hdash⟩, hpad now.month_lt⟩, hdash⟩, hpad now.day_lt⟩, hblank⟩,
    hpad now.hour_lt⟩, hcolon⟩, hpad now.minute_lt⟩, hcolon⟩, hpad now.second_lt⟩

/-- A time begins with two digits. -/
theorem gettime_digits (now : Ptime) :
    ∃ a b rest, gettime now = a :: b :: rest ∧ isDigit a = true ∧ isDigit b = true := by
  obtain ⟨rest, hrest⟩ : pad 4 now.year <+: gettime now := by
    simp only [gettime, List.append_assoc]
    exact List.prefix_append _ _
  have hdigits : ∀ b ∈ pad 4 now.year, isDigit b = true :=
    fun b hb => isDigit_of_mem_pad now.year_lt hb
  obtain ⟨a, b, c, hp⟩ : ∃ a b c, pad 4 now.year = a :: b :: c := ⟨_, _, _, rfl⟩
  rw [hp, List.forall_mem_cons, List.forall_mem_cons] at hdigits
  exact ⟨a, b, c ++ rest, by rw [← hrest, hp]; rfl, hdigits.1, hdigits.2.1⟩

/-- A digit is a character of its own and ends nothing. -/
theorem digit_plain {b : Byte} (h : isDigit b = true) :
    leads b = true ∧ isSpace b = false ∧ b ≠ 32 ∧ b ≠ comma ∧ b ≠ close ∧ b ≠ quote := by
  simp only [isDigit, Bool.and_eq_true, decide_eq_true_eq, UInt8.le_iff_toNat_le] at h
  simp only [leads, isSpace, comma, close, quote, Bool.or_eq_true, Bool.or_eq_false_iff,
    Bool.and_eq_false_iff, decide_eq_true_eq, decide_eq_false_iff_not, beq_eq_false_iff_ne, ne_eq,
    UInt8.le_iff_toNat_le, UInt8.lt_iff_toNat_lt, ← UInt8.toNat_inj]
  simp only [UInt8.reduceToNat] at h ⊢
  omega

/-- A time is too long for a scale. -/
theorem gettime_not_scale (now : Ptime) : fitsInto 1 (gettime now) = false := by
  obtain ⟨a, b, rest, htime, ha, hb⟩ := gettime_digits now
  simp [fitsInto, htime, (digit_plain ha).1, (digit_plain hb).1, (digit_plain hb).2.2.1]

theorem front_whole {temp : Temperature CFloat} (hid : quote ∉ temp.id) :
    ∀ g ∈ front temp 0 0 0, g.Plain ∧ g.Whole := by
  simp only [front, List.forall_mem_cons, floatField_plain, Field.plain_text, true_and]
  simp [Field.Whole, hid, floatField]

/-- What is read behind the three temperatures. -/
theorem behind_front {now : Ptime} {temp : Temperature CFloat} (hid : NUL ∉ temp.id) :
    cstr (formatTemperature now temp ++ bytes ");") =
      ahead (front temp 0 0 0)
        (quote :: cstr (temp.scale :: (bytes "', '" ++ gettime now ++ bytes "');"))) := by
  obtain ⟨u, hu⟩ := queryInsert_front now temp 0 0 0 hid
  rw [ahead_append] at hu
  have hfront : NUL ∉ ahead (front temp 0 0 0) [] := by
    intro hn
    have hall := nul_not_mem_cstr (formatTemperature now temp ++ bytes ");")
    rw [hu] at hall
    exact hall (List.mem_append_left _ hn)
  rw [ahead_append, show ∀ s, quote :: cstr s = cstr (quote :: s) from fun s => rfl,
    ← cstr_append hfront]
  simp [formatTemperature, front, Field.written, floatField, bytes, quote, comma]

/-- The scale, if it is read as one, stands in the place of the humidity, and the time in that of
the scale. -/
theorem readTuple_scale {now : Ptime} {scale : Byte} {n : Nat} {vs : List Value} {r : List Byte}
    (h : readTuple n (quote :: cstr (scale :: (bytes "', '" ++ gettime now ++ bytes "');"))) =
      some (vs, r)) : vs = [.text [scale], .text (gettime now)] := by
  obtain ⟨m, rfl⟩ := readTuple_pos h
  by_cases hnul : scale = NUL
  · -- The statement ends behind the opening quote.
    have hcut : cstr (scale :: (bytes "', '" ++ gettime now ++ bytes "');")) = [] := by
      rw [hnul]
      rfl
    rw [hcut] at h
    exact absurd h (by simp [readTuple, readLiteral, readText, isSpace, quote])
  · have hall : NUL ∉ scale :: (bytes "', '" ++ gettime now ++ bytes "');") := by
      have hrest : NUL ∉ bytes "', '" ++ gettime now ++ bytes "');" := by
        simp only [List.mem_append, not_or]
        exact ⟨⟨by decide, nul_not_mem_gettime now⟩, by decide⟩
      exact List.not_mem_cons_of_ne_of_not_mem (Ne.symm hnul) hrest
    rw [cstr_of_not_mem hall] at h
    by_cases hquote : scale = quote
    · -- A second quote stands for one, so the time stands where a comma should be.
      obtain ⟨a, b, rest, htime, ha, -⟩ := gettime_digits now
      obtain ⟨-, hspace, -, hcomma, hclose, hq⟩ := digit_plain ha
      have hlit : readLiteral (quote :: quote :: (bytes "', '" ++ gettime now ++ bytes "');")) =
          some (.text [quote, comma, 32], gettime now ++ bytes "');") := by
        rw [htime]
        simp [readLiteral, readText, bytes, quote, comma] at hq ⊢
        simp [hq]
      have hdrop : (quote :: quote :: (bytes "', '" ++ gettime now ++ bytes "');")).dropWhile
          isSpace = quote :: quote :: (bytes "', '" ++ gettime now ++ bytes "');") := rfl
      rw [hquote, readTuple, hdrop, hlit, htime] at h
      simp [hspace, hcomma, hclose] at h
    · have hscale : (Field.text [scale]).Safe := by simpa using Ne.symm hquote
      have htime : (Field.text (gettime now)).Safe := quote_not_mem_gettime now
      have hblank : ([] : List Byte).all isSpace = true := rfl
      have hfirst : readLiteral ((quote :: scale :: (bytes "', '" ++ gettime now ++
          bytes "');")).dropWhile isSpace) =
            some (.text [scale], comma :: 32 :: quote :: (gettime now ++ bytes "');")) := by
        have hlit := (readLiteral_iff (Field.plain_text [scale])
          (ended_comma (32 :: quote :: (gettime now ++ bytes "');")))).mpr ⟨hscale, rfl⟩
        simpa [Field.written, Field.value, bytes, quote, comma, isSpace] using hlit
      have hlast : readLiteral ((quote :: (gettime now ++ bytes "');")).dropWhile isSpace) =
          some (.text (gettime now), [] ++ close :: bytes ";") := by
        have hlit := (readLiteral_iff (Field.plain_text (gettime now))
          (ended_trail hblank (bytes ";"))).mpr ⟨htime, rfl⟩
        simpa [Field.written, Field.value, bytes, quote, close, isSpace] using hlit
      rw [readTuple_more hfirst, readTuple_blank] at h
      obtain ⟨⟨ws, r'⟩, hrest, he⟩ := Option.map_eq_some_iff.mp h
      obtain ⟨k, rfl⟩ := readTuple_pos hrest
      rw [readTuple_last hblank hlast] at hrest
      obtain ⟨rfl, -⟩ := Prod.mk.inj (Option.some.inj hrest)
      exact (Prod.mk.inj he).1.symm

theorem not_mayAccept_weather (now : Ptime) {temp : Temperature CFloat} (hnul : NUL ∉ temp.id)
    (hid : quote ∉ temp.id) :
    ¬ MayAccept (queryInsert (formatTemperature now temp) (bytes "weather")) := by
  intro h
  obtain ⟨t, ht, vs, hread, htake⟩ := h
  have hname := name_of_readInsert (by decide) (by decide) (blank_not_mem_name t ht) hread
  have hweather : t = weather := by
    simp only [powerguru, List.mem_cons, List.not_mem_nil, or_false] at ht
    rcases ht with rfl | rfl | rfl | rfl | rfl
    all_goals first | rfl | exact absurd hname (by decide)
  rw [hweather, queryInsert_eq _ (by decide)] at hread
  obtain ⟨r, hvalues, -⟩ := (readInsert_eq_some_iff _ rfl _).mp hread
  rw [readValues, behind_front hnul] at hvalues
  obtain ⟨us, ws, m, rfl, hlen, hrest⟩ := readTuple_behind (front_whole hid) hvalues
  rw [readTuple_scale hrest, hweather] at htake
  match us, hlen with
  | [a, b, c, d], _ =>
    simp [Relation.mayTake, weather, ColumnType.mayHold, gettime_not_scale] at htake

/-- What `ownet.py` writes of equal extremes is not refused. -/
theorem mayAccept_ownet (now : Ptime) {id scale : List Byte} (t extreme : NumberText)
    (hid : quote ∉ id) (hfits : fitsInto 12 id = true) (hscale : quote ∉ scale)
    (hone : fitsInto 1 scale = true) :
    MayAccept (ownetInsert now id t extreme extreme scale) := by
  have hread := (ownet_stores_iff now id t extreme extreme 0 scale).mpr ⟨rfl, rfl, hid, hscale⟩
  refine ⟨weather, by simp [powerguru], _, hread, ?_⟩
  simp [Relation.mayTake, weather, Writers.weather, Sample.column, ColumnType.mayHold, hfits, hone]

end PowerGuru.Store.Schema
