import PowerGuru.Net.XmlBarrier
import PowerGuru.Python.Sensor

/-!
# What the other daemon says of its sensors

`remote.py` answers LIST with the elements that `makeXML` writes. It writes them with `%r`, and the
type of a sensor has a `repr` in angle brackets.
-/
namespace PowerGuru.Python.SensorXml

open Lib.Bytes Lib.AssocMap Lib.PyRepr Net.XmlText Net.XmlBarrier Sensor

section
variable (printable : Char → Bool)

/-! ## The text -/

def SensorDevice.makeXML (s : SensorDevice) : Text :=
  "<ID>".toList ++ s.id.repr printable ++ "</ID><ALIAS>".toList ++ s.aliasName.repr printable ++
    "</ALIAS><LOCATION>".toList ++ s.location.repr printable ++ "</LOCATION><CHANNEL>".toList ++
    s.channel.repr printable ++ "</CHANNEL><DEVICE>".toList ++ s.device.repr printable ++
    "</DEVICE><SENSOR>".toList ++ s.sensor.repr printable ++ "</SENSOR>".toList

/-- The values of the dictionary. A key stays where it was first put. -/
def items (table : List Row) : List SensorDevice :=
  ((table.map fun r => PyObj.str r.id).eraseDups).filterMap (Sensors.init table).get

def Sensors.makeXML (table : List Row) : Text :=
  (items table).flatMap (SensorDevice.makeXML printable)

/-- `encode('utf-8')`. -/
def utf8 (s : Text) : List Byte := s.flatMap String.utf8EncodeChar

/-- `text is None or text.upper() == "ALL"`. Only the letters of ASCII have these capitals. -/
def AsksAll (text : Option Text) : Prop :=
  ∀ t, text = some t → t.map Char.toUpper = "ALL".toList

instance (text : Option Text) : Decidable (AsksAll text) :=
  match text with
  | none => isTrue fun _ h => absurd h (by simp)
  | some t => decidable_of_iff (t.map Char.toUpper = "ALL".toList)
      ⟨fun h _ he => Option.some.inj he ▸ h, fun h => h t rfl⟩

/-- `list_command`: what is sent, unless `xmldata` was never set. -/
def listCommand (table : List Row) (text : Option Text) : Option (List Byte) :=
  if AsksAll text then some (utf8 (Sensors.makeXML printable table))
  else
    match (Sensors.init table).get (.str (text.getD [])) with
    | some s => some (utf8 (SensorDevice.makeXML printable s))
    | none => none

/-! ## Its end -/

/-- The text stands in a document, with anything in front of it and nothing behind it that could
end what is before. -/
def Readable (text : List Byte) : Prop :=
  ∃ front behind, EndsNothing behind ∧ (document (front ++ text ++ behind)).isSome = true

/-- The name in the tag that the type is. -/
def typeName (t : SensorType) : List Byte := bytes "SensorType." ++ utf8 t.name ++ bytes ":"

/-- The end of the text about a sensor, from the type on. -/
def typeText (t : SensorType) : List Byte :=
  60 :: (typeName t ++ 32 :: UInt8.ofNat (48 + t.value) :: 62 :: bytes "</SENSOR>")

theorem utf8_append (s t : Text) : utf8 (s ++ t) = utf8 s ++ utf8 t := List.flatMap_append

/-- The `repr` of a member does not ask what is printable. -/
theorem utf8_type (t : SensorType) :
    utf8 ((PyObj.sensorType t).repr printable ++ "</SENSOR>".toList) = typeText t := by
  have hsame : (PyObj.sensorType t).repr printable = (PyObj.sensorType t).repr fun _ => true := rfl
  rw [hsame]
  cases t <;> decide +kernel

theorem typeName_bytes (t : SensorType) : (typeName t).all isNameByte = true := by
  cases t <;> decide +kernel

theorem typeText_bytes (t : SensorType) :
    (typeText t).tail.head?.all (fun b => b != 33 && b != 47 && b != 63) = true ∧
      45 ∉ typeText t ∧ 93 ∉ typeText t ∧ 63 ∉ typeText t := by
  cases t <;> decide +kernel

variable {printable}

theorem makeXML_ends (printable : Char → Bool) {s : SensorDevice} {t : SensorType}
    (h : s.sensor = .sensorType t) :
    ∃ front, utf8 (SensorDevice.makeXML printable s) = front ++ typeText t := by
  have hsplit : ∃ front, SensorDevice.makeXML printable s =
      front ++ (s.sensor.repr printable ++ "</SENSOR>".toList) := ⟨_, List.append_assoc _ _ _⟩
  obtain ⟨front, hfront⟩ := hsplit
  exact ⟨utf8 front, by rw [hfront, utf8_append, h, utf8_type]⟩

theorem barrier_typeText (t : SensorType) {behind : List Byte} (h : EndsNothing behind) :
    Barrier (typeText t ++ behind) := by
  obtain ⟨hopens, hno⟩ := typeText_bytes t
  have hdigit : UInt8.ofNat (48 + t.value) ∈ bytes "0123456789" := by cases t <;> decide
  refine ⟨rfl, hopens, h.append hno, ?_⟩
  have htext : (typeText t ++ behind).tail =
      typeName t ++ 32 :: UInt8.ofNat (48 + t.value) :: 62 :: (bytes "</SENSOR>" ++ behind) := by
    simp [typeText]
  rw [htext]
  exact no_element_digit (typeName_bytes t) hdigit _

/-! ## Answers -/

theorem not_readable {text front : List Byte} {t : SensorType} (h : text = front ++ typeText t) :
    ¬ Readable text := by
  rintro ⟨before, behind, hbehind, hdoc⟩
  have htext : before ++ text ++ behind = (before ++ front) ++ (typeText t ++ behind) := by
    simp [h]
  rw [htext, (barrier_typeText t hbehind).document_eq_none] at hdoc
  exact absurd hdoc (by simp)

/-- What comes from the table has a member for its type. -/
theorem init_sensor {table : List Row} {id : PyObj} {s : SensorDevice}
    (h : (Sensors.init table).get id = some s) : ∃ t, s.sensor = .sensorType t := by
  rcases mem_of_mem_assignAll (mem_of_lookup h) with hnil | hrow
  · exact absurd hnil List.not_mem_nil
  · obtain ⟨r, -, hr⟩ := List.mem_map.mp hrow
    have hs : SensorDevice.init r.fetched.data = s := congrArg Prod.snd hr
    exact ⟨_, hs ▸ fetched_sensor r⟩

theorem one_not_readable {table : List Row} {id : PyObj} {s : SensorDevice}
    (h : (Sensors.init table).get id = some s) :
    ¬ Readable (utf8 (SensorDevice.makeXML printable s)) := by
  obtain ⟨t, ht⟩ := init_sensor h
  obtain ⟨front, hfront⟩ := makeXML_ends printable ht
  exact not_readable hfront

theorem get_isSome_iff (table : List Row) (id : Text) :
    ((Sensors.init table).get (.str id)).isSome = true ↔ ∃ r ∈ table, r.id = id := by
  have hkey : ∀ r : Row, (r.fetched.entry.1 == PyObj.str id) = true ↔ r.id = id := by
    intro r
    rw [beq_iff_eq]
    exact ⟨fun h => PyObj.str.inj h, fun h => congrArg PyObj.str h⟩
  rw [Sensors.get, Sensors.init, lookup_assignAll, List.lookup_nil, Option.or_none,
    Option.isSome_map, List.getLast?_isSome, ← List.length_pos_iff, List.length_filter_pos_iff]
  simp only [List.mem_map, exists_exists_and_eq_and, hkey]

theorem items_eq_nil_iff (table : List Row) : items table = [] ↔ table = [] := by
  constructor
  · intro h
    by_contra hne
    obtain ⟨r, hr⟩ := List.exists_mem_of_ne_nil table hne
    have hsome := (get_isSome_iff table r.id).mpr ⟨r, hr, rfl⟩
    rw [items, List.filterMap_eq_nil_iff] at h
    have hnone := h (.str r.id) (List.mem_eraseDups.mpr (List.mem_map.mpr ⟨r, hr, rfl⟩))
    rw [hnone] at hsome
    exact absurd hsome (by simp)
  · rintro rfl
    rfl

theorem all_not_readable {table : List Row} (h : table ≠ []) :
    ¬ Readable (utf8 (Sensors.makeXML printable table)) := by
  have hne : items table ≠ [] := fun he => h ((items_eq_nil_iff table).mp he)
  obtain ⟨before, s, hitems⟩ := (List.eq_nil_or_concat _).resolve_left hne
  rw [List.concat_eq_append] at hitems
  have hs : s ∈ items table := hitems ▸ List.mem_append_right _ (List.mem_singleton_self s)
  obtain ⟨id, -, hget⟩ := List.mem_filterMap.mp hs
  obtain ⟨t, ht⟩ := init_sensor hget
  obtain ⟨front, hfront⟩ := makeXML_ends printable ht
  have htext : utf8 (Sensors.makeXML printable table) =
      utf8 (before.flatMap (SensorDevice.makeXML printable)) ++ front ++ typeText t := by
    rw [Sensors.makeXML, hitems, List.flatMap_append, List.flatMap_singleton, utf8_append, hfront,
      List.append_assoc]
  exact not_readable htext

theorem readable_nil : Readable [] :=
  ⟨bytes "<SENSORS/>", [], by decide, by decide⟩

/-- Nothing is sent for an `id` that no row has, and of what is sent only the answer of an empty
table can be read. -/
theorem answer_readable_iff (table : List Row) (text : Option Text) :
    (listCommand printable table text = none ↔
      ¬ AsksAll text ∧ ∀ r ∈ table, r.id ≠ text.getD []) ∧
    ((∃ answer, listCommand printable table text = some answer ∧ Readable answer) ↔
      AsksAll text ∧ table = []) := by
  by_cases hall : AsksAll text
  · rw [listCommand, if_pos hall]
    refine ⟨by simp [hall], ?_⟩
    constructor
    · rintro ⟨answer, hanswer, hread⟩
      rw [← Option.some.inj hanswer] at hread
      by_contra hne
      exact all_not_readable (fun he => hne ⟨hall, he⟩) hread
    · rintro ⟨-, rfl⟩
      exact ⟨_, rfl, readable_nil⟩
  rw [listCommand, if_neg hall]
  have hsome := get_isSome_iff table (text.getD [])
  cases hget : (Sensors.init table).get (.str (text.getD [])) with
  | none =>
    rw [hget] at hsome
    simp only [Option.isSome_none, Bool.false_eq_true, false_iff, not_exists, not_and] at hsome
    simpa [hall] using hsome
  | some s =>
    rw [hget] at hsome
    obtain ⟨r, hr, hid⟩ := hsome.mp rfl
    constructor
    · simp only [reduceCtorEq, false_iff, not_and, not_forall]
      exact fun _ => ⟨r, hr, not_not.mpr hid⟩
    · constructor
      · rintro ⟨answer, hanswer, hread⟩
        rw [← Option.some.inj hanswer] at hread
        exact absurd hread (one_not_readable hget)
      · exact fun h => absurd h.1 hall

end

end PowerGuru.Python.SensorXml
