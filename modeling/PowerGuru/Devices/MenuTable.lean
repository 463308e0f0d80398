import PowerGuru.Devices.XantrexTable
import PowerGuru.Lib.NullableTable

/-!
# Tables filled by `MenuItem::SetItem`

Every overload of `SetItem`, a table of items filled by any of them, and what
`XantrexUI::GetItem` finds in it. Two overloads store an item behind its heading.
-/
namespace PowerGuru.Devices.MenuTable

open Lib.Bytes Lib.NullableTable Menu

/-- A call of `SetItem`. An abbreviation behind the indices is a `std::string`, or a literal,
which the compiler converts to a bool. -/
inductive Call where
  | union (label : List Byte) (x y : Int) (z : Mval) (dtype : Datatype)
  | unionNamed (label : List Byte) (x y : Int) (z : Mval) (dtype : Datatype)
      (cmdname : List Byte)
  | head (label : List Byte) (x : Int)
  | info (label : List Byte) (x y : Int)
  | named (label : List Byte) (x y : Int) (cmdname : List Byte)
  | literal (label : List Byte) (x y : Int) (cmdname : List Byte)
  | bool (label : List Byte) (x y : Int) (z : Bool)
  | boolNamed (label : List Byte) (x y : Int) (z : Bool) (cmdname : List Byte)
  | int (label : List Byte) (x y z : Int)
  | intNamed (label : List Byte) (x y z : Int) (cmdname : List Byte)
  | float (label : List Byte) (x y : Int) (z : Rat)
  | floatNamed (label : List Byte) (x y : Int) (z : Rat) (cmdname : List Byte)
  | timeNamed (label : List Byte) (x y z : Int) (cmdname : List Byte)
  deriving DecidableEq

/-- The item that the call leaves. -/
def Call.item : Call → MenuItem
  | .union label x y z dtype => setItem5 label x y z dtype
  | .unionNamed label x y z dtype cmdname => setItem6 label x y cmdname z dtype
  | .head label x => setHeading label x
  | .info label x y => setInfo label x y
  | .named label x y cmdname => setMenuitem label x y cmdname
  | .literal label x y _ => setBool label x y [] true
  | .bool label x y z => setBool label x y [] z
  | .boolNamed label x y z cmdname => setBool label x y cmdname z
  | .int label x y z => setInt label x y [] z
  | .intNamed label x y z cmdname => setInt label x y cmdname z
  | .float label x y z => setFloat label x y [] z
  | .floatNamed label x y z cmdname => setFloat label x y cmdname z
  | .timeNamed label x y z cmdname => setTime label x y cmdname z

/-- `XantrexUI::GetItem`; without an item the source dereferences an end iterator. -/
def getItem (items : List (List MenuItem)) (x y : Int) : Option MenuItem :=
  items.flatten.find? fun it => it.headidx == x && it.itemidx == y

theorem getItem_items (x y : Int) :
    XantrexTable.getItem x y = getItem XantrexTable.items x y := rfl

/-! ## What is registered -/

/-- The label and the indices of a call, and the type of its value. -/
structure Entry where
  label : List Byte
  position : Int × Int
  type : Datatype

/-- What a call says. A call with an abbreviation and no value is one for a MENUITEM. -/
def Call.entry : Call → Entry
  | .union label x y _ dtype => ⟨label, (x, y), dtype⟩
  | .unionNamed label x y _ dtype _ => ⟨label, (x, y), dtype⟩
  | .head label x => ⟨label, (x, 0), .menuhead⟩
  | .info label x y => ⟨label, (x, y), .info⟩
  | .named label x y _ => ⟨label, (x, y), .menuitem⟩
  | .literal label x y _ => ⟨label, (x, y), .menuitem⟩
  | .bool label x y _ => ⟨label, (x, y), .bool⟩
  | .boolNamed label x y _ _ => ⟨label, (x, y), .bool⟩
  | .int label x y _ => ⟨label, (x, y), .int⟩
  | .intNamed label x y _ _ => ⟨label, (x, y), .int⟩
  | .float label x y _ => ⟨label, (x, y), .float⟩
  | .floatNamed label x y _ _ => ⟨label, (x, y), .float⟩
  | .timeNamed label x y _ _ => ⟨label, (x, y), .time⟩

/-- The type that belongs to the overload the compiler takes. -/
def Call.overload : Call → Datatype
  | .literal _ _ _ _ => .bool
  | c => c.entry.type

def Call.indices (c : Call) : Int × Int := (c.item.headidx, c.item.itemidx)

/-- The item index of the call is handed on, or is 0 as the one that is stored. -/
def Call.Keeps : Call → Prop
  | .union _ _ y _ _ => y = 0
  | .info _ _ y => y = 0
  | _ => True

def Call.Literal : Call → Prop
  | .literal _ _ _ _ => True
  | _ => False

theorem item_label (c : Call) : c.item.label = c.entry.label := by
  cases c <;> rfl

theorem item_type (c : Call) : c.item.type = c.overload := by
  cases c <;> rfl

theorem keeps_iff (c : Call) : c.Keeps ↔ c.indices = c.entry.position := by
  cases c <;> simp [Call.Keeps, Call.indices, Call.item, Call.entry, setItem5, setItem6,
    setHeading, setInfo, setMenuitem, setBool, setInt, setFloat, setTime, eq_comm]

theorem overload_iff (c : Call) : c.overload = c.entry.type ↔ ¬ c.Literal := by
  cases c <;> simp [Call.overload, Call.entry, Call.Literal]

/-! ## Lookup -/

/-- Items by heading, no two of them registered under the same indices. -/
structure ItemTable where
  rows : List (List Call)
  distinct : (rows.flatten.map fun c => c.entry.position).Nodup

def ItemTable.items (t : ItemTable) : List (List MenuItem) :=
  t.rows.map fun row => row.map Call.item

def ItemTable.byPosition (t : ItemTable) : Table fun c : Call => some c.entry.position :=
  .ofNodup t.rows.flatten t.distinct

/-- The lookup gives this item, with its label and this type. -/
structure FoundAs (t : ItemTable) (c : Call) (type : Datatype) : Prop where
  found : getItem t.items c.entry.position.1 c.entry.position.2 = some c.item
  label : c.item.label = c.entry.label
  type : c.item.type = type

theorem getItem_eq (t : ItemTable) (p : Int × Int) :
    getItem t.items p.1 p.2 = (t.rows.flatten.find? fun c => c.indices == p).map Call.item := by
  rw [getItem, ItemTable.items, ← List.map_flatten, List.find?_map]
  rfl

/-- An item that is found is stored where it was looked for. -/
theorem keeps_of_found {t : ItemTable} {c : Call}
    (h : getItem t.items c.entry.position.1 c.entry.position.2 = some c.item) : c.Keeps := by
  have hp := List.find?_some h
  simp only [Bool.and_eq_true, beq_iff_eq] at hp
  exact (keeps_iff c).mpr (Prod.ext hp.1 hp.2)

theorem found_of_keeps {t : ItemTable} (hkeeps : ∀ c ∈ t.rows.flatten, c.Keeps) {c : Call}
    (hc : c ∈ t.rows.flatten) :
    getItem t.items c.entry.position.1 c.entry.position.2 = some c.item := by
  have hmap : t.rows.flatten.map Call.indices = t.rows.flatten.map fun d => d.entry.position :=
    List.map_congr_left fun d hd => (keeps_iff d).mp (hkeeps d hd)
  have hfind : t.rows.flatten.find? (fun d => d.indices == c.indices) = some c :=
    Table.find?_key (.ofNodup t.rows.flatten (hmap ▸ t.distinct)) hc
  rw [(keeps_iff c).mp (hkeeps c hc)] at hfind
  rw [getItem_eq, hfind]
  rfl

/-- An item index that is not handed on. -/
theorem indices_of_not_keeps {c : Call} (h : ¬ c.Keeps) :
    c.indices.2 = 0 ∧ c.entry.position.2 ≠ 0 := by
  cases c with
  | union label x y z dtype => exact ⟨rfl, h⟩
  | info label x y => exact ⟨rfl, h⟩
  | _ => exact absurd trivial h

/-- Nothing is stored where such an item was registered. -/
theorem not_found {t : ItemTable} {c : Call} (hc : c ∈ t.rows.flatten) (h : ¬ c.Keeps) :
    getItem t.items c.entry.position.1 c.entry.position.2 = none := by
  rw [getItem_eq, Option.map_eq_none_iff, List.find?_eq_none]
  intro d hd hp
  have hpos : d.indices = c.entry.position := by simpa using hp
  by_cases hk : d.Keeps
  · rw [(keeps_iff d).mp hk] at hpos
    exact h (t.byPosition.eq_of_key hd hc (congrArg some hpos) rfl ▸ hk)
  · have hzero := (indices_of_not_keeps hk).1
    rw [hpos] at hzero
    exact (indices_of_not_keeps h).2 hzero

/-- Every item is found with the type of its overload exactly if every call hands its item
index on, and with the type it says if moreover none has a literal abbreviation. -/
theorem lookup_iff (t : ItemTable) :
    ((∀ c ∈ t.rows.flatten, FoundAs t c c.overload) ↔ ∀ c ∈ t.rows.flatten, c.Keeps) ∧
    ((∀ c ∈ t.rows.flatten, FoundAs t c c.entry.type) ↔
      ∀ c ∈ t.rows.flatten, c.Keeps ∧ ¬ c.Literal) := by
  refine ⟨⟨fun h c hc => keeps_of_found (h c hc).found, fun h c hc => ?_⟩,
    ⟨fun h c hc => ⟨keeps_of_found (h c hc).found, ?_⟩, fun h c hc => ?_⟩⟩
  · exact ⟨found_of_keeps h hc, item_label c, item_type c⟩
  · exact (overload_iff c).mp ((item_type c).symm.trans (h c hc).type)
  · exact ⟨found_of_keeps (fun d hd => (h d hd).1) hc, item_label c,
      (item_type c).trans ((overload_iff c).mpr (h c hc).2)⟩

/-- The heading of the meters and the first of its lines of information. -/
def meters : ItemTable where
  rows := [[.head (bytes "Meters") 4, .info (bytes "AC1 & AC2 volts  valid only when") 4 10]]
  distinct := by decide

theorem meters_lost :
    getItem meters.items 4 10 = none ∧
      ¬ ∀ c ∈ meters.rows.flatten, FoundAs meters c c.overload := by
  have hnone : getItem meters.items 4 10 = none := by decide
  refine ⟨hnone, fun h => ?_⟩
  have hfound := (h (.info (bytes "AC1 & AC2 volts  valid only when") 4 10) (by
    simp [meters])).found
  rw [show (Call.info (bytes "AC1 & AC2 volts  valid only when") 4 10).entry.position = (4, 10)
    from rfl, hnone] at hfound
  exact absurd hfound (by simp)

end PowerGuru.Devices.MenuTable
