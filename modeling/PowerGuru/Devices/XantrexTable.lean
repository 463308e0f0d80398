import Mathlib.Data.List.Nodup
import PowerGuru.Devices.Menu
import PowerGuru.Devices.Serial

/-!
# The Xantrex menu table

`SetDefaultValues` and the lookup `GetItem`. A registration keeps the position that the
source writes down, which is not always the one under which `SetItem` stores the item.
-/
namespace PowerGuru.Devices.XantrexTable

open Lib.Bytes Menu

/-- A call of `SetItem`. A literal as fourth argument takes the overload with a bool. -/
inductive Registration where
  | head (label : String) (x : Int)
  | info (label : String) (x y : Int)
  | flag (label : String) (x y : Int) (z : Bool) (cmdname : String)
  | int (label : String) (x y z : Int) (cmdname : String)
  | float (label : String) (x y : Int) (z : Rat) (cmdname : String)

/-- The calls of `SetDefaultValues`, by heading. -/
def registrations : List (List Registration) :=
  [
    [.head "Top of Menu" 0],
    [.head "Inverter Mode" 1,
      .flag "Set Inverter     OFF SRCH ON CHG" 1 1 true "",
      .info "CHG avail. Only  in FLT mode" 1 2,
      .info "Press red or     setpoint button" 1 3,
      .info "to move.         Move cursor to" 1 4,
      .info "Inverter OFF to  resetOverCurrent" 1 5],
    [.head "Generator Mode" 2,
      .flag "Set Generator    OFF AUTO ON EQ" 2 1 true "",
      .flag "Gen under/over   speed" 2 2 false "GenSpeed",
      .flag "Generator start  error" 2 3 false "GenStart",
      .flag "Generator sync   error" 2 4 false "GenSync",
      .flag "Gen max run Time error" 2 5 false "GenMax",
      .flag "Load Amp Start   ready" 2 6 false "LoadAmp",
      .flag "Voltage Start    ready" 2 7 false "VoltStart",
      .flag "Exercise Start   ready" 2 8 false "ExerStart"],
    [.head "Engineering" 3,
      .info "Press reset now  for defaults" 3 1,
      .flag "Revision 4.01" 3 2 true "",
      .info "5916 195th St NE Arlington, WA" 3 3,
      .info "98223 USA" 3 4,
      .info "Ph  360-435-8826 Fax 360-435-2229" 3 5],
    [.head "Meters" 4,
      .int "Inverter/charger amps AC" 4 1 0 "ChargerAmps",
      .int "Input            amps AC" 4 2 0 "InputAmps",
      .int "Load             amps AC" 4 3 0 "LoadAmps",
      .float "Battery actual   volts DC" 4 4 (251/10) "BattVolts",
      .float "Battery TempComp volts DC" 4 5 (251/10) "TempComp",
      .int "Inverter         volts AC" 4 6 0 "InvertVolts",
      .int "Grid (AC1)       volts AC" 4 7 0 "GridVolts",
      .int "Generator (AC2)  volts AC" 4 8 0 "GenVolts",
      .int "Read Frequency   Hertz" 4 9 0 "ReadHertz",
      .info "AC1 & AC2 volts  valid only when" 4 10,
      .info "inverter synced  to that input." 4 11,
      .info "Batt volt actual is used for" 4 12,
      .info "LBCO,HBCO,LBX,   LBCI,sell volts" 4 13,
      .info "and gen starting" 4 14,
      .info "Batt volt temp   comp is used," 4 15,
      .info "for float, bulk, eq & aux relays" 4 16],
    [.head "Error Causes" 5,
      .flag "Over Current" 5 1 false "OverCurrent",
      .flag "Transformer      overtemp" 5 2 false "OverTemp",
      .flag "Heatsink         overtemp" 5 3 false "HeatSink",
      .flag "High Battery     voltage" 5 4 false "HighBatt",
      .flag "Low Battery      voltage" 5 5 false "LowBatt",
      .flag "Inverter breaker tripped" 5 6 false "Tripped",
      .flag "Manual Off" 5 7 false "ManualOff",
      .flag "AC source wired  to output" 5 8 false "ACWired",
      .flag "External error   (Stacked)" 5 9 false "ExtError",
      .flag "Generator start  error" 5 10 false "GenError",
      .flag "Generator sync   error" 5 11 false "SyncError",
      .flag "Gen maximum run  time error" 5 12 false "MaxRunError",
      .flag "Gen Under/Over   speed" 5 13 false "SpeedError",
      .flag "Inverter breaker tripped" 5 14 false "BreakerError"],
    [.head "Time of Day" 6,
      .int "Time of Day      Set Clock hour" 6 1 0 "",
      .int "Set Clock minute" 6 2 0 "Minute",
      .int "Set Clock second" 6 3 0 "Second"],
    [.head "Generator Timer" 7,
      .int "Start Quiet      time h:m" 7 1 8 "",
      .int "End Quiet        time h:m" 7 2 8 ""],
    [.head "END USER MENU" 8],
    [.head "Inverter Setup" 9,
      .info "Set Grid Usage" 9 1,
      .float "Set Low battery  cut out VDC" 9 2 22 "",
      .int "Set LBCO delay   minutes" 9 3 15 "",
      .float "Set Low battery  cut in VDC" 9 4 26 "",
      .float "Set High battery cut out VDC" 9 5 32 "",
      .int "Set search       watts" 9 6 48 "",
      .int "Set search       spacing" 9 7 59 ""],
    [.head "Battery Charging" 10,
      .float "Set Bulk         volts DC" 10 1 (144/5) "",
      .int "Set Absorption   time h:m" 10 2 2 "",
      .float "Set Float        volts DC" 10 3 (134/5) "",
      .float "Set Equalize     volts DC" 10 4 (144/5) "",
      .int "Set Equalize     time h:m" 10 5 2 "",
      .int "Set Max Charge   amps DC" 10 6 30 "",
      .info "Set Temp Comp    LeadAcid Nicad" 10 7],
    [.head "AC Inputs" 11,
      .head "inverter synced  to that input." 11,
      .int "Set Grid (AC1)   amps AC" 11 1 60 "",
      .int "Set Gen (AC2)    amps AC" 11 2 30 "",
      .int "Set Input lower  limit VAC" 11 3 108 "",
      .int "Set Input upper  limit VAC" 11 4 132 ""],
    [.head "Gen Auto Start   setup" 12,
      .int "Set Load Start   amps AC" 12 1 33 "",
      .int "Set Load Start   delay min" 12 2 5 "",
      .int "Set Load Stop    delay min" 12 3 5 "",
      .float "Set 24 hr start  volts DC" 12 4 (123/5) "",
      .float "Set 2 hr start   volts DC" 12 5 (118/5) "",
      .float "Set 15 min start volts DC" 12 6 (113/5) "",
      .int "Read LBCO 30 sec start VDC" 12 7 22 "",
      .int "Set Exercise     period days" 12 8 30 "",
      .int "Set Maximum run  time h:m" 12 9 8 "",
      .int "Set Max Run time to 0 to defeat." 12 10 0 "",
      .int "Set Exercise to 0 to defeat." 12 11 0 "",
      .int "See menu 9 to    to set LBCO." 12 12 0 ""],
    [.head "Gen starting     details" 13,
      .int "Set RY7 Function GlowStop Run" 13 1 0 "",
      .int "Set Gen warmup   seconds" 13 2 60 "",
      .int "Set Pre Crank    seconds" 13 3 10 "",
      .int "Set Max Cranking seconds" 13 4 10 "",
      .int "Set Post Crank   seconds" 13 5 30 ""],
    [.head "Auxiliary Relays R9 R10 R11" 14,
      .int "Set Relay 9      volts DC" 14 1 29 "",
      .int "R9 Hysteresis    volts DC" 14 2 2 "",
      .float "Set Relay 10     volts DC" 14 3 (59/2) "",
      .int "R10 Hysteresis   volts DC" 14 4 2 "",
      .int "Set Relay 11     volts DC" 14 5 30 "",
      .int "R11 Hysteresis   volts DC" 14 6 2 "",
      .info "Close on batt >  setpoint." 14 7,
      .info "Open  on  batt < setpoint - Hys" 14 8,
      .info "Relays have 2    second delay on" 14 9,
      .info "Close, 0.1 sec   delay on open" 14 10],
    [.head "Bulk Charge      Trigger Timer" 15,
      .int "Set Start Bulk   time" 15 1 0 "",
      .info "To disable timer set to 00:00" 15 2,
      .info "If grid timer    active set bulk" 15 3,
      .info "time after start charge time." 15 4,
      .info "In SLT mode don't disable this" 15 5,
      .info "timer. It is the daily chg time." 15 6],
    [.head "Low Battery      Transfer (LBX)" 16,
      .float "Set Low Battery  TransferVDC" 16 1 (134/5) "",
      .float "Set Low Battery  cut in  VDC" 16 2 26 "",
      .info "See menu 9 to    enable LBX mode." 16 3,
      .info "Make sure LBX is above LBCO volts." 16 4],
    [.head "Battery Selling" 17,
      .float "Set Battery Sell volts" 17 1 (134/5) "",
      .int "Set Max Sell     amps" 17 2 30 "",
      .info "See menu 9 to    enable SELL mode." 17 3,
      .info "Make sure LBX is above LBCO volts." 17 4],
    [.head "Grid Usage Timer" 18,
      .int "Set Charge       time" 18 1 21 "",
      .int "End Charge       time" 18 2 21 "",
      .info "After Start      Charge time:" 18 3,
      .info "SELL mode        charges battery." 18 4,
      .info "FLT mode         charges battery" 18 5,
      .info "After End Charge time:" 18 6,
      .info "SELL mode sells  battery to AC1." 18 7,
      .info "FLT mode drops   AC1 and inverts" 18 8,
      .info "Timer on when    start < > end;" 18 9,
      .info "timer off when   start = end" 18 10,
      .info "Sell and float   modes use timer" 18 11,
      .info "SLT and LBX mode ignore timer" 18 12],
    [.head "Information file battery" 19,
      .info "Batt temp comp   changes battery" 19 1,
      .info "voltage reading  away from actual" 19 2,
      .info "HBCO resets at:  6v/48, 3v/24 and" 19 3,
      .info "1.5v/12v under   HBCO." 19 4,
      .info "LowBattTransfer  used in LBX, FLT" 19 5,
      .info "Modes only. Goes back to battery" 19 6,
      .info "at LowBattCutIn  (aka LBCI)." 19 7,
      .info "For LBX mode set below LBCI so" 19 8,
      .info "charger won't    cycle batteries" 19 9,
      .info "up and down and  set LBCO below." 19 10],
    [.head "END SETUP MENU" 20]
  ]

def Registration.position : Registration → Int × Int
  | .head _ x => (x, 0)
  | .info _ x y => (x, y)
  | .flag _ x y _ _ => (x, y)
  | .int _ x y _ _ => (x, y)
  | .float _ x y _ _ => (x, y)

def Registration.label : Registration → List Byte
  | .head label _ => bytes label
  | .info label _ _ => bytes label
  | .flag label _ _ _ _ => bytes label
  | .int label _ _ _ _ => bytes label
  | .float label _ _ _ _ => bytes label

def Registration.item : Registration → MenuItem
  | .head label x => setHeading (bytes label) x
  | .info label x y => setInfo (bytes label) x y
  | .flag label x y z cmdname => setBool (bytes label) x y (bytes cmdname) z
  | .int label x y z cmdname => setInt (bytes label) x y (bytes cmdname) z
  | .float label x y z cmdname => setFloat (bytes label) x y (bytes cmdname) z

/-- `_items` after `SetDefaultValues`. -/
def items : List (List MenuItem) := registrations.map fun heading => heading.map Registration.item

/-- The first item with these indices; without one the source dereferences an end iterator. -/
def getItem (x y : Int) : Option MenuItem :=
  items.flatten.find? fun it => it.headidx == x && it.itemidx == y

/-! ## The menu the table describes -/

/-- The label that belongs to a position. -/
def labelAt (p : Int × Int) : Option (List Byte) :=
  (registrations.flatten.find? fun r => r.position == p).map Registration.label

/-- The position is one of the menu's. -/
def InMenu (p : Int × Int) : Prop := (labelAt p).isSome = true

instance (p : Int × Int) : Decidable (InMenu p) := inferInstanceAs (Decidable (_ = true))

def positions : List (Int × Int) := registrations.flatten.map Registration.position

theorem inMenu_iff (p : Int × Int) : InMenu p ↔ p ∈ positions := by
  rw [InMenu, labelAt, Option.isSome_map, List.find?_isSome, positions, List.mem_map]
  simp

/-- The indices of the stored item. -/
def Registration.indices (r : Registration) : Int × Int := (r.item.headidx, r.item.itemidx)

theorem item_label (r : Registration) : r.item.label = r.label := by
  cases r <;> rfl

theorem getItem_eq (x y : Int) :
    getItem x y =
      (registrations.flatten.find? fun r => r.indices == (x, y)).map Registration.item := by
  rw [getItem, items, ← List.map_flatten, List.find?_map]
  rfl

/-- A search that only one row can answer. -/
theorem find?_row {α : Type} {rows : List (List α)} {row : List α} (hrow : row ∈ rows)
    {f : α → Bool} (honly : ∀ k ∈ rows, ∀ r ∈ k, f r = true → k = row) :
    rows.flatten.find? f = row.find? f := by
  induction rows with
  | nil => exact absurd hrow List.not_mem_nil
  | cons k rows ih =>
    rw [List.flatten_cons, List.find?_append]
    cases hk : k.find? f with
    | some r =>
      obtain rfl := honly k List.mem_cons_self r (List.mem_of_find?_eq_some hk)
        (List.find?_some hk)
      rw [hk, Option.some_or]
    | none =>
      rw [Option.none_or]
      rcases List.mem_cons.mp hrow with rfl | hrest
      · rw [hk, List.find?_eq_none]
        intro r hr hf
        obtain ⟨l, hl, hrl⟩ := List.mem_flatten.mp hr
        obtain rfl := honly l (List.mem_cons_of_mem _ hl) r hrl hf
        exact List.find?_eq_none.mp hk r hrl hf
      · exact ih hrest fun l hl => honly l (List.mem_cons_of_mem _ hl)

/-- The heading that a row begins with. -/
def headingOf (row : List Registration) : Option Int := row.head?.map fun r => r.position.1

/-- No two rows have one heading, and all of a row is under its own. An information line is stored
behind its heading, so what is found at a position was registered there first. -/
theorem registration_rows : (registrations.map headingOf).Nodup ∧
    ∀ row ∈ registrations, ∀ r ∈ row, headingOf row = some r.position.1 ∧
      row.findIdx? (fun q => q.indices == r.indices) =
        row.findIdx? (fun q => q.position == r.indices) := by decide +kernel

theorem indices_heading (r : Registration) : r.indices.1 = r.position.1 := by
  cases r <;> rfl

/-- A search under a heading stays in its row. -/
theorem find?_registrations {row : List Registration} (hrow : row ∈ registrations)
    {r : Registration} (hr : r ∈ row) {f : Registration → Bool}
    (hf : ∀ q, f q = true → q.position.1 = r.position.1) :
    registrations.flatten.find? f = row.find? f := by
  refine find?_row hrow fun k hk q hq hfq => ?_
  refine List.inj_on_of_nodup_map registration_rows.1 hk hrow ?_
  rw [(registration_rows.2 k hk q hq).1, (registration_rows.2 row hrow r hr).1, hf q hfq]

theorem labelAt_of_getItem {x y : Int} {it : MenuItem} (h : getItem x y = some it) :
    labelAt (x, y) = some it.label := by
  rw [getItem_eq, Option.map_eq_some_iff] at h
  obtain ⟨r, hr, rfl⟩ := h
  have hp : r.indices = (x, y) := by simpa using List.find?_some hr
  obtain ⟨row, hrow, hmem⟩ := List.mem_flatten.mp (List.mem_of_find?_eq_some hr)
  have hindices : ∀ q : Registration, (q.indices == (x, y)) = true →
      q.position.1 = r.position.1 := by
    intro q hq
    rw [← indices_heading, ← indices_heading, hp, beq_iff_eq.mp hq]
  have hposition : ∀ q : Registration, (q.position == (x, y)) = true →
      q.position.1 = r.position.1 := by
    intro q hq
    rw [← indices_heading r, hp, beq_iff_eq.mp hq]
  rw [item_label, labelAt, Option.map_eq_some_iff]
  refine ⟨r, ?_, rfl⟩
  rw [find?_registrations hrow hmem hindices, List.find?_eq_bind_findIdx?_getElem?] at hr
  rw [find?_registrations hrow hmem hposition, List.find?_eq_bind_findIdx?_getElem?, ← hp,
    ← (registration_rows.2 row hrow r hmem).2, hp, hr]

def Registration.text : Registration → String
  | .head label _ => label
  | .info label _ _ => label
  | .flag label _ _ _ _ => label
  | .int label _ _ _ _ => label
  | .float label _ _ _ _ => label

theorem label_text (r : Registration) : r.label = bytes r.text := by
  cases r <;> rfl

/-- The serial port keeps the label and the buffer holds it. -/
def fitsLine (label : List Byte) : Bool :=
  label.all (fun b => Serial.keeps b && b != NUL) && !label.isEmpty && decide (label.length < 100)

/-- Every label survives the serial port, and two headings contain the word that
`GotoMenuStart` looks for. -/
theorem registration_text : ∀ r ∈ registrations.flatten,
    fitsLine r.text.toByteArray.data.toList = true ∧
    (r.position.2 = 0 → (occursIn (bytes "Inverter") r.text.toByteArray.data.toList = true ↔
      r.position.1 = 1 ∨ r.position.1 = 9)) := by decide +kernel

theorem registration_label (r : Registration) (hr : r ∈ registrations.flatten) :
    fitsLine r.label = true ∧
    (r.position.2 = 0 → (occursIn (bytes "Inverter") r.label = true ↔
      r.position.1 = 1 ∨ r.position.1 = 9)) := by
  have htext := registration_text r hr
  have hascii : ∀ b ∈ r.text.toByteArray.data.toList, b < 128 := by
    intro b hb
    have hfits := htext.1
    simp only [fitsLine, Bool.and_eq_true, List.all_eq_true] at hfits
    have hkeeps := (hfits.1.1 b hb).1
    simp only [Serial.keeps, Bool.and_eq_true, decide_eq_true_eq] at hkeeps
    exact hkeeps.1.1
  rw [label_text, bytes_ascii hascii]
  exact htext

theorem registration_of_labelAt {p : Int × Int} {l : List Byte} (h : labelAt p = some l) :
    ∃ r ∈ registrations.flatten, r.position = p ∧ r.label = l := by
  rw [labelAt, Option.map_eq_some_iff] at h
  obtain ⟨r, hr, hl⟩ := h
  have hp := List.find?_some hr
  exact ⟨r, List.mem_of_find?_eq_some hr, by simpa using hp, hl⟩

theorem label_plain {p : Int × Int} {l : List Byte} (h : labelAt p = some l) :
    l.filter Serial.keeps = l ∧ l ≠ [] ∧ NUL ∉ l ∧ l.length < 100 := by
  obtain ⟨r, hr, -, rfl⟩ := registration_of_labelAt h
  have hall := (registration_label r hr).1
  simp only [fitsLine, Bool.and_eq_true, List.all_eq_true, bne_iff_ne, ne_eq, decide_eq_true_eq,
    Bool.not_eq_true', List.isEmpty_eq_false_iff] at hall
  obtain ⟨⟨hbytes, hne⟩, hlen⟩ := hall
  refine ⟨List.filter_eq_self.mpr fun b hb => (hbytes b hb).1, hne, ?_, hlen⟩
  intro hnul
  exact (hbytes NUL hnul).2 rfl

/-! ## Headings -/

/-- The positions of the menu: their headings have items, and the first has no other. -/
theorem position_heading : ∀ p ∈ positions, (0 ≤ p.1 ∧ p.1 ≤ 20) ∧
    (p.2 = 0 → (getItem p.1 p.2).isSome = true) ∧ (p.1 = 0 → p.2 = 0) := by decide +kernel

theorem heading_range (p : Int × Int) (h : p ∈ positions) : 0 ≤ p.1 ∧ p.1 ≤ 20 :=
  (position_heading p h).1

theorem getItem_heading {x : Int} (h : InMenu (x, 0)) : ∃ it, getItem x 0 = some it :=
  Option.isSome_iff_exists.mp ((position_heading (x, 0) ((inMenu_iff _).mp h)).2.1 rfl)

/-- The display shows the label at this position. -/
def shownAt (label : List Byte) (p : Int × Int) : Bool := (labelAt p).any (occursIn label)

theorem shownAt_iff {label shown : List Byte} {p : Int × Int} (h : labelAt p = some shown) :
    shownAt label p = occursIn label shown := by
  rw [shownAt, h]
  rfl

theorem inverter_shownAt (x : Int) :
    shownAt (bytes "Inverter") (x, 0) = true ↔ InMenu (x, 0) ∧ (x = 1 ∨ x = 9) := by
  cases h : labelAt (x, 0) with
  | none => simp [shownAt, InMenu, h]
  | some l =>
    obtain ⟨r, hr, hp, rfl⟩ := registration_of_labelAt h
    have hword := (registration_label r hr).2 (by rw [hp])
    rw [hp] at hword
    rw [shownAt_iff h, hword, InMenu, h]
    simp

end PowerGuru.Devices.XantrexTable
