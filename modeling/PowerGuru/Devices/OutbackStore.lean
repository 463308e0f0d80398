import PowerGuru.Devices.OutbackMain
import PowerGuru.Store.Mariadb

/-!
# From the wire to the database

A page goes through `readSerial`, `parse` and `exportMeterData` into a record for
`queryInsert`. It loses its first byte on the way, so every record says the same and all that
the database learns of a page is when it came.
-/
namespace PowerGuru.Devices.OutbackStore

open Lib.Bytes Common Serial OutbackParse OutbackChecksum OutbackExport OutbackFrame OutbackWire
open OutbackMain
open Store.Mariadb

/-- A page of the manual, from a charger or from an inverter. -/
inductive Page where
  | mx (f : MxFrame)
  | fx (f : FxFrame)

def Page.address : Page → Byte
  | .mx f => f.address
  | .fx f => f.address

def Page.slots : Page → List (Nat × Nat)
  | .mx f => f.slots
  | .fx f => f.slots

def Page.encode (p : Page) : List Byte := statusPage p.address p.slots

theorem Page.address_ok (p : Page) :
    isFxAddress p.address = true ∨ isMxAddress p.address = true := by
  cases p with
  | mx f => exact Or.inr f.address_mx
  | fx f => exact Or.inl f.address_fx

theorem Page.fits (p : Page) : Fits p.slots := by
  cases p with
  | mx f => exact f.fits
  | fx f => exact f.fits

theorem Page.short (p : Page) : (body p.address p.slots).length < PACKET_SIZE := by
  cases p with
  | mx f => simp [body, slots, MxFrame.slots, PACKET_SIZE]
  | fx f => simp [body, slots, FxFrame.slots, PACKET_SIZE]

/-- The second byte of what `readSerial` makes of it. -/
theorem Page.body_comma (p : Page) :
    1 ≤ (body p.address p.slots).length ∧ (body p.address p.slots).getD 1 NUL = comma := by
  cases p with
  | mx f => exact ⟨Nat.succ_pos _, rfl⟩
  | fx f => exact ⟨Nat.succ_pos _, rfl⟩

/-- A page that is delivered whole on an open port, and the rest of what a pass meets. -/
structure Arrival where
  page : Page
  uartfd : Int
  up : 0 < uartfd
  later : Nat → Attempt
  key : Int
  beyond : Nat → Byte
  md : MeterData

def Arrival.pass (a : Arrival) : Pass where
  key := a.key
  str := readSerial a.uartfd (delivers a.page.encode a.later)
  beyond := a.beyond
  md := a.md
  str_nul := by
    rw [Page.encode, readSerial_page a.up a.page.address_ok a.page.fits a.page.short]
    exact nul_not_mem_body a.page.address_ok a.page.fits

theorem Arrival.pass_str (a : Arrival) : a.pass.str = body a.page.address a.page.slots :=
  readSerial_page a.up a.page.address_ok a.page.fits a.page.short a.later

/-- The records that the loop gives to `queryInsert`. -/
def records (es : List OutbackMain.Event) : List MeterData :=
  es.filterMap fun
    | .handled h => h.inserted
    | _ => none

/-- The statements that come of them. -/
def statements (print : Rat → List Byte) (es : List OutbackMain.Event) (o : Outcomes) :
    List (List Byte) :=
  (recordLoop print (records es) o).1.map Prod.fst

/-- No reading at all, in the unit that a comma is. -/
def blank (type : Device) : MeterData where
  unit := 44
  type := type
  chargeAmps := 0
  acLoadAmps := 0
  batteryVolts := 0
  acVoltsOut := 0
  ac1VoltsIn := 0
  ac2VoltsIn := 0
  pvAmpsIn := 0
  pvVoltsIn := 0
  buyAmps := 0
  sellAmps := 0
  dailyKwh := 0
  hertz := 60
  tempcompVolts := 0

/-! ## One page -/

/-- Of a page the object keeps the comma in the place of an address. -/
theorem handle_arrival (o : Outback) (a : Arrival) :
    handle o a.pass = (⟨a.pass.str, calcChecksum (stored a.pass.str a.pass.beyond), .ok .error,
      some (exportMeterData { o with address := comma } a.md)⟩,
      .ok { o with address := comma }) := by
  obtain ⟨hlen, hcomma⟩ := a.page.body_comma
  have hstr : cstr a.pass.str = body a.page.address a.page.slots :=
    (cstr_str a.pass).trans a.pass_str
  have hbad : ¬ addressOk (cstr a.pass.str) := by
    rw [hstr, addressOk, hcomma]
    decide
  have hparse := parse_bad_address o (by rwa [hstr]) hbad
  rw [hstr, hcomma] at hparse
  simp only [handle, hparse]
  rfl

theorem records_onKey (ch : Int) (es : List OutbackMain.Event) :
    records (onKey ch ++ es) = records es := by
  have hkey : records (onKey ch) = [] := by
    unfold onKey help
    repeat' split
    all_goals rfl
  rw [records, List.filterMap_append, ← records, hkey, ← records]
  rfl

/-! ## A run -/

/-- Every page becomes a record of what the object had before, with the comma for its address,
and the loop goes on. -/
theorem main_arrivals (o : Outback) {as : List Arrival} (h : ∀ a ∈ as, ¬ quits a.key) :
    records (main o (as.map Arrival.pass)).1 =
        (as.map fun a => exportMeterData { o with address := comma } a.md) ∧
      (main o (as.map Arrival.pass)).2 = .waiting := by
  induction as generalizing o with
  | nil => exact ⟨rfl, rfl⟩
  | cons a as ih =>
    obtain ⟨ha, has⟩ := List.forall_mem_cons.mp h
    obtain ⟨hrecords, hwaiting⟩ := ih { o with address := comma } has
    have hstr : a.pass.str ≠ [] := by
      rw [a.pass_str]
      exact List.cons_ne_nil _ _
    have hkey : ¬ quits a.pass.key := ha
    rw [List.map_cons, main, if_neg hkey, if_neg hstr, handle_arrival]
    dsimp only
    rw [records_onKey, List.map_cons]
    refine ⟨?_, hwaiting⟩
    exact congrArg (exportMeterData { o with address := comma } a.md :: ·) hrecords

/-- The type that the record has from the stack is not in the statement. -/
theorem insertText_blank (print : Rat → List Byte) (tm : Tm) (type : Device) :
    insertText print tm (blank type) = insertText print tm (blank .noDevice) := rfl

theorem queryLoop_times (query : List Byte) (retries : Nat) (o : Outcomes) :
    (queryLoop query retries o).left.times = o.times := by
  induction retries generalizing o with
  | zero => rfl
  | succ retries ih =>
    rw [queryLoop]
    dsimp only
    split
    · exact ih _
    · split <;> rfl

theorem recordLoop_texts (print : Rat → List Byte) (data : List MeterData) (o : Outcomes) :
    (recordLoop print data o).1.map Prod.fst =
      data.mapIdx fun i d => insertText print (o.times.get i) d := by
  induction data generalizing o with
  | nil => rfl
  | cons d data ih =>
    have hleft : (queryInsertRecord print d o).left.times = o.times.tail := queryLoop_times _ _ _
    have hhead : o.times.head = o.times.get 0 := rfl
    have htail : ∀ i, o.times.tail.get i = o.times.get (i+1) := fun _ => rfl
    rw [recordLoop_cons, List.map_cons, ih, hleft, List.mapIdx_cons, hhead]
    simp only [htail]

/-- From any object that has been told nothing but pages: the statements are as many as the pages,
and each has the time that `queryInsert` asks for and readings of nothing at all, whatever the
pages say and whatever becomes of the statements before it. -/
theorem pages_never_stored (print : Rat → List Byte) (o : Outcomes) {as : List Arrival}
    (h : ∀ a ∈ as, ¬ quits a.key) :
    statements print (main {} (as.map Arrival.pass)).1 o =
      (List.range as.length).map fun i => insertText print (o.times.get i) (blank .noDevice) := by
  have hblank : ∀ a : Arrival, exportMeterData { ({} : Outback) with address := comma } a.md =
      blank a.md.type := by
    intro a
    have hcomma : schar comma = 44 := by decide
    simp [exportMeterData, exportType, exportUnit, blank, hcomma]
  rw [statements, (main_arrivals {} h).1, recordLoop_texts]
  apply List.ext_getElem
  · simp
  · intro i hi hi'
    simp [hblank, insertText_blank]

theorem up_three : (0 : Int) < 3 := by decide

/-- The page of a charger, on an idle console. -/
def sampleArrival : Arrival :=
  ⟨.mx sampleMx, 3, up_three, idle, -1, fun _ => NUL, blank .noDevice⟩

theorem sampleMx_never_stored :
    statements (fun _ => bytes "0") (main {} ([sampleArrival].map Arrival.pass)).1 refusing =
      [insertText (fun _ => bytes "0") (refusing.times.get 0) (blank .noDevice)] := by
  have hkeys : ∀ a ∈ [sampleArrival], ¬ quits a.key := by
    intro a ha
    rw [List.mem_singleton.mp ha]
    decide
  exact pages_never_stored (fun _ => bytes "0") refusing hkeys

end PowerGuru.Devices.OutbackStore
