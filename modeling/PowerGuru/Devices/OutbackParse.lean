import PowerGuru.Common
import PowerGuru.Lib.Exec
import PowerGuru.Lib.Strtol

/-!
# The Outback object and its packet parser

`parse` assigns its members as it goes, so the object it leaves behind matters on
every exit: a normal return, and the `std::out_of_range` that `substr` throws on a
packet too short for the next slot.
-/
namespace PowerGuru.Devices.OutbackParse

open Lib.Bytes Lib.Strtol Lib.Exec Common

/-- How a call can end without returning. -/
inductive Fault where
  /-- `std::out_of_range` from `substr`. -/
  | outOfRange
  /-- An index past the terminating NUL: undefined behaviour. -/
  | badIndex
  deriving DecidableEq, Repr

inductive OutbackType where
  | none
  | mx
  | fx
  deriving DecidableEq, Repr

/-- The class members with their constructor values. Modes are kept as the integers
that were cast to the enumerations. -/
structure Outback where
  type : OutbackType := .none
  address : Byte := 120
  inverterCurrent : Int := 0
  chargeCurrent : Int := 0
  buyCurrent : Int := 0
  pvCurrent : Int := 0
  sellCurrent : Int := 0
  acInputVoltage : Int := 0
  acOutputVoltage : Int := 0
  pvInputVoltage : Int := 0
  batteryVoltage : Int := 0
  dailyKwh : Int := 0
  operatingMode : Int := 8
  acMode : Int := 0
  miscByte : Int := 2
  auxMode : Int := 0
  chargeMode : Int := 0
  errorMode : Int := 0
  warningMode : Int := 0
  checksum : Int := 0
  deriving DecidableEq, Repr

abbrev Parsing := ExceptT Fault (StateM Outback)

/-- `packet[pos]`; the position of the terminating NUL is still readable. -/
def charAt (packet : List Byte) (pos : Nat) : Except Fault Byte :=
  if pos ≤ packet.length then .ok (packet.getD pos NUL) else .error .badIndex

def substr (packet : List Byte) (pos len : Nat) : Except Fault (List Byte) :=
  if pos ≤ packet.length then .ok ((packet.drop pos).take len) else .error .outOfRange

/-- `strtol(packet.substr(pos, len).c_str(), NULL, 0)`, converted to `int`. -/
def slot (packet : List Byte) (pos len : Nat) : Except Fault Int := do
  let field ← substr packet pos len
  return toInt (strtol field 0)

def isFxAddress (a : Byte) : Bool := 48 ≤ a && a ≤ 57
def isMxAddress (a : Byte) : Bool := 65 ≤ a && a ≤ 75

/-- `_member = strtol(packet.substr(pos, len).c_str(), NULL, 0);` -/
def store (packet : List Byte) (pos len : Nat) (member : Int → Outback → Outback) : Parsing Unit :=
  ExceptT.mk fun o =>
    match slot packet pos len with
    | .ok v => (.ok (), member v o)
    | .error e => (.error e, o)

/-- `if (_type == OUTBACK_FX) { … } else { … }` -/
def byType (onFx onMx : Parsing Unit) : Parsing Unit := do
  if (← get).type = .fx then onFx else onMx

def assign (f : Outback → Outback) : Parsing Unit := modify f

/-- The assignments that follow the classification, in the source's order. -/
def readSlots (packet : List Byte) : Parsing Unit := do
  store packet 3 2 fun v o => { o with inverterCurrent := v }
  store packet 6 2 fun v o => { o with chargeCurrent := v }
  byType (store packet 9 2 fun v o => { o with buyCurrent := v })
    (store packet 9 2 fun v o => { o with pvCurrent := v })
  byType (store packet 13 3 fun v o => { o with acInputVoltage := v })
    (store packet 13 3 fun v o => { o with pvInputVoltage := v })
  byType (store packet 16 3 fun v o => { o with acOutputVoltage := v })
    (store packet 16 3 fun v o => { o with dailyKwh := v })
  byType (store packet 20 2 fun v o => { o with sellCurrent := v }) (pure ())
  byType (store packet 23 2 fun v o => { o with operatingMode := v })
    (store packet 23 2 fun v o => { o with auxMode := v })
  byType (store packet 13 3 fun v o => { o with errorMode := v }) (pure ())
  byType (store packet 30 2 fun v o => { o with acMode := v })
    (store packet 30 2 fun v o => { o with chargeMode := v })
  store packet 33 3 fun v o => { o with batteryVoltage := v }
  byType (store packet 37 3 fun v o => { o with miscByte := v }) (pure ())
  byType (store packet 13 3 fun v o => { o with warningMode := v }) (pure ())
  store packet 45 3 fun v o => { o with checksum := v }

def parseM (data : List Byte) : Parsing Retcode := do
  let packet := cstr data
  let address ← liftM (charAt packet 1)
  assign fun o => { o with address := address }
  if isFxAddress address || isMxAddress address then
    assign fun o => { o with type := if isFxAddress address then .fx else .mx }
    -- the classification is overwritten at once: `_type = OUTBACK_MX; // FIXME:`
    assign fun o => { o with type := .mx }
    readSlots packet
    return .success
  else
    return .error

def parse (o : Outback) (data : List Byte) : Except Fault Retcode × Outback := exec (parseM data) o

/-- What a slot reads when its start is inside the packet. -/
def slotValue (packet : List Byte) (pos len : Nat) : Int :=
  toInt (strtol ((packet.drop pos).take len) 0)

theorem slot_ok {packet : List Byte} {pos : Nat} (len : Nat) (h : pos ≤ packet.length) :
    slot packet pos len = .ok (slotValue packet pos len) := by
  simp [slot, substr, h, slotValue]

theorem slot_short {packet : List Byte} {pos : Nat} (len : Nat) (h : packet.length < pos) :
    slot packet pos len = .error .outOfRange := by
  simp [slot, substr, Nat.not_le.mpr h]

/-- The members a whole packet leaves: the MX side of every branch. -/
def assigned (o : Outback) (packet : List Byte) : Outback :=
  { o with
    type := .mx
    address := packet.getD 1 NUL
    inverterCurrent := slotValue packet 3 2
    chargeCurrent := slotValue packet 6 2
    pvCurrent := slotValue packet 9 2
    pvInputVoltage := slotValue packet 13 3
    dailyKwh := slotValue packet 16 3
    auxMode := slotValue packet 23 2
    chargeMode := slotValue packet 30 2
    batteryVoltage := slotValue packet 33 3
    checksum := slotValue packet 45 3 }

def addressOk (packet : List Byte) : Prop :=
  isFxAddress (packet.getD 1 NUL) = true ∨ isMxAddress (packet.getD 1 NUL) = true

instance (packet : List Byte) : Decidable (addressOk packet) := by
  unfold addressOk; infer_instance

/-- The test as `parse` writes it. -/
theorem accepts_iff (packet : List Byte) :
    (isFxAddress (packet.getD 1 NUL) || isMxAddress (packet.getD 1 NUL)) = true ↔
      addressOk packet := by
  rw [Bool.or_eq_true, addressOk]

/-! ## One statement at a time -/

theorem exec_assign (f : Outback → Outback) (o : Outback) : exec (assign f) o = (.ok (), f o) := rfl

theorem exec_byType (a b : Parsing Unit) (o : Outback) :
    exec (byType a b) o = if o.type = .fx then exec a o else exec b o := by
  change exec (if o.type = .fx then a else b) o = _
  split <;> rfl

theorem exec_store {packet : List Byte} {pos : Nat} (len : Nat) (member : Int → Outback → Outback)
    (o : Outback) (h : pos ≤ packet.length) :
    exec (store packet pos len member) o = (.ok (), member (slotValue packet pos len) o) := by
  change (match slot packet pos len with
    | .ok v => (Except.ok (), member v o)
    | .error e => (.error e, o)) = _
  rw [slot_ok len h]

theorem exec_store_short {packet : List Byte} {pos : Nat} (len : Nat)
    (member : Int → Outback → Outback) (o : Outback) (h : packet.length < pos) :
    exec (store packet pos len member) o = (.error .outOfRange, o) := by
  change (match slot packet pos len with
    | .ok v => (Except.ok (), member v o)
    | .error e => (.error e, o)) = _
  rw [slot_short len h]

/-- On an object classified MX every slot is stored by the MX side of its branch. -/
theorem readSlots_whole {packet : List Byte} (h45 : 45 ≤ packet.length) (o : Outback)
    (ht : o.type = .mx) :
    exec (readSlots packet) o = (.ok (), { assigned o packet with address := o.address }) := by
  have hstore : ∀ pos len member o, pos ≤ 45 → exec (store packet pos len member) o =
      (.ok (), member (slotValue packet pos len) o) :=
    fun pos len member o hp => exec_store len member o (by omega)
  simp [readSlots, exec_bind, exec_byType, exec_pure, hstore, ht, assigned]

/-- Behind the address check the object is an MX, whatever the address says. -/
theorem parse_addressed (o : Outback) {data : List Byte} (ha : addressOk (cstr data)) :
    parse o data = exec (readSlots (cstr data) >>= fun _ => pure .success)
      { o with type := .mx, address := (cstr data).getD 1 NUL } := by
  have hne : cstr data ≠ [] := by
    intro he
    rw [he] at ha
    revert ha
    decide
  have h1 : charAt (cstr data) 1 = .ok ((cstr data).getD 1 NUL) :=
    if_pos (List.length_pos_iff.mpr hne)
  have hcond := (accepts_iff (cstr data)).mpr ha
  rw [parse, parseM, exec_bind, exec_lift, h1]
  simp only [exec_bind, exec_assign, hcond, if_true]

theorem parse_whole (o : Outback) {data : List Byte} (h45 : 45 ≤ (cstr data).length)
    (ha : addressOk (cstr data)) : parse o data = (.ok .success, assigned o (cstr data)) := by
  rw [parse_addressed o ha, exec_bind_ok (readSlots_whole h45 _ rfl)]
  rfl

/-- A bad address is stored before it is rejected. -/
theorem parse_bad_address (o : Outback) {data : List Byte} (h : 1 ≤ (cstr data).length)
    (ha : ¬ addressOk (cstr data)) :
    parse o data = (.ok .error, { o with address := (cstr data).getD 1 NUL }) := by
  have h1 : charAt (cstr data) 1 = .ok ((cstr data).getD 1 NUL) := if_pos h
  have hcond := mt (accepts_iff (cstr data)).mp ha
  rw [parse, parseM, exec_bind, exec_lift, h1]
  simp only [exec_bind, exec_assign, hcond]
  rfl

theorem parse_empty (o : Outback) {data : List Byte} (h : cstr data = []) :
    parse o data = (.error .badIndex, o) := by
  rw [parse, parseM, exec_bind, exec_lift, h]
  rfl

/-! ## Packets too short for a slot -/

/-- Ends normally or by `std::out_of_range`. -/
def Proceeds (x : Parsing Unit) : Prop :=
  ∀ o, ∃ o', exec x o = (.ok (), o') ∨ exec x o = (.error .outOfRange, o')

def Throws {α : Type} (x : Parsing α) : Prop := ∀ o, ∃ o', exec x o = (.error .outOfRange, o')

theorem proceeds_store (packet : List Byte) (pos len : Nat) (member : Int → Outback → Outback) :
    Proceeds (store packet pos len member) := by
  intro o
  by_cases h : pos ≤ packet.length
  · exact ⟨_, Or.inl (exec_store len member o h)⟩
  · exact ⟨_, Or.inr (exec_store_short len member o (Nat.not_le.mp h))⟩

theorem proceeds_pure : Proceeds (pure ()) := fun o => ⟨o, Or.inl rfl⟩

theorem proceeds_byType {a b : Parsing Unit} (ha : Proceeds a) (hb : Proceeds b) :
    Proceeds (byType a b) := by
  intro o
  rw [exec_byType]
  split
  · exact ha o
  · exact hb o

theorem throws_bind {α : Type} {x : Parsing Unit} {f : Unit → Parsing α} (hx : Proceeds x)
    (hf : Throws (f ())) : Throws (x >>= f) := by
  intro o
  rw [exec_bind]
  obtain ⟨o', h | h⟩ := hx o
  · rw [h]; exact hf o'
  · rw [h]; exact ⟨o', rfl⟩

theorem throws_bind_left {α β : Type} {x : Parsing α} {f : α → Parsing β} (hx : Throws x) :
    Throws (x >>= f) := by
  intro o
  obtain ⟨o', h⟩ := hx o
  rw [exec_bind, h]
  exact ⟨o', rfl⟩

/-- The last slot starts at 45, so nothing shorter gets through. -/
theorem readSlots_short {packet : List Byte} (h : packet.length < 45) :
    Throws (readSlots packet) := by
  have hp := proceeds_store packet
  have hlast : ∀ member, Throws (store packet 45 3 member) :=
    fun member o => ⟨o, exec_store_short 3 member o h⟩
  unfold readSlots
  repeat' apply throws_bind
  all_goals first
    | apply hlast
    | apply hp
    | exact proceeds_byType (hp _ _ _) (hp _ _ _)
    | exact proceeds_byType (hp _ _ _) proceeds_pure

theorem parse_short (o : Outback) {data : List Byte} (h45 : (cstr data).length < 45)
    (ha : addressOk (cstr data)) : ∃ o', parse o data = (.error .outOfRange, o') := by
  rw [parse_addressed o ha]
  exact throws_bind_left (readSlots_short h45) _

end PowerGuru.Devices.OutbackParse
