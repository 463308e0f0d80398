import PowerGuru.Lib.Loops
import PowerGuru.Devices.Serial
import PowerGuru.Devices.XantrexTable

/-!
# `XantrexUI`: keys and the menu cursor

Every method sends keys to the inverter and reads what its display shows. The driver
keeps its own idea of where in the menu the display is.
-/
namespace PowerGuru.Devices.XantrexUI

open Lib.Bytes Lib.Exec Lib.Loops Menu XantrexTable

inductive Key where
  | left
  | right
  | down
  | up
  deriving DecidableEq, Repr

/-- Where a key leads: to the heading beside, or to the item below or above. -/
def Key.moved : Key → Int × Int → Int × Int
  | .left, p => (p.1 - 1, 0)
  | .right, p => (p.1 + 1, 0)
  | .down, p => (p.1, p.2 + 1)
  | .up, p => (p.1, p.2 - 1)

/-- The first descriptor behind those of the console. -/
theorem firstPort_open : (0 : Int) < 3 := by decide

/-- A display behind an open port. Inside the menu a key moves it and is answered with
the label of the new position; at the edges it may do anything. -/
structure Panel (σ : Type) where
  uartfd : Int
  isOpen : 0 < uartfd
  position : σ → Int × Int
  press : Key → σ → List Byte × σ
  moves : ∀ k s, InMenu (position s) → InMenu (k.moved (position s)) →
    position (press k s).2 = k.moved (position s)
  answers : ∀ k s, InMenu (position s) → InMenu (k.moved (position s)) →
    labelAt (k.moved (position s)) = some (press k s).1

structure UI (σ : Type) where
  menuheading : Int
  menuitem : Int
  menudisp : List Byte
  panel : σ
  /-- The positions before and after each key so far. -/
  seen : List (Int × Int)

def UI.cursor {σ : Type} (u : UI σ) : Int × Int := (u.menuheading, u.menuitem)

inductive Fault where
  /-- `GetItem` found nothing and its end iterator is dereferenced. -/
  | noItem
  /-- `buffy` has no NUL and is read past its end. -/
  | overread
  deriving DecidableEq, Repr

abbrev Driving (σ : Type) := ExceptT Fault (StateM (UI σ))

/-- The port holds one answer and nothing after it. -/
def answering (reply : List Byte) : Nat → Serial.Attempt :=
  Serial.delivers (reply.take 100) fun _ => ⟨.timeout, .failed⟩

section
variable {σ : Type} (P : Panel σ)

def readSerial (reply : List Byte) : Except Fault (List Byte) :=
  match Serial.read P.uartfd (answering reply) 100 (List.replicate 100 NUL) with
  | (ret, buffy) =>
      if 0 < ret then if NUL ∈ buffy then .ok (cstr buffy) else .error .overread else .ok []

/-- `Write(k, 1)`. -/
def pressed (k : Key) (u : UI σ) : UI σ :=
  { u with
    panel := (P.press k u.panel).2
    seen := u.seen ++ [P.position u.panel, k.moved (P.position u.panel)] }

/-- `Write(k, 1); menudisp = ReadSerial();` -/
def send (k : Key) : Driving σ Unit := do
  let u ← get
  set (pressed P k u)
  let disp ← liftM (readSerial P (P.press k u.panel).1)
  modify fun u => { u with menudisp := disp }

def item (x y : Int) : Driving σ MenuItem :=
  match getItem x y with
  | some it => pure it
  | none => throw .noItem

def getLabel : Driving σ (List Byte) := do
  let u ← get
  let ti ← item u.menuheading u.menuitem
  pure ti.label

def moveTo (x y : Int) : Driving σ Unit :=
  modify fun u => { u with menuheading := x, menuitem := y }

/-- `menudisp.find(label) != string::npos`. -/
def shows (label : List Byte) : Driving σ Bool := do
  let u ← get
  pure (occursIn label u.menudisp)

/-- The comparison at the end is only logged, but it looks the label up. -/
def headingKey (k : Key) (next : Int → Int) : Driving σ Unit := do
  send P k
  let u ← get
  moveTo (next u.menuheading) 0
  let _ ← getLabel

def menuHeadingMinus : Driving σ Unit := headingKey P .left fun mh => if 1 < mh then mh - 1 else mh

def menuHeadingPlus : Driving σ Unit := headingKey P .right fun mh => mh + 1

/-- The test of the loop in `MenuItemMinus`. -/
def matchesSized : Driving σ Bool := do
  let label ← getLabel
  if label.length ≠ 0 then shows label else pure false

/-- The test of the loop in `MenuItemPlus`. -/
def matchesLabel : Driving σ Bool := do
  let label ← getLabel
  shows label

def itemKeys (k : Key) (next : Int → Int) (test : Driving σ Bool) : Driving σ Unit := do
  let u ← get
  moveTo u.menuheading (next u.menuitem)
  retry (send P k) test 5

def menuItemMinus : Driving σ Unit := itemKeys P .down (fun mi => mi + 1) matchesSized

def menuItemPlus : Driving σ Unit :=
  itemKeys P .up (fun mi => if 1 < mi then mi - 1 else mi) matchesLabel

def gotoMenuStart : Driving σ Unit := do
  retry (send P .left) (shows (bytes "Inverter")) 22
  moveTo 1 0

def gotoMenuItem (mh mi : Int) : Driving σ Unit := do
  gotoMenuStart P
  let _ ← item mh mi
  times (menuHeadingPlus P) (mh - 1).toNat
  times (menuItemMinus P) (mi - 1).toNat
  moveTo mh mi

end

/-! ## What each part does to a display that stays inside the menu -/

/-- Every key so far started and ended inside the menu, and the display is inside now. -/
def Inside {σ : Type} (P : Panel σ) (u : UI σ) : Prop :=
  (∀ p ∈ u.seen, InMenu p) ∧ InMenu (P.position u.panel)

instance {σ : Type} (P : Panel σ) (u : UI σ) : Decidable (Inside P u) :=
  inferInstanceAs (Decidable (_ ∧ _))

section
variable {σ : Type} {P : Panel σ}

/-- A label arrives as it was sent. -/
theorem readSerial_label {p : Int × Int} {l : List Byte} (h : labelAt p = some l) :
    readSerial P l = .ok l := by
  obtain ⟨hkeeps, hne, hnul, hlen⟩ := label_plain h
  have htake : l.take 100 = l := List.take_of_length_le (by omega)
  have hread : Serial.read P.uartfd (answering l) 100 (List.replicate 100 NUL) =
      ((l.length : Int), Serial.copied l (Serial.cleared 100 (List.replicate 100 NUL))) := by
    rw [answering, htake, Serial.read_delivers P.isOpen _ _ _ (by rwa [hkeeps]), hkeeps]
  have hpos : 0 < (l.length : Int) := by
    have := List.length_pos_iff.mpr hne
    omega
  have hmem : NUL ∈ Serial.copied l (Serial.cleared 100 (List.replicate 100 NUL)) := by
    rw [Serial.copied, Serial.cleared_replicate, List.drop_replicate, List.mem_append,
      List.mem_replicate]
    refine Or.inr ⟨?_, rfl⟩
    omega
  simp only [readSerial, hread]
  rw [if_pos hpos, if_pos hmem, Serial.cstr_copied hnul hlen]

/-! ### Keys -/

theorem exec_send (k : Key) (u : UI σ) :
    exec (send P k) u =
      match readSerial P (P.press k u.panel).1 with
      | .ok disp => (.ok (), { pressed P k u with menudisp := disp })
      | .error e => (.error e, pressed P k u) := by
  rw [send, exec_bind_ok (exec_get u), exec_bind_ok (exec_set u (pressed P k u)), exec_bind,
    exec_lift]
  cases readSerial P (P.press k u.panel).1 <;> rfl

theorem inside_pressed {k : Key} {u : UI σ} (h : Inside P (pressed P k u)) :
    Inside P u ∧ InMenu (k.moved (P.position u.panel)) := by
  have hseen : ∀ p ∈ u.seen ++ [P.position u.panel, k.moved (P.position u.panel)], InMenu p := h.1
  refine ⟨⟨?_, ?_⟩, ?_⟩
  · intro p hp
    exact hseen p (List.mem_append_left _ hp)
  · exact hseen _ (by simp)
  · exact hseen _ (by simp)

theorem inside_send {k : Key} {u : UI σ} (h : Inside P (exec (send P k) u).2) :
    Inside P u ∧ InMenu (k.moved (P.position u.panel)) := by
  apply inside_pressed
  rw [exec_send] at h
  cases hr : readSerial P (P.press k u.panel).1 with
  | ok disp =>
    rw [hr] at h
    exact h
  | error e =>
    rw [hr] at h
    exact h

theorem inherits_send (k : Key) : Inherits (Inside P) (send P k) := fun _ h => (inside_send h).1

/-- A key that stays inside moves the display and is answered with the label there. -/
theorem send_inside {k : Key} {u : UI σ} (h : Inside P (exec (send P k) u).2) :
    ∃ t, exec (send P k) u = (.ok (), t) ∧ t.cursor = u.cursor ∧
      P.position t.panel = k.moved (P.position u.panel) ∧
      labelAt (P.position t.panel) = some t.menudisp := by
  obtain ⟨⟨-, hpos⟩, hmoved⟩ := inside_send h
  have hmoves := P.moves k u.panel hpos hmoved
  have hanswers := P.answers k u.panel hpos hmoved
  refine ⟨{ pressed P k u with menudisp := (P.press k u.panel).1 }, ?_, rfl, hmoves, ?_⟩
  · rw [exec_send, readSerial_label hanswers]
  · show labelAt (P.position (P.press k u.panel).2) = some (P.press k u.panel).1
    rw [hmoves, hanswers]

/-! ### Lookups and tests -/

theorem exec_item {x y : Int} {it : MenuItem} (h : getItem x y = some it) (u : UI σ) :
    exec (item x y) u = (.ok it, u) := by
  rw [item, h]
  rfl

theorem exec_item_none {x y : Int} (h : getItem x y = none) (u : UI σ) :
    exec (item x y) u = (.error .noItem, u) := by
  rw [item, h]
  rfl

theorem inherits_item (x y : Int) : Inherits (Inside P) (item x y) := by
  apply inherits_of_reads
  intro u
  cases h : getItem x y with
  | none => rw [exec_item_none h]
  | some it => rw [exec_item h]

theorem exec_getLabel {u : UI σ} {it : MenuItem} (h : getItem u.menuheading u.menuitem = some it) :
    exec getLabel u = (.ok it.label, u) := by
  rw [getLabel, exec_bind_ok (exec_get u), exec_bind_ok (exec_item h u)]
  rfl

theorem exec_getLabel_none {u : UI σ} (h : getItem u.menuheading u.menuitem = none) :
    exec getLabel u = (.error .noItem, u) := by
  rw [getLabel, exec_bind_ok (exec_get u), exec_bind_error (exec_item_none h u)]

theorem exec_shows (label : List Byte) (u : UI σ) :
    exec (shows label) u = (.ok (occursIn label u.menudisp), u) := rfl

theorem exec_matchesLabel {u : UI σ} {it : MenuItem}
    (h : getItem u.menuheading u.menuitem = some it) :
    exec matchesLabel u = (.ok (occursIn it.label u.menudisp), u) := by
  rw [matchesLabel, exec_bind_ok (exec_getLabel h), exec_shows]

/-- No label of the table is empty, so the two loops test the same. -/
theorem matchesSized_eq : @matchesSized σ = matchesLabel := by
  apply exec_ext
  intro u
  cases h : getItem u.menuheading u.menuitem with
  | none =>
    rw [matchesSized, matchesLabel, exec_bind_error (exec_getLabel_none h),
      exec_bind_error (exec_getLabel_none h)]
  | some it =>
    have hne : it.label.length ≠ 0 := by
      intro hl
      exact (label_plain (labelAt_of_getItem h)).2.1 (List.length_eq_zero_iff.mp hl)
    rw [matchesSized, exec_bind_ok (exec_getLabel h), if_pos hne, exec_matchesLabel h, exec_shows]

theorem exec_matchesLabel_none {u : UI σ} (h : getItem u.menuheading u.menuitem = none) :
    exec matchesLabel u = (.error .noItem, u) := by
  rw [matchesLabel, exec_bind_error (exec_getLabel_none h)]

theorem inherits_getLabel : Inherits (Inside P) getLabel :=
  inherits_bind inherits_get fun u =>
    inherits_bind (inherits_item u.menuheading u.menuitem) fun _ => inherits_pure _

theorem inherits_matchesLabel : Inherits (Inside P) matchesLabel :=
  inherits_bind inherits_getLabel fun label => inherits_of_reads fun u => by rw [exec_shows]

theorem inherits_moveTo (x y : Int) : Inherits (Inside P) (moveTo x y) := fun _ h => h

end

end PowerGuru.Devices.XantrexUI
