import PowerGuru.Common
import PowerGuru.Devices.XantrexValid
import PowerGuru.Devices.XantrexValues

/-!
# `XantrexUI::PollMeters`

An iteration goes down over the meter items and up again, and fills one record on either
way. The items at which it stops are kept beside the driver's state.
-/
namespace PowerGuru.Devices.XantrexPoll

open Common Lib.Bytes Lib.Exec Lib.Loops Lib.Numeral Lib.Outcome Menu XantrexTable XantrexUI
  XantrexCursor XantrexValid XantrexValues

/-- The members of `meter_data_t` that are set. -/
structure Polled where
  acLoadAmps : Int
  batteryVolts : CFloat
  tempcompVolts : CFloat
  acVoltsOut : Int
  ac1VoltsIn : CFloat
  ac2VoltsIn : CFloat
  hertz : Int
  deriving DecidableEq

def zeroFloat : CFloat := .finite false 0 Lib.Strtod.zero_nonneg

/-- `memset(downdata, 0, sizeof(meter_data_t))`. -/
def Polled.zero : Polled := ⟨0, zeroFloat, zeroFloat, 0, zeroFloat, zeroFloat, 0⟩

structure Poll (σ : Type) where
  ui : UI σ
  meters : List Polled
  /-- The cursor behind each key of the items. -/
  visits : List (Int × Int)

inductive PollFault where
  | driver (e : Fault)
  /-- `label.substr(8, ...)` of a shorter label. -/
  | outOfRange
  deriving DecidableEq, Repr

abbrev Polling (σ : Type) := ExceptT PollFault (StateM (Poll σ))

/-! ## One item -/

def substrIs (label : List Byte) (pos : Nat) (text : String) : Bool :=
  (label.drop pos).take (bytes text).length == bytes text

/-- `label.substr(pos, text.size()) == text`. -/
def labelled (label : List Byte) (pos : Nat) (text : String) : Except PollFault Bool :=
  if pos ≤ label.length then .ok (substrIs label pos text) else .error .outOfRange

def fltval (ti : MenuItem) (str : List Byte) : CFloat :=
  if ti.type = .float then getFloatValue str else zeroFloat

def intval (ti : MenuItem) (str : List Byte) : Int :=
  if ti.type = .int then getIntValue str else 0

/-- The comparisons that both ways make alike; the one with "Input" has no effect. -/
def assign (ti : MenuItem) (str : List Byte) (data : Polled) : Except PollFault Polled := do
  let data := if ← labelled ti.label 8 "actual" then
    { data with batteryVolts := fltval ti str } else data
  let data := if ← labelled ti.label 8 "TempComp" then
    { data with tempcompVolts := fltval ti str } else data
  let data := if ← labelled ti.label 0 "Inverter" then
    { data with acVoltsOut := intval ti str } else data
  let data := if ← labelled ti.label 0 "Grid" then
    { data with ac1VoltsIn := fltval ti str } else data
  let data := if ← labelled ti.label 0 "Generator" then
    { data with ac2VoltsIn := fltval ti str } else data
  return data

/-- On the way down, and whether the loop goes on. -/
def downAssign (ti : MenuItem) (str : List Byte) (data : Polled) :
    Except PollFault (Polled × Bool) :=
  if ti.type = .info then .ok (data, false)
  else do
    let data := if ← labelled ti.label 0 "Load" then
      { data with acLoadAmps := intval ti str } else data
    let data ← assign ti str data
    let data := if ← labelled ti.label 0 "Read Freq" then
      { data with hertz := intval ti str } else data
    return (data, true)

/-- On the way up four characters are compared with "Load " and its blank. -/
def upAssign (hertz : Int) (ti : MenuItem) (str : List Byte) (data : Polled) :
    Except PollFault Polled := do
  let data := if ti.label.take 4 == bytes "Load " then
    { data with acLoadAmps := intval ti str } else data
  let data ← assign ti str data
  return { data with hertz := hertz }

/-! ## The loops -/

section
variable {σ : Type} (L : Line σ)

def driving {α : Type} (x : Driving σ α) : Polling σ α := fun p =>
  match exec x p.ui with
  | (.ok a, ui) => (.ok a, { p with ui := ui })
  | (.error e, ui) => (.error (.driver e), { p with ui := ui })

/-- `str = MenuItemMinus();` or `MenuItemPlus`. -/
def visit (x : Driving σ Unit) : Polling σ (List Byte) := do
  driving x
  let p ← get
  set { p with visits := p.visits ++ [p.ui.cursor] }
  pure p.ui.menudisp

/-- `ti = GetItem();` -/
def currentItem : Polling σ MenuItem := do
  let p ← get
  driving (item p.ui.menuheading p.ui.menuitem)

def downRound (data : Polled) : Polling σ (Polled × Bool) := do
  let str ← visit (menuItemMinus L.panel)
  if str.length > 1 then do
    let ti ← currentItem
    liftM (downAssign ti str data)
  else pure (data, true)

def upRound (hertz : Int) (data : Polled) : Polling σ Polled := do
  let str ← visit (menuItemPlus L.panel)
  if str.length > 0 then do
    let ti ← currentItem
    liftM (upAssign hertz ti str data)
  else pure data

def goDown : Nat → Polled → Polling σ Polled
  | 0, data => pure data
  | n + 1, data => do
      let (data, more) ← downRound L data
      if more then goDown n data else pure data

def goUp (hertz : Int) : Nat → Polled → Polling σ Polled
  | 0, data => pure data
  | n + 1, data => do
      let data ← upRound L hertz data
      goUp hertz n data

def mi : Nat := 1
def items : Nat := 7

/-- `for (i=mi; i<= mi+items; i++)` and `for (i=mi+items; i>mi; i--)`. -/
def iteration : Polling σ Unit := do
  let downdata ← goDown L (items + 1) Polled.zero
  modify fun p => { p with meters := p.meters ++ [downdata] }
  let updata ← goUp L downdata.hertz items Polled.zero
  modify fun p => { p with meters := p.meters ++ [updata] }

def iterations : Nat → Polling σ Unit
  | 0 => driving (gotoMenuItem L.panel 4 mi)
  | n + 1 => do
      iterations n
      iteration L

def pollMeters (loops : Int) : Polling σ (List Polled) := do
  iterations L loops.toNat
  driving (menuHeadingPlus L.panel)
  driving (menuHeadingMinus L.panel)
  let p ← get
  pure p.meters

end

/-! ## Where an iteration leads -/

def below : Int × Int → Nat → List (Int × Int)
  | _, 0 => []
  | c, n + 1 => (c.1, c.2 + 1) :: below (c.1, c.2 + 1) n

def above : Int × Int → Nat → List (Int × Int)
  | _, 0 => []
  | c, n + 1 => (c.1, c.2 - 1) :: above (c.1, c.2 - 1) n

/-- The items of an iteration that starts at a cursor. -/
def stops (c : Int × Int) : List (Int × Int) :=
  below c (items + 1) ++ above (c.1, c.2 + items + 1) items

section
variable {σ : Type} {L : Line σ}

theorem exec_driving {α : Type} (x : Driving σ α) (p : Poll σ) :
    exec (driving x) p =
      match exec x p.ui with
      | (.ok a, ui) => (.ok a, { p with ui := ui })
      | (.error e, ui) => (.error (.driver e), { p with ui := ui }) := rfl

theorem exec_driving_ok {α : Type} {x : Driving σ α} {p q : Poll σ} {a : α}
    (h : exec (driving x) p = (.ok a, q)) :
    exec x p.ui = (.ok a, q.ui) ∧ q.visits = p.visits ∧ q.meters = p.meters := by
  rw [exec_driving] at h
  split at h
  · next b ui hx =>
    obtain ⟨hb, rfl⟩ := Prod.mk.inj h
    rw [hx, Except.ok.inj hb]
    exact ⟨rfl, rfl, rfl⟩
  · exact absurd (Prod.mk.inj h).1 (by simp)

/-- No item below a heading is found as an information line. -/
theorem type_ne_info {x y : Int} {it : MenuItem} (hy : y ≠ 0) (h : getItem x y = some it) :
    it.type ≠ .info := by
  have hall : ∀ r : Registration, r.item.type = .info → r.item.itemidx = 0 := by
    intro r htype
    cases r with
    | info => rfl
    | _ => exact Datatype.noConfusion htype
  rw [getItem_eq, Option.map_eq_some_iff] at h
  obtain ⟨r, hr, rfl⟩ := h
  intro hinfo
  have hidx := List.find?_some hr
  have hzero := hall r hinfo
  rw [beq_iff_eq, Registration.indices, Prod.mk.injEq, hzero] at hidx
  exact hy hidx.2.symm

/-- A round that ends well has moved to an item that is found. -/
structure Stopped (p q : Poll σ) (c : Int × Int) : Prop where
  found : Found c
  cursor : q.ui.cursor = c
  visits : q.visits = p.visits ++ [c]

theorem visit_ok {x : Driving σ Unit} {p q : Poll σ} {str : List Byte} {c : Int × Int}
    (hx : Settles L x p.ui (Found c) c) (h : exec (visit x) p = (.ok str, q)) :
    Stopped p q c := by
  obtain ⟨_, r, hr, hrest⟩ := exec_bind_ok_iff.mp h
  obtain ⟨hui, hvisits, -⟩ := exec_driving_ok hr
  unfold Settles Decides at hx
  rw [hui] at hx
  have hq : q = { r with visits := r.visits ++ [r.ui.cursor] } := (Prod.mk.inj hrest).2.symm
  rw [hq]
  exact ⟨hx.1, hx.2, by rw [hvisits, hx.2]⟩

theorem exec_currentItem (p : Poll σ) :
    exec currentItem p =
      match getItem p.ui.menuheading p.ui.menuitem with
      | some it => (.ok it, p)
      | none => (.error (.driver .noItem), p) := by
  have hdef : exec currentItem p =
      exec (driving (item p.ui.menuheading p.ui.menuitem)) p := rfl
  rw [hdef, exec_driving]
  cases hg : getItem p.ui.menuheading p.ui.menuitem with
  | none => rw [exec_item_none hg]
  | some it => rw [exec_item hg]

theorem currentItem_ok {p q : Poll σ} {it : MenuItem} (h : exec currentItem p = (.ok it, q)) :
    getItem p.ui.menuheading p.ui.menuitem = some it ∧ q = p := by
  rw [exec_currentItem] at h
  split at h
  · next it' hg =>
    obtain ⟨hit, rfl⟩ := Prod.mk.inj h
    rw [← Except.ok.inj hit]
    exact ⟨hg, rfl⟩
  · exact absurd (Prod.mk.inj h).1 (by simp)

/-- Only an information line ends the way down. -/
theorem downAssign_more {ti : MenuItem} {str : List Byte} {data : Polled} {r : Polled × Bool}
    (hti : ti.type ≠ .info) (h : downAssign ti str data = .ok r) : r.2 = true := by
  rw [downAssign, if_neg hti] at h
  obtain ⟨_, -, h⟩ := bind_ok_iff.mp h
  obtain ⟨_, -, h⟩ := bind_ok_iff.mp h
  obtain ⟨_, -, h⟩ := bind_ok_iff.mp h
  rw [← Except.ok.inj h]

/-- Behind the key a round only reads the state. -/
theorem downRound_visit {p q : Poll σ} {data : Polled} {r : Polled × Bool}
    (h : exec (downRound L data) p = (.ok r, q)) :
    (∃ str, exec (visit (menuItemMinus L.panel)) p = (.ok str, q)) ∧
      (q.ui.menuitem ≠ 0 → r.2 = true) := by
  obtain ⟨str, s, hs, hrest⟩ := exec_bind_ok_iff.mp h
  split at hrest
  · obtain ⟨ti, t, hti, hassign⟩ := exec_bind_ok_iff.mp hrest
    obtain ⟨hitem, rfl⟩ := currentItem_ok hti
    obtain ⟨hr, rfl⟩ := Prod.mk.inj hassign
    exact ⟨⟨str, hs⟩, fun hy => downAssign_more (type_ne_info hy hitem) hr⟩
  · obtain ⟨hr, rfl⟩ := Prod.mk.inj hrest
    rw [← Except.ok.inj hr]
    exact ⟨⟨str, hs⟩, fun _ => rfl⟩

theorem upRound_visit {p q : Poll σ} {hertz : Int} {data r : Polled}
    (h : exec (upRound L hertz data) p = (.ok r, q)) :
    ∃ str, exec (visit (menuItemPlus L.panel)) p = (.ok str, q) := by
  obtain ⟨str, s, hs, hrest⟩ := exec_bind_ok_iff.mp h
  split at hrest
  · obtain ⟨ti, t, hti, hassign⟩ := exec_bind_ok_iff.mp hrest
    obtain ⟨-, rfl⟩ := currentItem_ok hti
    obtain ⟨-, rfl⟩ := Prod.mk.inj hassign
    exact ⟨str, hs⟩
  · obtain ⟨-, rfl⟩ := Prod.mk.inj hrest
    exact ⟨str, hs⟩

theorem downRound_ok {p q : Poll σ} {data : Polled} {r : Polled × Bool}
    (hy : 0 ≤ p.ui.menuitem) (h : exec (downRound L data) p = (.ok r, q)) :
    Stopped p q (p.ui.menuheading, p.ui.menuitem + 1) ∧ r.2 = true := by
  have hsettles := settles_itemKeys (L := L) .down (fun mi => mi + 1) p.ui
  rw [← matchesSized_eq] at hsettles
  obtain ⟨⟨str, hs⟩, hmore⟩ := downRound_visit h
  have hstop := visit_ok hsettles hs
  obtain ⟨-, hmi⟩ := Prod.mk.inj hstop.cursor
  exact ⟨hstop, hmore (by omega)⟩

theorem upRound_ok {p q : Poll σ} {hertz : Int} {data r : Polled}
    (h : exec (upRound L hertz data) p = (.ok r, q)) :
    Stopped p q (p.ui.menuheading,
      if 1 < p.ui.menuitem then p.ui.menuitem - 1 else p.ui.menuitem) := by
  have hsettles := settles_itemKeys (L := L) .up (fun mi => if 1 < mi then mi - 1 else mi) p.ui
  obtain ⟨str, hs⟩ := upRound_visit h
  exact visit_ok hsettles hs

/-- Both ways stop at each item they pass. -/
structure Passed (p q : Poll σ) (cs : List (Int × Int)) (c : Int × Int) : Prop where
  found : ∀ c ∈ cs, Found c
  cursor : q.ui.cursor = c
  visits : q.visits = p.visits ++ cs

theorem Stopped.passed {p q r : Poll σ} {c d : Int × Int} {cs : List (Int × Int)}
    (h : Stopped p q c) (hrest : Passed q r cs d) : Passed p r (c :: cs) d where
  found := List.forall_mem_cons.mpr ⟨h.found, hrest.found⟩
  cursor := hrest.cursor
  visits := by rw [hrest.visits, h.visits, List.append_assoc, List.singleton_append]

theorem goDown_ok {n : Nat} : ∀ {p q : Poll σ} {data r : Polled} {x y : Int},
    p.ui.cursor = (x, y) → 0 ≤ y → exec (goDown L n data) p = (.ok r, q) →
      Passed p q (below (x, y) n) (x, y + n) := by
  induction n with
  | zero =>
    intro p q data r x y hc _ h
    obtain ⟨-, rfl⟩ := Prod.mk.inj h
    exact ⟨fun _ hc => absurd hc List.not_mem_nil, by rw [hc]; simp, by simp [below]⟩
  | succ n ih =>
    intro p q data r x y hc hy h
    obtain ⟨hmh, hmi⟩ := Prod.mk.inj hc
    obtain ⟨⟨data', more⟩, s, hs, hrest⟩ := exec_bind_ok_iff.mp h
    obtain ⟨hstop, hmore⟩ := downRound_ok (by omega) hs
    rw [hmh, hmi] at hstop
    dsimp only at hrest hmore
    rw [if_pos hmore] at hrest
    have hpassed := hstop.passed (ih hstop.cursor (by omega) hrest)
    rwa [Int.add_assoc, Int.add_comm 1, ← Nat.cast_one, ← Nat.cast_add] at hpassed

theorem goUp_ok {n : Nat} : ∀ {p q : Poll σ} {hertz : Int} {data r : Polled} {x y : Int},
    p.ui.cursor = (x, y) → n < y → exec (goUp L hertz n data) p = (.ok r, q) →
      Passed p q (above (x, y) n) (x, y - n) := by
  induction n with
  | zero =>
    intro p q hertz data r x y hc _ h
    obtain ⟨-, rfl⟩ := Prod.mk.inj h
    exact ⟨fun _ hc => absurd hc List.not_mem_nil, by rw [hc]; simp, by simp [above]⟩
  | succ n ih =>
    intro p q hertz data r x y hc hy h
    obtain ⟨hmh, hmi⟩ := Prod.mk.inj hc
    obtain ⟨data', s, hs, hrest⟩ := exec_bind_ok_iff.mp h
    have hstop := upRound_ok hs
    rw [hmh, hmi, if_pos (by omega)] at hstop
    have hpassed := hstop.passed (ih hstop.cursor (by omega) hrest)
    have hend : y - 1 - (n : Int) = y - ((n + 1 : Nat) : Int) := by omega
    rwa [hend] at hpassed

/-- The way up begins an item below the one that the way down began at. -/
theorem goDown_bottom {p s : Poll σ} {data downdata : Polled} {x y : Int}
    (hc : p.ui.cursor = (x, y)) (hy : 0 ≤ y)
    (h : exec (goDown L (items + 1) data) p = (.ok downdata, s)) :
    s.ui.cursor = (x, y + items + 1) ∧ (items : Int) < y + items + 1 := by
  have hdown := goDown_ok hc hy h
  refine ⟨?_, by omega⟩
  rw [hdown.cursor, Nat.cast_succ, Int.add_assoc]

/-- Both ways of an iteration that comes to its end. -/
theorem exec_iteration_ok {p q : Poll σ} (h : exec (iteration L) p = (.ok (), q)) :
    ∃ downdata s updata t, exec (goDown L (items + 1) Polled.zero) p = (.ok downdata, s) ∧
      exec (goUp L downdata.hertz items Polled.zero)
        { s with meters := s.meters ++ [downdata] } = (.ok updata, t) ∧
      q = { t with meters := t.meters ++ [updata] } := by
  simp only [iteration, exec_bind_ok_iff, exec_modify, Prod.mk.injEq] at h
  obtain ⟨downdata, s, hs, _, s', ⟨-, rfl⟩, updata, t, ht, -, rfl⟩ := h
  exact ⟨downdata, s, updata, t, hs, ht, rfl⟩

/-- An iteration that comes to its end leaves the cursor one item below its start. -/
theorem iteration_ok {p q : Poll σ} {x y : Int} (hc : p.ui.cursor = (x, y)) (hy : 0 ≤ y)
    (h : exec (iteration L) p = (.ok (), q)) :
    Passed p q (stops (x, y)) (x, y + 1) := by
  obtain ⟨downdata, s, updata, t, hs, ht, rfl⟩ := exec_iteration_ok h
  have hdown := goDown_ok hc hy hs
  obtain ⟨hbottom, hlt⟩ := goDown_bottom hc hy hs
  have hup := goUp_ok (p := { s with meters := s.meters ++ [downdata] }) hbottom hlt ht
  refine ⟨fun c hc => ?_, ?_, ?_⟩
  · rcases List.mem_append.mp hc with hc | hc
    · exact hdown.found c hc
    · exact hup.found c hc
  · have hcursor := hup.cursor
    have hend : y + items + 1 - items = y + 1 := by omega
    rwa [hend] at hcursor
  · have hvisits : t.visits = s.visits ++ above (x, y + items + 1) items := hup.visits
    show t.visits = _
    rw [hvisits, hdown.visits, stops, List.append_assoc]

/-- Before an iteration the cursor is as many items too low as there were iterations. -/
theorem iterations_ok {n : Nat} : ∀ {p q : Poll σ}, exec (iterations L n) p = (.ok (), q) →
    q.ui.cursor = (4, 1 + (n : Int)) := by
  induction n with
  | zero =>
    intro p q h
    obtain ⟨hui, -, -⟩ := exec_driving_ok h
    have hsettles := settles_gotoMenuItem (L := L) 4 mi p.ui
    unfold Settles Decides at hsettles
    rw [hui] at hsettles
    exact hsettles.2
  | succ n ih =>
    intro p q h
    obtain ⟨_, s, hs, hrest⟩ := exec_bind_ok_iff.mp h
    have hpassed := iteration_ok (ih hs) (by omega) hrest
    rw [hpassed.cursor, Nat.cast_succ, Int.add_assoc]

end

/-! ## Whole runs -/

section
variable {σ : Type} (L : Line σ)

/-- Each iteration comes to its end with the same stops, and with cursor and display
where it found them. -/
def NoDrift (position : σ → Int × Int) (loops : Int) (p : Poll σ) : Prop :=
  ∃ visited, ∀ i : Nat, (i : Int) < loops → ∃ s t,
    exec (iterations L i) p = (.ok (), s) ∧ exec (iteration L) s = (.ok (), t) ∧
      t.visits = s.visits ++ visited ∧ t.ui.cursor = s.ui.cursor ∧
      position t.ui.panel = position s.ui.panel

/-- Every iteration goes down once more than it goes up. -/
theorem noDrift_iff (position : σ → Int × Int) (loops : Int) (p : Poll σ) :
    NoDrift L position loops p ↔ loops ≤ 0 := by
  constructor
  · rintro ⟨visited, h⟩
    by_contra hpos
    obtain ⟨s, t, hs, ht, -, hcursor, -⟩ := h 0 (by omega)
    have hstart := iterations_ok hs
    rw [(iteration_ok hstart (by omega) ht).cursor, hstart] at hcursor
    have hitem := (Prod.mk.inj hcursor).2
    omega
  · intro hloops
    exact ⟨[], fun i hi => by omega⟩

/-- The second iteration looks for an item behind the last one. -/
theorem pollMeters_stops {loops : Int} (h : 1 < loops) (p : Poll σ) (meters : List Polled) :
    (exec (pollMeters L loops) p).1 ≠ .ok meters := by
  intro he
  obtain ⟨_, q, hq, -⟩ := exec_bind_ok_iff.mp (Prod.ext he rfl)
  have htwo : ∀ n : Nat, 1 < n → ∀ q, exec (iterations L n) p ≠ (.ok (), q) := by
    intro n hn
    induction n, hn using Nat.le_induction with
    | base =>
      intro q hq
      obtain ⟨_, s, hs, hrest⟩ := exec_bind_ok_iff.mp hq
      have hpassed := iteration_ok (iterations_ok hs) (by decide) hrest
      exact absurd (hpassed.found (4, 10) (by decide)) (by decide +kernel)
    | succ n _ ih =>
      intro q hq
      obtain ⟨_, s, hs, -⟩ := exec_bind_ok_iff.mp hq
      exact ih s hs
  exact htwo loops.toNat (by omega) q hq

end

/-! ## A display that answers -/

section
variable {σ : Type} (L : Line σ)

/-- The first of so many answers to a key that contains the label, and the display behind
it. -/
def answer (k : Key) (label : List Byte) : Nat → σ → Option (List Byte × σ)
  | 0, _ => none
  | tries + 1, s =>
      match readSerial L.panel (L.press k s).1 with
      | .ok disp =>
          if occursIn label disp then some (disp, (L.press k s).2)
          else answer k label tries (L.press k s).2
      | .error _ => none

/-- Every key on the way is answered with the label of its item at once, up to an item
that is not found. -/
def prompt : List (Key × (Int × Int)) → σ → Bool
  | [], _ => true
  | (k, c) :: rest, s =>
      match getItem c.1 c.2 with
      | some it => (answer L k it.label 1 s).isSome && prompt rest (L.press k s).2
      | none => true

/-- The keys of an iteration that starts at a cursor. -/
def keys (c : Int × Int) : List (Key × (Int × Int)) :=
  (below c (items + 1)).map (Key.down, ·) ++
    (above (c.1, c.2 + items + 1) items).map (Key.up, ·)

/-- Every key moves the display, and in every iteration each is answered at once. -/
structure Answers (position : σ → Int × Int) (loops : Int) (p : Poll σ) : Prop where
  moves : ∀ k s, position (L.press k s).2 = k.moved (position s)
  prompt : ∀ i : Nat, (i : Int) < loops → ∀ s, exec (iterations L i) p = (.ok (), s) →
    prompt L (keys s.ui.cursor) s.ui.panel = true

end

section
variable {σ : Type} {L : Line σ}

/-- The loop of a key ends with the answer. -/
theorem exec_retry_answer {k : Key} {it : MenuItem} {line : List Byte} {t : σ} (tries : Nat) :
    ∀ {u : UI σ}, getItem u.menuheading u.menuitem = some it →
      answer L k it.label tries u.panel = some (line, t) →
      ∃ u', exec (retry (send L.panel k) matchesLabel tries) u = (.ok (), u') ∧
        u'.cursor = u.cursor ∧ u'.menudisp = line ∧ u'.panel = t := by
  induction tries with
  | zero =>
    intro u _ h
    exact absurd h (by simp [answer])
  | succ tries ih =>
    intro u hit h
    rw [answer] at h
    split at h
    · next disp hread =>
      have hsend : exec (send L.panel k) u =
          (.ok (), { pressed L.panel k u with menudisp := disp }) := by
        rw [exec_send, show readSerial L.panel (L.panel.press k u.panel).1 = _ from hread]
      have htest : exec matchesLabel { pressed L.panel k u with menudisp := disp } =
          (.ok (occursIn it.label disp), { pressed L.panel k u with menudisp := disp }) :=
        exec_matchesLabel hit
      split at h
      · next hshown =>
        obtain ⟨rfl, rfl⟩ := Prod.mk.inj (Option.some.inj h)
        refine ⟨{ pressed L.panel k u with menudisp := disp }, ?_, rfl, rfl, rfl⟩
        rw [retry, exec_bind_ok hsend, exec_bind_ok htest, hshown]
        rfl
      · next hother =>
        obtain ⟨u', hrun, hcursor, hdisp, hpanel⟩ :=
          ih (u := { pressed L.panel k u with menudisp := disp }) hit h
        refine ⟨u', ?_, hcursor, hdisp, hpanel⟩
        rw [retry, exec_bind_ok hsend, exec_bind_ok htest, Bool.eq_false_iff.mpr hother]
        exact hrun
    · exact absurd h (by simp)

/-- A round that is answered shows the answer at the next item. -/
theorem exec_visit_answer {k : Key} {next : Int → Int} {p : Poll σ} {it : MenuItem}
    {line : List Byte} {t : σ} (hit : getItem p.ui.menuheading (next p.ui.menuitem) = some it)
    (h : answer L k it.label 5 p.ui.panel = some (line, t)) :
    ∃ q, exec (visit (itemKeys L.panel k next matchesLabel)) p = (.ok line, q) ∧
      q.ui.cursor = (p.ui.menuheading, next p.ui.menuitem) ∧ q.ui.panel = t ∧
      q.meters = p.meters := by
  obtain ⟨u', hrun, hcursor, hdisp, hpanel⟩ := exec_retry_answer (L := L) 5
    (u := { p.ui with menuitem := next p.ui.menuitem }) hit h
  have hkeys : exec (itemKeys L.panel k next matchesLabel) p.ui = (.ok (), u') := hrun
  have hdriving : exec (driving (itemKeys L.panel k next matchesLabel)) p =
      (.ok (), { p with ui := u' }) := by rw [exec_driving, hkeys]
  refine ⟨{ p with ui := u', visits := p.visits ++ [u'.cursor] }, ?_, hcursor, hpanel, rfl⟩
  rw [visit, exec_bind_ok hdriving, ← hdisp]
  rfl

theorem answer_at_once {k : Key} {label : List Byte} {s : σ}
    (h : (answer L k label 1 s).isSome = true) (tries : Nat) :
    ∃ line, answer L k label (tries + 1) s = some (line, (L.press k s).2) := by
  rw [answer] at h ⊢
  split at h
  · next disp hread =>
    split at h
    · next hshown => exact ⟨disp, by rw [if_pos hshown]⟩
    · exact absurd h (by simp [answer])
  · exact absurd h (by simp)

/-- A round that is answered at once takes one key. -/
theorem panel_of_prompt {k : Key} {next : Int → Int} {p q : Poll σ} {str : List Byte}
    {rest : List (Key × (Int × Int))}
    (h : exec (visit (itemKeys L.panel k next matchesLabel)) p = (.ok str, q))
    (hf : Found (p.ui.menuheading, next p.ui.menuitem))
    (hprompt : prompt L ((k, (p.ui.menuheading, next p.ui.menuitem)) :: rest) p.ui.panel = true) :
    q.ui.panel = (L.press k p.ui.panel).2 ∧ prompt L rest q.ui.panel = true := by
  obtain ⟨it, hit⟩ := Option.isSome_iff_exists.mp hf
  have hstep : (answer L k it.label 1 p.ui.panel).isSome = true ∧
      prompt L rest (L.press k p.ui.panel).2 = true := by
    rw [prompt] at hprompt
    simpa only [hit, Bool.and_eq_true] using hprompt
  obtain ⟨line, hline⟩ := answer_at_once hstep.1 4
  obtain ⟨q', hq', -, hpanel, -⟩ := exec_visit_answer hit hline
  obtain rfl := (Prod.mk.inj (hq'.symm.trans h)).2
  rw [hpanel]
  exact ⟨rfl, hstep.2⟩

theorem goDown_prompt {position : σ → Int × Int}
    (hmoves : ∀ k s, position (L.press k s).2 = k.moved (position s)) {n : Nat} :
    ∀ {p q : Poll σ} {data r : Polled} {x y : Int} {rest : List (Key × (Int × Int))},
      p.ui.cursor = (x, y) → 0 ≤ y → exec (goDown L n data) p = (.ok r, q) →
      prompt L ((below (x, y) n).map (Key.down, ·) ++ rest) p.ui.panel = true →
      position q.ui.panel = ((position p.ui.panel).1, (position p.ui.panel).2 + n) ∧
        prompt L rest q.ui.panel = true := by
  induction n with
  | zero =>
    intro p q data r x y rest _ _ h hprompt
    obtain ⟨-, rfl⟩ := Prod.mk.inj h
    exact ⟨by simp, hprompt⟩
  | succ n ih =>
    intro p q data r x y rest hc hy h hprompt
    obtain ⟨hmh, hmi⟩ := Prod.mk.inj hc
    obtain ⟨⟨data', more⟩, s, hs, hrest⟩ := exec_bind_ok_iff.mp h
    obtain ⟨hstop, hmore⟩ := downRound_ok (by omega) hs
    obtain ⟨⟨str, hvisit⟩, -⟩ := downRound_visit hs
    dsimp only at hrest hmore
    rw [if_pos hmore] at hrest
    rw [menuItemMinus, matchesSized_eq] at hvisit
    obtain ⟨hpanel, hnext⟩ := panel_of_prompt hvisit hstop.found (by rw [hmh, hmi]; exact hprompt)
    rw [hmh, hmi] at hstop
    obtain ⟨hposition, hdone⟩ := ih hstop.cursor (by omega) hrest hnext
    refine ⟨?_, hdone⟩
    rw [hposition, hpanel, hmoves, Key.moved, Nat.cast_succ, Int.add_assoc, Int.add_comm 1]

theorem goUp_prompt {position : σ → Int × Int}
    (hmoves : ∀ k s, position (L.press k s).2 = k.moved (position s)) {n : Nat} :
    ∀ {p q : Poll σ} {hertz : Int} {data r : Polled} {x y : Int},
      p.ui.cursor = (x, y) → n < y → exec (goUp L hertz n data) p = (.ok r, q) →
      prompt L ((above (x, y) n).map (Key.up, ·)) p.ui.panel = true →
      position q.ui.panel = ((position p.ui.panel).1, (position p.ui.panel).2 - n) := by
  induction n with
  | zero =>
    intro p q hertz data r x y _ _ h _
    obtain ⟨-, rfl⟩ := Prod.mk.inj h
    simp
  | succ n ih =>
    intro p q hertz data r x y hc hy h hprompt
    obtain ⟨hmh, hmi⟩ := Prod.mk.inj hc
    obtain ⟨data', s, hs, hrest⟩ := exec_bind_ok_iff.mp h
    have hstop := upRound_ok hs
    obtain ⟨str, hvisit⟩ := upRound_visit hs
    have hnext : (if 1 < p.ui.menuitem then p.ui.menuitem - 1 else p.ui.menuitem) = y - 1 := by
      rw [hmi, if_pos (by omega)]
    rw [menuItemPlus] at hvisit
    obtain ⟨hpanel, hprompt'⟩ := panel_of_prompt hvisit hstop.found
      (by rw [hmh, hnext]; exact hprompt)
    rw [hmh, hnext] at hstop
    rw [ih hstop.cursor (by omega) hrest hprompt', hpanel, hmoves, Key.moved, Nat.cast_succ,
      Int.sub_sub, Int.add_comm 1]

/-- The display of a prompt device drifts with the cursor. -/
theorem iteration_prompt {position : σ → Int × Int}
    (hmoves : ∀ k s, position (L.press k s).2 = k.moved (position s)) {p q : Poll σ} {x y : Int}
    (hc : p.ui.cursor = (x, y)) (hy : 0 ≤ y) (h : exec (iteration L) p = (.ok (), q))
    (hprompt : prompt L (keys (x, y)) p.ui.panel = true) :
    position q.ui.panel = ((position p.ui.panel).1, (position p.ui.panel).2 + 1) := by
  obtain ⟨downdata, s, updata, t, hs, ht, rfl⟩ := exec_iteration_ok h
  obtain ⟨hbottom, hlt⟩ := goDown_bottom hc hy hs
  obtain ⟨hposition, hrest⟩ := goDown_prompt hmoves hc hy hs hprompt
  have hup := goUp_prompt hmoves (p := { s with meters := s.meters ++ [downdata] }) hbottom hlt ht
    hrest
  dsimp only at hup ⊢
  rw [hup, hposition, Nat.cast_succ]
  congr 1
  omega

end

/-- It shows the label of the item below the one it is at. -/
def ahead : Line (Int × Int) where
  uartfd := 3
  isOpen := firstPort_open
  press k p :=
    let moved := k.moved p
    ((labelAt (moved.1, if moved.2 = 0 then 0 else moved.2 + 1)).getD [], moved)
  setup p := ([], p)

def aheadPoll : Poll (Int × Int) := ⟨⟨2, 0, [], (2, 0), []⟩, [], []⟩

/-- One iteration, each key of which is answered at once, ends below its start. -/
theorem ahead_drifts :
    ¬ ∀ (σ : Type) (L : Line σ) (position : σ → Int × Int) (loops : Int) (p : Poll σ),
      Answers L position loops p → NoDrift L position loops p := by
  intro h
  have hanswers : Answers ahead id 1 aheadPoll := by
    refine ⟨fun _ _ => rfl, fun i hi s hs => ?_⟩
    obtain rfl : i = 0 := by omega
    have hpanel : (exec (iterations ahead 0) aheadPoll).2.ui.panel = (4, 0) := by decide +kernel
    have hcursor := iterations_ok hs
    rw [hs] at hpanel
    rw [hcursor, hpanel]
    decide +kernel
  obtain ⟨visited, hround⟩ := h (Int × Int) ahead id 1 aheadPoll hanswers
  obtain ⟨s, t, hs, ht, -, hcursor, -⟩ := hround 0 (by decide)
  have hstart := iterations_ok hs
  rw [(iteration_ok hstart (by decide) ht).cursor, hstart] at hcursor
  exact absurd (Prod.mk.inj hcursor).2 (by decide)

end PowerGuru.Devices.XantrexPoll
