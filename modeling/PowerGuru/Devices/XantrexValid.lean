import PowerGuru.Lib.Outcome
import PowerGuru.Devices.XantrexCursor

/-!
# Where the cursor may be

`GetItem` finds no item for some of the positions that the calls move the cursor to. Only
the cursor decides that, whatever the inverter answers.
-/
namespace PowerGuru.Devices.XantrexValid

open Lib.Bytes Lib.Exec Lib.Loops Lib.Outcome XantrexTable XantrexUI XantrexCursor

/-- An inverter that may answer anything to a key and to the setup byte. -/
structure Line (σ : Type) where
  uartfd : Int
  isOpen : 0 < uartfd
  press : Key → σ → List Byte × σ
  setup : σ → List Byte × σ

/-- Nothing is known of its display, so it is never taken to be inside the menu. -/
def Line.panel {σ : Type} (L : Line σ) : Panel σ where
  uartfd := L.uartfd
  isOpen := L.isOpen
  position := fun _ => (-1, 0)
  press := L.press
  moves := fun _ _ h => absurd h (by decide +kernel)
  answers := fun _ _ h => absurd h (by decide +kernel)

inductive Operation where
  | call (c : Call)
  | setupMenu
  deriving DecidableEq, Repr

section
variable {σ : Type} (L : Line σ)

/-- `Read((char *)&buffy, 100); menudisp = buffy;` -/
def readBuffy (reply : List Byte) : Except Fault (List Byte) :=
  match Serial.read L.uartfd (answering reply) 100 (List.replicate 100 NUL) with
  | (_, buffy) => if NUL ∈ buffy then .ok (cstr buffy) else .error .overread

/-- The buffer is logged as a string before the cursor is set. -/
def setupMenu : Driving σ Unit := do
  let u ← get
  set { u with panel := (L.setup u.panel).2 }
  let buffy ← liftM (readBuffy L (L.setup u.panel).1)
  moveTo 8 0
  modify fun u => { u with menudisp := buffy }

def operate : Operation → Driving σ Unit
  | .call c => call L.panel c
  | .setupMenu => setupMenu L

end

/-- `GetItem` finds the item. -/
def Found (c : Int × Int) : Prop := (getItem c.1 c.2).isSome = true

instance (c : Int × Int) : Decidable (Found c) := inferInstanceAs (Decidable (_ = true))

section
variable {σ : Type} (L : Line σ)

/-- Before and after every operation the cursor is at an item, and no lookup in between
fails. What happens behind an overread is left open. -/
def ValidThroughout : List Operation → UI σ → Prop
  | [], u => Found u.cursor
  | o :: os, u =>
      Found u.cursor ∧ (exec (operate L o) u).1 ≠ .error .noItem ∧
        ((exec (operate L o) u).1 = .ok () → ValidThroughout os (exec (operate L o) u).2)

end

/-- The cursor behind an operation. -/
def Operation.after (c : Int × Int) : Operation → Int × Int
  | .call .gotoMenuStart => (1, 0)
  | .call (.gotoMenuItem mh mi) => (mh, mi)
  | .call .menuHeadingPlus => (c.1 + 1, 0)
  | .call .menuHeadingMinus => (if 1 < c.1 then c.1 - 1 else c.1, 0)
  | .call .menuItemMinus => (c.1, c.2 + 1)
  | .call .menuItemPlus => (c.1, if 1 < c.2 then c.2 - 1 else c.2)
  | .setupMenu => (8, 0)

/-- The items on the way that `GotoMenuItem` looks up. -/
def Passes : Operation → Prop
  | .call (.gotoMenuItem mh mi) => ∀ k : Nat, k < (mi - 1).toNat → Found (mh, k + 1)
  | _ => True

/-- The cursor starts at an item, and so does every position the operations lead it to. -/
def Steady (c : Int × Int) : List Operation → Prop
  | [] => Found c
  | o :: os => Found c ∧ Passes o ∧ Steady (o.after c) os

theorem heading_found {p : Int × Int} (h : Found p) : 0 ≤ p.1 ∧ p.1 ≤ 20 := by
  obtain ⟨it, hit⟩ := Option.isSome_iff_exists.mp h
  refine heading_range p ((inMenu_iff p).mp ?_)
  rw [InMenu, labelAt_of_getItem hit]
  rfl

theorem found_heading : ∀ i : Nat, i < 21 → Found ((i : Int), 0) := by decide +kernel

/-- The first heading has no items. -/
theorem found_top {k : Int} (h : Found (0, k)) : k = 0 := by
  obtain ⟨it, hit⟩ := Option.isSome_iff_exists.mp h
  have hm := (inMenu_iff (0, k)).mp (by rw [InMenu, labelAt_of_getItem hit]; rfl)
  exact (position_heading _ hm).2.2 rfl

section
variable {σ : Type} {L : Line σ}

/-! ## Each part -/

/-- Some answer fills the buffer and is read past its end. -/
def Line.Loud (L : Line σ) : Prop :=
  (∃ k s e, readSerial L.panel (L.press k s).1 = .error e) ∨
    ∃ s e, readBuffy L (L.setup s).1 = .error e

/-- The outcome of a loud line. -/
def Noise (L : Line σ) (e : Fault) : Prop := e = .overread ∧ L.Loud

/-- A failed lookup is settled in advance; an overread depends on the answers. -/
abbrev Settles (L : Line σ) {α : Type} (x : Driving σ α) (u : UI σ) (ok : Prop)
    (c : Int × Int) : Prop :=
  Decides (· = Fault.noItem) (Noise L) x u ok (fun t => t.cursor = c)

theorem readSerial_error {P : Panel σ} {reply : List Byte} {e : Fault}
    (h : readSerial P reply = .error e) : e = .overread := by
  unfold readSerial at h
  split at h
  split at h
  · split at h
    · exact absurd h (by simp)
    · exact (Except.error.inj h).symm
  · exact absurd h (by simp)

theorem readBuffy_error {reply : List Byte} {e : Fault} (h : readBuffy L reply = .error e) :
    e = .overread := by
  unfold readBuffy at h
  split at h
  split at h
  · exact absurd h (by simp)
  · exact (Except.error.inj h).symm

theorem settles_send (k : Key) (u : UI σ) : Settles L (send L.panel k) u True u.cursor := by
  cases hr : readSerial L.panel (L.panel.press k u.panel).1 with
  | ok disp =>
    have hs : exec (send L.panel k) u =
        (.ok (), { pressed L.panel k u with menudisp := disp }) := by rw [exec_send, hr]
    exact decides_ok hs trivial rfl
  | error e =>
    have hs : exec (send L.panel k) u = (.error e, pressed L.panel k u) := by rw [exec_send, hr]
    exact decides_noise hs ⟨readSerial_error hr, Or.inl ⟨k, u.panel, e, hr⟩⟩

theorem settles_item (c : Int × Int) (u : UI σ) :
    Settles L (item c.1 c.2) u (Found c) u.cursor := by
  cases h : getItem c.1 c.2 with
  | some it => exact decides_ok (exec_item h u) (by rw [Found, h]; rfl) rfl
  | none => exact decides_miss (exec_item_none h u) rfl (by rw [Found, h]; simp)

theorem settles_getLabel (u : UI σ) : Settles L getLabel u (Found u.cursor) u.cursor := by
  cases h : getItem u.menuheading u.menuitem with
  | some it => exact decides_ok (exec_getLabel h) (by rw [Found, UI.cursor, h]; rfl) rfl
  | none => exact decides_miss (exec_getLabel_none h) rfl (by rw [Found, UI.cursor, h]; simp)

theorem settles_matchesLabel (u : UI σ) : Settles L matchesLabel u (Found u.cursor) u.cursor := by
  cases h : getItem u.menuheading u.menuitem with
  | some it => exact decides_ok (exec_matchesLabel h) (by rw [Found, UI.cursor, h]; rfl) rfl
  | none => exact decides_miss (exec_matchesLabel_none h) rfl (by rw [Found, UI.cursor, h]; simp)

theorem settles_moveTo (x y : Int) (u : UI σ) : Settles L (moveTo x y) u True (x, y) := by
  have hm : exec (moveTo x y) u = (.ok (), { u with menuheading := x, menuitem := y }) := rfl
  exact decides_ok hm trivial rfl

theorem settles_gotoMenuStart (u : UI σ) : Settles L (gotoMenuStart L.panel) u True (1, 0) := by
  have hloop : Decides (· = Fault.noItem) (Noise L)
      (retry (send L.panel .left) (shows (bytes "Inverter")) 22) u (22 = 0 ∨ True)
      (fun _ => True) := by
    refine decides_retry (fun _ => True) True ?_ ?_ 22 trivial
    · intro s _
      exact (settles_send .left s).congr Iff.rfl fun _ _ _ => trivial
    · intro s _
      exact decides_ok (exec_shows _ s) trivial trivial
  refine (hloop.bind fun _ _ t _ => settles_moveTo 1 0 t).congr ?_ fun _ _ h => h
  simp

theorem settles_headingKey (k : Key) (next : Int → Int) (u : UI σ) :
    Settles L (headingKey L.panel k next) u (Found (next u.menuheading, 0))
      (next u.menuheading, 0) := by
  have hrest : ∀ t : UI σ, t.cursor = u.cursor → Settles L (do
      let u ← get
      moveTo (next u.menuheading) 0
      let _ ← getLabel) t (Found (next u.menuheading, 0)) (next u.menuheading, 0) := by
    intro t ht
    obtain ⟨hmh, -⟩ := Prod.mk.inj ht
    have hmove : exec (do
        let u ← get
        moveTo (next u.menuheading) 0
        let _ ← getLabel) t =
        exec (getLabel >>= fun _ => pure ())
          { t with menuheading := next t.menuheading, menuitem := 0 } := rfl
    have hlabel := (settles_getLabel (L := L)
      { t with menuheading := next t.menuheading, menuitem := 0 }).bind
        fun _ _ s hs => decides_ok (exec_pure () s) trivial hs
    unfold Settles Decides
    rw [hmove, ← hmh]
    refine hlabel.congr ?_ fun _ _ h => h
    simp [UI.cursor]
  refine ((settles_send k u).bind fun _ _ t ht => hrest t ht).congr ?_ fun _ _ h => h
  simp

theorem settles_itemKeys (k : Key) (next : Int → Int) (u : UI σ) :
    Settles L (itemKeys L.panel k next matchesLabel) u (Found (u.menuheading, next u.menuitem))
      (u.menuheading, next u.menuitem) := by
  have hloop : Settles L (retry (send L.panel k) matchesLabel 5)
      { u with menuitem := next u.menuitem } (5 = 0 ∨ Found (u.menuheading, next u.menuitem))
      (u.menuheading, next u.menuitem) := by
    refine decides_retry (fun t : UI σ => t.cursor = (u.menuheading, next u.menuitem)) _ ?_ ?_ 5 rfl
    · intro s hs
      rw [← hs]
      exact settles_send k s
    · intro s hs
      rw [← hs]
      exact settles_matchesLabel s
  have hkeys : Settles L (itemKeys L.panel k next matchesLabel) u
      (5 = 0 ∨ Found (u.menuheading, next u.menuitem)) (u.menuheading, next u.menuitem) := hloop
  exact hkeys.congr (by simp) fun _ _ h => h

/-! ## Each operation -/

theorem settles_setupMenu (u : UI σ) : Settles L (setupMenu L) u True (8, 0) := by
  cases hr : readBuffy L (L.setup u.panel).1 with
  | ok buffy =>
    have hs : exec (setupMenu L) u = (.ok (),
        { u with panel := (L.setup u.panel).2, menuheading := 8, menuitem := 0,
                 menudisp := buffy }) := by
      rw [setupMenu, exec_bind_ok (exec_get u), exec_bind_ok (exec_set u _), hr]
      rfl
    exact decides_ok hs trivial rfl
  | error e =>
    have hs : exec (setupMenu L) u = (.error e, { u with panel := (L.setup u.panel).2 }) := by
      rw [setupMenu, exec_bind_ok (exec_get u), exec_bind_ok (exec_set u _), hr]
      rfl
    exact decides_noise hs ⟨readBuffy_error hr, Or.inr ⟨u.panel, e, hr⟩⟩

theorem settles_headings (n : Nat) {u : UI σ} (hu : u.cursor = (1, 0)) :
    Settles L (times (menuHeadingPlus L.panel) n) u (∀ j, j < n → Found (((j + 2 : Nat) : Int), 0))
      (((n + 1 : Nat) : Int), 0) := by
  have hround : ∀ (i : Nat) (s : UI σ), s.cursor = (((i + 1 : Nat) : Int), 0) →
      Settles L (menuHeadingPlus L.panel) s (Found (((i + 2 : Nat) : Int), 0))
        (((i + 2 : Nat) : Int), 0) := by
    intro i s hs
    obtain ⟨hmh, -⟩ := Prod.mk.inj hs
    have hnext : s.menuheading + 1 = ((i + 2 : Nat) : Int) := by omega
    have hkey := settles_headingKey (L := L) .right (fun mh => mh + 1) s
    rwa [hnext] at hkey
  have hrun := decides_times (fun i (s : UI σ) => s.cursor = (((i + 1 : Nat) : Int), 0)) _ hround n
    (i := 0) hu
  simpa using hrun

theorem settles_items (x : Int) (n : Nat) {u : UI σ} (hu : u.cursor = (x, 0)) :
    Settles L (times (menuItemMinus L.panel) n) u (∀ j : Nat, j < n → Found (x, j + 1))
      (x, n) := by
  have hround : ∀ (i : Nat) (s : UI σ), s.cursor = (x, (i : Int)) →
      Settles L (menuItemMinus L.panel) s (Found (x, i + 1)) (x, ((i + 1 : Nat) : Int)) := by
    intro i s hs
    obtain ⟨hmh, hmi⟩ := Prod.mk.inj hs
    have hkey := settles_itemKeys (L := L) .down (fun mi => mi + 1) s
    rw [hmh, hmi, ← matchesSized_eq] at hkey
    exact hkey
  have hrun := decides_times (fun i (s : UI σ) => s.cursor = (x, (i : Int))) _ hround n (i := 0) hu
  simpa using hrun

theorem settles_gotoMenuItem (mh mi : Int) (u : UI σ) :
    Settles L (gotoMenuItem L.panel mh mi) u
      (Found (mh, mi) ∧ ∀ k : Nat, k < (mi - 1).toNat → Found (mh, k + 1)) (mh, mi) := by
  have hkeys : Found (mh, mi) → ∀ t : UI σ, t.cursor = (1, 0) → Settles L (do
      times (menuHeadingPlus L.panel) (mh - 1).toNat
      times (menuItemMinus L.panel) (mi - 1).toNat
      moveTo mh mi) t (∀ k : Nat, k < (mi - 1).toNat → Found (mh, k + 1)) (mh, mi) := by
    intro hf t ht
    obtain ⟨h0, h20⟩ := heading_found hf
    have hheadings := (settles_headings (L := L) (mh - 1).toNat ht).congr
      (iff_of_true (fun j hj => found_heading (j + 2) (by simp only at h20; omega)) trivial)
      fun _ _ h => h
    refine (hheadings.bind fun _ _ s hs => (settles_items _ (mi - 1).toNat hs).bind
      fun _ _ r _ => settles_moveTo mh mi r).congr ?_ fun _ _ h => h
    rcases Int.lt_or_le mh 1 with h1 | h1
    · obtain rfl : mh = 0 := by simp only at h0; omega
      obtain rfl := found_top hf
      simp
    · have hmh : (((mh - 1).toNat + 1 : Nat) : Int) = mh := by omega
      rw [hmh]
      simp
  have hitem : ∀ t : UI σ, t.cursor = (1, 0) →
      Settles L (item mh mi) t (Found (mh, mi)) (1, 0) := by
    intro t ht
    rw [← ht]
    exact settles_item (mh, mi) t
  refine ((settles_gotoMenuStart u).bind fun _ _ t ht => (hitem t ht).bind
    fun hf _ s hs => hkeys hf s hs).congr ?_ fun _ _ h => h
  simp

theorem settles_operate (o : Operation) (u : UI σ) :
    Settles L (operate L o) u (Passes o ∧ Found (o.after u.cursor)) (o.after u.cursor) := by
  cases o with
  | setupMenu =>
    have hf : Found (8, 0) := found_heading 8 (by decide)
    exact (settles_setupMenu u).congr (iff_of_true trivial ⟨trivial, hf⟩) fun _ _ h => h
  | call c =>
    cases c with
    | gotoMenuStart =>
      have hf : Found (1, 0) := found_heading 1 (by decide)
      exact (settles_gotoMenuStart u).congr (iff_of_true trivial ⟨trivial, hf⟩) fun _ _ h => h
    | gotoMenuItem mh mi =>
      exact (settles_gotoMenuItem mh mi u).congr and_comm fun _ _ h => h
    | menuHeadingPlus =>
      have hkey := settles_headingKey (L := L) .right (fun mh => mh + 1) u
      exact hkey.congr (and_iff_right trivial).symm fun _ _ h => h
    | menuHeadingMinus =>
      have hkey := settles_headingKey (L := L) .left (fun mh => if 1 < mh then mh - 1 else mh) u
      exact hkey.congr (and_iff_right trivial).symm fun _ _ h => h
    | menuItemMinus =>
      have hkey := settles_itemKeys (L := L) .down (fun mi => mi + 1) u
      rw [← matchesSized_eq] at hkey
      exact hkey.congr (and_iff_right trivial).symm fun _ _ h => h
    | menuItemPlus =>
      have hkey := settles_itemKeys (L := L) .up (fun mi => if 1 < mi then mi - 1 else mi) u
      exact hkey.congr (and_iff_right trivial).symm fun _ _ h => h

/-! ## Whole runs -/

/-- How an operation ends that finds its items, and how one that does not. -/
theorem operate_cases (o : Operation) (u : UI σ) :
    (∃ t, exec (operate L o) u = (.ok (), t) ∧ Passes o ∧ Found (o.after u.cursor) ∧
      t.cursor = o.after u.cursor) ∨
    (∃ t, exec (operate L o) u = (.error .overread, t) ∧ L.Loud) ∨
    ∃ t, exec (operate L o) u = (.error .noItem, t) ∧ ¬ (Passes o ∧ Found (o.after u.cursor)) := by
  have h := settles_operate (L := L) o u
  unfold Settles Decides at h
  cases hx : exec (operate L o) u with
  | mk r t =>
    rw [hx] at h
    cases r with
    | ok a => exact Or.inl ⟨t, rfl, h.1.1, h.1.2, h.2⟩
    | error e =>
      rcases h with ⟨rfl, hl⟩ | ⟨rfl, hn⟩
      · exact Or.inr (Or.inl ⟨t, rfl, hl⟩)
      · exact Or.inr (Or.inr ⟨t, rfl, hn⟩)

theorem valid_of_steady (os : List Operation) {u : UI σ} (h : Steady u.cursor os) :
    ValidThroughout L os u := by
  induction os generalizing u with
  | nil => exact h
  | cons o os ih =>
    obtain ⟨hf, hp, hs⟩ := h
    refine ⟨hf, ?_, ?_⟩
    · rcases operate_cases (L := L) o u with ⟨t, hx, -⟩ | ⟨t, hx, -⟩ | ⟨t, hx, hn⟩
      · simp [hx]
      · simp [hx]
      · refine absurd ⟨hp, ?_⟩ hn
        cases os with
        | nil => exact hs
        | cons o' os => exact hs.1
    · intro hok
      rcases operate_cases (L := L) o u with ⟨t, hx, -, -, hc⟩ | ⟨t, hx, -⟩ | ⟨t, hx, -⟩
      · rw [hx]
        exact ih (hc ▸ hs)
      · rw [hx] at hok
        exact absurd hok (by simp)
      · rw [hx] at hok
        exact absurd hok (by simp)

theorem steady_of_valid (hq : ¬ L.Loud) (os : List Operation) {u : UI σ}
    (h : ValidThroughout L os u) : Steady u.cursor os := by
  induction os generalizing u with
  | nil => exact h
  | cons o os ih =>
    obtain ⟨hf, hn, hrest⟩ := h
    rcases operate_cases (L := L) o u with ⟨t, hx, hp, -, hc⟩ | ⟨t, hx, hl⟩ | ⟨t, hx, -⟩
    · rw [hx] at hrest
      exact ⟨hf, hp, hc ▸ ih (hrest rfl)⟩
    · exact absurd hl hq
    · rw [hx] at hn
      exact absurd rfl hn

end

/-- It never answers. -/
def silent : Line Unit := ⟨3, firstPort_open, fun _ _ => ([], ()), fun _ => ([], ())⟩

theorem silent_quiet : ¬ silent.Loud := by
  have hread : readSerial silent.panel [] = .ok [] := rfl
  have hbuffy : readBuffy silent [] = .ok [] := rfl
  intro h
  rcases h with ⟨k, s, e, he⟩ | ⟨s, e, he⟩
  · exact absurd (hread.symm.trans he) (by simp)
  · exact absurd (hbuffy.symm.trans he) (by simp)

/-- Whatever the inverter answers, the cursor stays at items of the table exactly if it
starts at one and each operation leads from one to another. -/
theorem validThroughout_iff (c : Int × Int) (os : List Operation) :
    (∀ (σ : Type) (L : Line σ) (u : UI σ), u.cursor = c → ValidThroughout L os u) ↔
      Steady c os := by
  constructor
  · intro h
    have hv := h Unit silent ⟨c.1, c.2, [], (), []⟩ rfl
    exact steady_of_valid silent_quiet os hv
  · intro h σ L u hu
    exact valid_of_steady os (hu ▸ h)

/-- From the top of the menu, `GotoMenuItem` with the pair of an information line. -/
theorem gotoMenuItem_finds_nothing :
    InMenu (1, 2) ∧ Found (0, 0) ∧
      (exec (operate silent (.call (.gotoMenuItem 1 2))) ⟨0, 0, [], (), []⟩).1 =
        .error .noItem := by
  decide +kernel

end PowerGuru.Devices.XantrexValid
