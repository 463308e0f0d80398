import PowerGuru.Devices.XantrexUI

/-!
# The driver's cursor and the display

When, after a call, the cursor of `XantrexUI` is the position of the display.
-/
namespace PowerGuru.Devices.XantrexCursor

open Lib.Bytes Lib.Exec Lib.Loops Menu XantrexTable XantrexUI

inductive Call where
  | gotoMenuStart
  | gotoMenuItem (mh mi : Int)
  | menuHeadingPlus
  | menuHeadingMinus
  | menuItemMinus
  | menuItemPlus
  deriving DecidableEq, Repr

section
variable {σ : Type} (P : Panel σ)

def call : Call → Driving σ Unit
  | .gotoMenuStart => gotoMenuStart P
  | .gotoMenuItem mh mi => gotoMenuItem P mh mi
  | .menuHeadingPlus => menuHeadingPlus P
  | .menuHeadingMinus => menuHeadingMinus P
  | .menuItemMinus => menuItemMinus P
  | .menuItemPlus => menuItemPlus P

def drive : List Call → Driving σ Unit
  | [] => pure ()
  | c :: cs => do
      call P c
      drive cs

/-- The call returned, and the cursor is where the display is. -/
def InSync (r : Except Fault Unit × UI σ) : Prop :=
  r.1 = .ok () ∧ r.2.cursor = P.position r.2.panel

instance (r : Except Fault Unit × UI σ) : Decidable (InSync P r) :=
  inferInstanceAs (Decidable (_ ∧ _))

def SyncThroughout : List Call → UI σ → Prop
  | [], _ => True
  | c :: cs, u =>
      InSync P (exec (call P c) u) ∧ SyncThroughout cs (exec (call P c) u).2

instance decidableSyncThroughout : ∀ (cs : List Call) (u : UI σ), Decidable (SyncThroughout P cs u)
  | [], _ => isTrue trivial
  | c :: cs, u =>
      have := decidableSyncThroughout cs (exec (call P c) u).2
      inferInstanceAs (Decidable (_ ∧ _))

end

/-- The key leads from `d` to an item of the table in at most five steps, and nothing
shown on the way contains its label. -/
def Reaches (k : Key) (d target : Int × Int) : Prop :=
  ∃ it n, getItem target.1 target.2 = some it ∧ 0 < n ∧ n ≤ 5 ∧ k.moved^[n] d = target ∧
    ∀ j, 0 < j → j < n → shownAt it.label (k.moved^[j] d) = false

/-- What a call needs of the cursor `c` and the position `d` before it. -/
def Ready (c d : Int × Int) : Call → Prop
  | .gotoMenuStart => d.1 ≤ 9
  | .gotoMenuItem mh mi => d.1 ≤ 9 ∧ 1 ≤ mh ∧ mi = 0 ∧ InMenu (mh, mi)
  | .menuHeadingPlus => c.1 = d.1
  | .menuHeadingMinus => (if 1 < c.1 then c.1 - 1 else c.1) = d.1 - 1
  | .menuItemMinus => Reaches .down d (c.1, c.2 + 1)
  | .menuItemPlus => Reaches .up d (c.1, if 1 < c.2 then c.2 - 1 else c.2)

section
variable {σ : Type} {P : Panel σ}

/-! ## Headings -/

/-- What follows the key. -/
theorem inherits_relabel (next : Int → Int) :
    Inherits (Inside P) (do
      let u ← get
      moveTo (next u.menuheading) 0
      let _ ← getLabel) := by
  refine inherits_bind inherits_get fun u => ?_
  refine inherits_bind (inherits_moveTo _ _) fun _ => ?_
  exact inherits_bind inherits_getLabel fun _ => inherits_pure ()

theorem inherits_headingKey (k : Key) (next : Int → Int) :
    Inherits (Inside P) (headingKey P k next) :=
  inherits_bind (inherits_send k) fun _ => inherits_relabel next

/-- The cursor goes where `next` says and the display where the key leads; the call
returns if the table has a heading for the cursor. -/
theorem exec_headingKey {k : Key} {next : Int → Int} {u : UI σ}
    (hin : Inside P (exec (headingKey P k next) u).2) :
    ∃ r t, exec (headingKey P k next) u = (r, t) ∧ t.cursor = (next u.menuheading, 0) ∧
      P.position t.panel = k.moved (P.position u.panel) ∧
      (r = .ok () ↔ ∃ it, getItem (next u.menuheading) 0 = some it) := by
  have hsend : Inside P (exec (send P k) u).2 := inherits_left (fun _ => inherits_relabel next) hin
  obtain ⟨s, hs, hcursor, hpos, -⟩ := send_inside hsend
  obtain ⟨hmh, -⟩ := Prod.mk.inj hcursor
  have hrun : exec (headingKey P k next) u =
      exec (getLabel >>= fun _ => pure ())
        { s with menuheading := next s.menuheading, menuitem := 0 } := by
    rw [headingKey, exec_bind_ok hs]
    rfl
  rw [hrun, hmh]
  cases hit : getItem (next u.menuheading) 0 with
  | none =>
    rw [exec_bind_error (exec_getLabel_none hit)]
    exact ⟨_, _, rfl, rfl, hpos, by simp⟩
  | some it =>
    rw [exec_bind_ok (exec_getLabel hit)]
    exact ⟨_, _, rfl, rfl, hpos, by simp⟩

theorem headingKey_sync {k : Key} {next : Int → Int} {u : UI σ} (hk : ∀ p, (k.moved p).2 = 0)
    (hin : Inside P (exec (headingKey P k next) u).2) :
    InSync P (exec (headingKey P k next) u) ↔
      next u.menuheading = (k.moved (P.position u.panel)).1 := by
  obtain ⟨r, t, hrun, hcursor, hpos, hr⟩ := exec_headingKey hin
  rw [hrun] at hin ⊢
  constructor
  · intro hafter
    obtain ⟨-, hsync⟩ := hafter
    have h1 := congrArg Prod.fst (hcursor.symm.trans hsync)
    rw [hpos] at h1
    exact h1
  · intro h
    have hland : (next u.menuheading, 0) = k.moved (P.position u.panel) := Prod.ext h (hk _).symm
    refine ⟨hr.mpr (getItem_heading ?_), ?_⟩
    · rw [hland, ← hpos]
      exact hin.2
    · rw [hcursor, hpos, hland]

/-! ## Items -/

/-- Where the loop of both item methods ends, when the table has the wanted item. -/
theorem exec_retry_send {k : Key} {u : UI σ} {it : MenuItem}
    (hit : getItem u.menuheading u.menuitem = some it)
    (hin : Inside P (exec (retry (send P k) matchesLabel 5) u).2) :
    ∃ m t, exec (retry (send P k) matchesLabel 5) u = (.ok (), t) ∧ t.cursor = u.cursor ∧
      P.position t.panel = k.moved^[m] (P.position u.panel) ∧
      Sought (fun j => shownAt it.label (k.moved^[j] (P.position u.panel))) 5 m := by
  apply retry_sought (inherits_send k) inherits_matchesLabel (fun s => s.cursor = u.cursor)
    (fun s => P.position s.panel) k.moved (shownAt it.label) _ 5 rfl hin
  intro s hs hsin
  obtain ⟨t, hrun, hcursor, hpos, hlabel⟩ := send_inside hsin
  have htu : t.cursor = u.cursor := hcursor.trans hs
  obtain ⟨hmh, hmi⟩ := Prod.mk.inj htu
  refine ⟨t, hrun, htu, hpos, ?_⟩
  rw [shownAt_iff hlabel]
  exact exec_matchesLabel (by rw [hmh, hmi, hit])

/-- Without it the first test looks up an item that is not there. -/
theorem exec_retry_send_none {k : Key} {u : UI σ} (hit : getItem u.menuheading u.menuitem = none)
    (hin : Inside P (exec (retry (send P k) matchesLabel 5) u).2) :
    ∃ t, exec (retry (send P k) matchesLabel 5) u = (.error .noItem, t) := by
  obtain ⟨t, hrun, hcursor, -, -⟩ := send_inside
    (inherits_left (fun _ => inherits_rest (inherits_send k) inherits_matchesLabel 4) hin)
  obtain ⟨hmh, hmi⟩ := Prod.mk.inj hcursor
  refine ⟨t, ?_⟩
  rw [retry, exec_bind_ok hrun, exec_bind_error (exec_matchesLabel_none (by rw [hmh, hmi, hit]))]

theorem retry_sync {k : Key} {u : UI σ}
    (hin : Inside P (exec (retry (send P k) matchesLabel 5) u).2) :
    InSync P (exec (retry (send P k) matchesLabel 5) u) ↔
      Reaches k (P.position u.panel) u.cursor := by
  cases hit : getItem u.menuheading u.menuitem with
  | none =>
    obtain ⟨t, hrun⟩ := exec_retry_send_none hit hin
    rw [hrun]
    constructor
    · intro hafter
      obtain ⟨hok, -⟩ := hafter
      exact absurd hok (by simp)
    · intro hreach
      obtain ⟨it, n, hfound, -⟩ := hreach
      exact absurd (hit.symm.trans hfound) (by simp)
  | some it =>
    obtain ⟨m, t, hrun, hcursor, hpos, hsought⟩ := exec_retry_send hit hin
    rw [hrun]
    constructor
    · intro hafter
      obtain ⟨-, hsync⟩ := hafter
      refine ⟨it, m, hit, hsought.pos (by decide), hsought.le, ?_, hsought.before⟩
      rw [← hpos, ← hcursor, ← hsync]
    · intro hreach
      obtain ⟨it', n, hfound, hn, hn5, htarget, hbefore⟩ := hreach
      obtain rfl : it = it' := Option.some.inj (hit.symm.trans hfound)
      -- The wanted item shows its own label, so the search does not run past it.
      have hself : shownAt it.label (k.moved^[n] (P.position u.panel)) = true := by
        rw [htarget]
        exact (shownAt_iff (labelAt_of_getItem hit)).trans (occursIn_self it.label)
      have hm : m = n := (hsought.eq_iff (by decide) hself).mpr ⟨hn, hn5, hbefore⟩
      refine ⟨rfl, ?_⟩
      rw [hcursor, hpos, hm, htarget]

theorem inherits_itemKeys (k : Key) (next : Int → Int) :
    Inherits (Inside P) (itemKeys P k next matchesLabel) := by
  refine inherits_bind inherits_get fun u => ?_
  refine inherits_bind (inherits_moveTo _ _) fun _ => ?_
  exact inherits_retry (inherits_send k) inherits_matchesLabel 5

theorem itemKeys_sync {k : Key} {next : Int → Int} {u : UI σ}
    (hin : Inside P (exec (itemKeys P k next matchesLabel) u).2) :
    InSync P (exec (itemKeys P k next matchesLabel) u) ↔
      Reaches k (P.position u.panel) (u.menuheading, next u.menuitem) :=
  retry_sync (u := { u with menuitem := next u.menuitem }) hin

theorem inherits_menuItemMinus : Inherits (Inside P) (menuItemMinus P) := by
  rw [menuItemMinus, matchesSized_eq]
  exact inherits_itemKeys .down _

theorem down_iterate_fst (p : Int × Int) (m : Nat) : (Key.down.moved^[m] p).1 = p.1 := by
  induction m with
  | zero => rfl
  | succ m ih =>
    rw [Function.iterate_succ_apply']
    exact ih

/-- A loop that returns keeps the heading, and stops at once if the first key leads to
the wanted item. -/
theorem retry_ok {u t : UI σ} (hin : Inside P t)
    (h : exec (retry (send P .down) matchesLabel 5) u = (.ok (), t)) :
    t.cursor = u.cursor ∧ (P.position t.panel).1 = (P.position u.panel).1 ∧
      (Key.down.moved (P.position u.panel) = u.cursor → P.position t.panel = u.cursor) := by
  have hinu : Inside P (exec (retry (send P .down) matchesLabel 5) u).2 := by rwa [h]
  cases hit : getItem u.menuheading u.menuitem with
  | none =>
    obtain ⟨s, hs⟩ := exec_retry_send_none hit hinu
    exact absurd (Prod.mk.inj (hs.symm.trans h)).1 (by simp)
  | some it =>
    obtain ⟨m, s, hs, hcursor, hpos, -⟩ := exec_retry_send hit hinu
    obtain rfl : s = t := (Prod.mk.inj (hs.symm.trans h)).2
    refine ⟨hcursor, ?_, ?_⟩
    · rw [hpos]
      exact down_iterate_fst _ m
    · intro hone
      have hsync := (retry_sync hinu).mpr
        ⟨it, 1, hit, by decide, by decide, hone, fun j hj hlt => by omega⟩
      rw [h] at hsync
      exact hsync.2.symm.trans hcursor

theorem menuItemMinus_ok {u t : UI σ} (hin : Inside P t)
    (h : exec (menuItemMinus P) u = (.ok (), t)) :
    (P.position t.panel).1 = (P.position u.panel).1 ∧
      (u.cursor = P.position u.panel →
        t.cursor = P.position t.panel ∧ t.cursor = (u.menuheading, u.menuitem + 1)) := by
  rw [menuItemMinus, matchesSized_eq] at h
  obtain ⟨hcursor, hheading, hone⟩ :=
    retry_ok (u := { u with menuitem := u.menuitem + 1 }) hin h
  refine ⟨hheading, ?_⟩
  intro hsync
  have hpos := hone (by
    show Key.down.moved (P.position u.panel) = (u.menuheading, u.menuitem + 1)
    rw [← hsync]
    rfl)
  exact ⟨hcursor.trans hpos.symm, hcursor⟩

/-! ## The start of the menu -/

theorem left_iterate (p : Int × Int) (m : Nat) : Key.left.moved^[m + 1] p = (p.1 - (m + 1), 0) := by
  induction m with
  | zero => simp [Key.moved]
  | succ m ih =>
    rw [Function.iterate_succ_apply', ih]
    simp only [Key.moved, Prod.mk.injEq, and_true]
    omega

theorem inherits_gotoMenuStart : Inherits (Inside P) (gotoMenuStart P) :=
  inherits_bind (inherits_retry (inherits_send .left) (inherits_of_reads fun _ => rfl) 22)
    fun _ => inherits_moveTo 1 0

/-- The search ends at one of the two headings that contain its word. -/
theorem exec_gotoMenuStart {u : UI σ} (hin : Inside P (exec (gotoMenuStart P) u).2) :
    ∃ x t, exec (gotoMenuStart P) u = (.ok (), t) ∧ t.cursor = (1, 0) ∧
      P.position t.panel = (x, 0) ∧ (x = 1 ∨ x = 9) ∧ (x = 1 ↔ (P.position u.panel).1 ≤ 9) := by
  have hreads : Inherits (Inside P) (shows (bytes "Inverter")) := inherits_of_reads fun _ => rfl
  have hround : ∀ s : UI σ, True → Inside P (exec (send P .left) s).2 →
      ∃ t, exec (send P .left) s = (.ok (), t) ∧ True ∧
        P.position t.panel = Key.left.moved (P.position s.panel) ∧
        exec (shows (bytes "Inverter")) t =
          (.ok (shownAt (bytes "Inverter") (P.position t.panel)), t) := by
    intro s _ hsin
    obtain ⟨t, hsend, -, hmoved, hlabel⟩ := send_inside hsin
    refine ⟨t, hsend, trivial, hmoved, ?_⟩
    rw [shownAt_iff hlabel, exec_shows]
  obtain ⟨m, s, hrun, -, hpos, hsought⟩ := retry_sought (inherits_send .left) hreads
    (fun _ => True) (fun s => P.position s.panel) Key.left.moved (shownAt (bytes "Inverter"))
    hround 22 trivial (inherits_left (fun _ => inherits_moveTo 1 0) hin)
  have hrest : exec (gotoMenuStart P) u = (.ok (), { s with menuheading := 1, menuitem := 0 }) := by
    rw [gotoMenuStart, exec_bind_ok hrun]
    rfl
  rw [hrest] at hin
  have hstart : Inside P u := inherits_retry (inherits_send .left) hreads 22 u (by rwa [hrun])
  obtain ⟨i, rfl⟩ : ∃ i, m = i + 1 := ⟨m - 1, by have := hsought.pos (by decide); omega⟩
  rw [left_iterate] at hpos
  have hend : InMenu ((P.position u.panel).1 - (i + 1), 0) := hpos ▸ hin.2
  have hend_range := heading_range _ ((inMenu_iff _).mp hend)
  have hstart_range := heading_range _ ((inMenu_iff _).mp hstart.2)
  simp only at hend_range
  have hfound : (P.position u.panel).1 - (i + 1) = 1 ∨ (P.position u.panel).1 - (i + 1) = 9 := by
    have hhit := hsought.found (by omega)
    rw [left_iterate] at hhit
    exact ((inverter_shownAt _).mp hhit).2
  refine ⟨(P.position u.panel).1 - (i + 1), _, hrest, rfl, hpos, hfound, ?_⟩
  constructor
  · intro h1
    by_contra h9
    -- Heading 9 lies on the way to heading 1 and contains the word as well.
    obtain ⟨j, hj⟩ : ∃ j : Nat, (P.position u.panel).1 = j + 10 :=
      ⟨((P.position u.panel).1 - 10).toNat, by omega⟩
    have hmiss := hsought.before (j + 1) (by omega) (by omega)
    rw [left_iterate, show (P.position u.panel).1 - ((j : Int) + 1) = 9 by omega] at hmiss
    have hnine : shownAt (bytes "Inverter") (9, 0) = true :=
      (inverter_shownAt 9).mpr ⟨by decide +kernel, Or.inr rfl⟩
    rw [hnine] at hmiss
    exact absurd hmiss (by decide)
  · intro h9
    omega

/-! ## `GotoMenuItem` -/

theorem inherits_menuHeadingPlus : Inherits (Inside P) (menuHeadingPlus P) := by
  rw [menuHeadingPlus]
  exact inherits_headingKey .right _

theorem inherits_headings (n : Nat) : Inherits (Inside P) (times (menuHeadingPlus P) n) :=
  inherits_times inherits_menuHeadingPlus n

theorem inherits_items (n : Nat) : Inherits (Inside P) (times (menuItemMinus P) n) :=
  inherits_times inherits_menuItemMinus n

/-- Where the cursor is, and where the display. -/
def At (P : Panel σ) (c d : Int × Int) (u : UI σ) : Prop :=
  u.cursor = c ∧ P.position u.panel = d

theorem menuHeadingPlus_ok {c d : Int × Int} {u t : UI σ} (hat : At P c d u) (hin : Inside P t)
    (h : exec (menuHeadingPlus P) u = (.ok (), t)) : At P (c.1 + 1, 0) (d.1 + 1, 0) t := by
  obtain ⟨rfl, rfl⟩ := hat
  rw [menuHeadingPlus] at h
  obtain ⟨r, s, hkey, hcursor, hpos, -⟩ := exec_headingKey (P := P) (u := u) (by rwa [h])
  obtain rfl : s = t := (Prod.mk.inj (hkey.symm.trans h)).2
  exact ⟨hcursor, hpos⟩

theorem menuHeadingPlus_total {d : Int × Int} {u : UI σ} (hat : At P d d u)
    (hin : Inside P (exec (menuHeadingPlus P) u).2) :
    ∃ t, exec (menuHeadingPlus P) u = (.ok (), t) ∧ At P (d.1 + 1, 0) (d.1 + 1, 0) t := by
  obtain ⟨hcursor, rfl⟩ := hat
  have hsync : InSync P (exec (menuHeadingPlus P) u) := by
    rw [menuHeadingPlus] at hin ⊢
    refine (headingKey_sync (fun _ => rfl) hin).mpr ?_
    rw [← hcursor]
    rfl
  refine ⟨(exec (menuHeadingPlus P) u).2, Prod.ext hsync.1 rfl, ?_⟩
  exact menuHeadingPlus_ok ⟨hcursor, rfl⟩ hin (Prod.ext hsync.1 rfl)

theorem headings_ok {x y : Int} {n : Nat} {u t : UI σ} (hat : At P (y, 0) (x, 0) u)
    (hin : Inside P t) (h : exec (times (menuHeadingPlus P) n) u = (.ok (), t)) :
    At P (y + n, 0) (x + n, 0) t := by
  have hround : ∀ (i : Nat) (s s' : UI σ), At P (y + i, 0) (x + i, 0) s → Inside P s' →
      exec (menuHeadingPlus P) s = (.ok (), s') →
      At P (y + (i + 1 : Nat), 0) (x + (i + 1 : Nat), 0) s' := by
    intro i s s' hs hin' hs'
    have hnext := menuHeadingPlus_ok hs hin' hs'
    simpa [Int.add_assoc] using hnext
  have hrun := times_invariant inherits_menuHeadingPlus _ hround n (i := 0) (by simpa using hat)
    hin h
  simpa using hrun

theorem headings_total {x : Int} {n : Nat} {u : UI σ} (hat : At P (x, 0) (x, 0) u)
    (hin : Inside P (exec (times (menuHeadingPlus P) n) u).2) :
    ∃ t, exec (times (menuHeadingPlus P) n) u = (.ok (), t) ∧ At P (x + n, 0) (x + n, 0) t := by
  have hround : ∀ (i : Nat) (s : UI σ), At P (x + i, 0) (x + i, 0) s →
      Inside P (exec (menuHeadingPlus P) s).2 →
      ∃ t, exec (menuHeadingPlus P) s = (.ok (), t) ∧
        At P (x + (i + 1 : Nat), 0) (x + (i + 1 : Nat), 0) t := by
    intro i s hs hin'
    obtain ⟨t, ht, hnext⟩ := menuHeadingPlus_total hs hin'
    exact ⟨t, ht, by simpa [Int.add_assoc] using hnext⟩
  have hrun := times_total inherits_menuHeadingPlus _ hround n (i := 0) (by simpa using hat) hin
  simpa using hrun

theorem items_heading {n : Nat} {u t : UI σ} (hin : Inside P t)
    (h : exec (times (menuItemMinus P) n) u = (.ok (), t)) :
    (P.position t.panel).1 = (P.position u.panel).1 := by
  have hround : ∀ (i : Nat) (s s' : UI σ), (P.position s.panel).1 = (P.position u.panel).1 →
      Inside P s' → exec (menuItemMinus P) s = (.ok (), s') →
      (P.position s'.panel).1 = (P.position u.panel).1 := by
    intro i s s' hs hin' hs'
    exact (menuItemMinus_ok hin' hs').1.trans hs
  exact times_invariant inherits_menuItemMinus (fun _ s => _ = _) hround n (i := 0) rfl hin h

theorem items_sync {x y : Int} {n : Nat} {u t : UI σ} (hat : At P (x, y) (x, y) u)
    (hin : Inside P t) (h : exec (times (menuItemMinus P) n) u = (.ok (), t)) :
    At P (x, y + n) (x, y + n) t := by
  have hround : ∀ (i : Nat) (s s' : UI σ), At P (x, y + i) (x, y + i) s → Inside P s' →
      exec (menuItemMinus P) s = (.ok (), s') →
      At P (x, y + (i + 1 : Nat)) (x, y + (i + 1 : Nat)) s' := by
    intro i s s' ⟨hc, hd⟩ hin' hs'
    obtain ⟨hsync, hnext⟩ := (menuItemMinus_ok hin' hs').2 (hc.trans hd.symm)
    obtain ⟨hmh, hmi⟩ := Prod.mk.inj hc
    rw [hmh, hmi] at hnext
    have hplus : y + (i : Int) + 1 = y + (i + 1 : Nat) := by omega
    rw [hplus] at hnext
    exact ⟨hnext, hsync.symm.trans hnext⟩
  have hrun := times_invariant inherits_menuItemMinus _ hround n (i := 0) (by simpa using hat) hin h
  simpa using hrun

/-- A call that returns has set the cursor to its arguments. The display is one item
before them, or eight headings further when the search stopped at heading 9. -/
theorem gotoMenuItem_ok {mh mi : Int} {u t : UI σ} (hin : Inside P t)
    (h : exec (gotoMenuItem P mh mi) u = (.ok (), t)) :
    ∃ x, (x = 1 ∨ x = 9) ∧ (x = 1 ↔ (P.position u.panel).1 ≤ 9) ∧ t.cursor = (mh, mi) ∧
      (P.position t.panel).1 = x + (mh - 1).toNat ∧
      (x = 1 → P.position t.panel = ((1 + (mh - 1).toNat : Int), ((mi - 1).toNat : Int))) := by
  obtain ⟨_, s1, h1, hrest1⟩ := exec_bind_ok_iff.mp h
  obtain ⟨it, s2, h2, hrest2⟩ := exec_bind_ok_iff.mp hrest1
  obtain ⟨_, s3, h3, hrest3⟩ := exec_bind_ok_iff.mp hrest2
  obtain ⟨_, s4, h4, h5⟩ := exec_bind_ok_iff.mp hrest3
  obtain rfl : ({ s4 with menuheading := mh, menuitem := mi } : UI σ) = t := (Prod.mk.inj h5).2
  obtain rfl : s1 = s2 := by
    cases hit : getItem mh mi with
    | none =>
      rw [exec_item_none hit] at h2
      exact absurd (Prod.mk.inj h2).1 (by simp)
    | some it =>
      rw [exec_item hit] at h2
      exact (Prod.mk.inj h2).2
  have hin4 : Inside P s4 := hin
  have hin3 : Inside P s3 := inherits_items _ s3 (by rwa [h4])
  have hin1 : Inside P s1 := inherits_headings _ s1 (by rwa [h3])
  obtain ⟨x, s, hs, hcursor, hpos, hx, hiff⟩ := exec_gotoMenuStart (P := P) (u := u) (by rwa [h1])
  obtain rfl : s = s1 := (Prod.mk.inj (hs.symm.trans h1)).2
  have hat3 := headings_ok ⟨hcursor, hpos⟩ hin3 h3
  have hheading := items_heading hin4 h4
  rw [hat3.2] at hheading
  refine ⟨x, hx, hiff, rfl, hheading, ?_⟩
  rintro rfl
  have hat4 := items_sync hat3 hin4 h4
  simpa using hat4.2

/-- What follows the search for the start of the menu. -/
theorem inherits_keys (mh mi : Int) :
    Inherits (Inside P) (do
      let _ ← item mh mi
      times (menuHeadingPlus P) (mh - 1).toNat
      times (menuItemMinus P) (mi - 1).toNat
      moveTo mh mi) := by
  refine inherits_bind (inherits_item mh mi) fun _ => ?_
  refine inherits_bind (inherits_headings _) fun _ => ?_
  exact inherits_bind (inherits_items _) fun _ => inherits_moveTo mh mi

/-- At a heading of the menu the call brings cursor and display together. -/
theorem gotoMenuItem_heading {mh : Int} {u : UI σ} (h9 : (P.position u.panel).1 ≤ 9) (h1 : 1 ≤ mh)
    (hmenu : InMenu (mh, 0)) (hin : Inside P (exec (gotoMenuItem P mh 0) u).2) :
    InSync P (exec (gotoMenuItem P mh 0) u) := by
  obtain ⟨it, hit⟩ := getItem_heading hmenu
  obtain ⟨x, s, hs, hcursor, hpos, -, hiff⟩ :=
    exec_gotoMenuStart (inherits_left (fun _ => inherits_keys mh 0) hin)
  obtain rfl : x = 1 := hiff.mpr h9
  have hrun : exec (gotoMenuItem P mh 0) u =
      exec (times (menuHeadingPlus P) (mh - 1).toNat >>= fun _ => moveTo mh 0) s := by
    rw [gotoMenuItem, exec_bind_ok hs, exec_bind_ok (exec_item hit s)]
    rfl
  rw [hrun] at hin ⊢
  obtain ⟨t, ht, -, hpt⟩ :=
    headings_total ⟨hcursor, hpos⟩ (inherits_left (fun _ => inherits_moveTo mh 0) hin)
  rw [exec_bind_ok ht]
  refine ⟨rfl, ?_⟩
  show (mh, 0) = P.position t.panel
  rw [hpt]
  simp only [Prod.mk.injEq, and_true]
  omega

theorem gotoMenuItem_sync {mh mi : Int} {u : UI σ}
    (hin : Inside P (exec (gotoMenuItem P mh mi) u).2) :
    InSync P (exec (gotoMenuItem P mh mi) u) ↔
      Ready u.cursor (P.position u.panel) (.gotoMenuItem mh mi) := by
  constructor
  · intro hafter
    obtain ⟨hok, hsync⟩ := hafter
    obtain ⟨x, hx, hiff, hcursor, hheading, hitem⟩ := gotoMenuItem_ok hin (Prod.ext hok rfl)
    have hpos := hsync.symm.trans hcursor
    rw [hpos] at hheading hitem
    simp only at hheading
    obtain rfl : x = 1 := by omega
    have hmi : mi = (mi - 1).toNat := congrArg Prod.snd (hitem rfl)
    refine ⟨hiff.mp rfl, by omega, by omega, ?_⟩
    rw [← hpos]
    exact hin.2
  · intro hconds
    obtain ⟨h9, h1, rfl, hmenu⟩ := hconds
    exact gotoMenuItem_heading h9 h1 hmenu hin

/-! ## Whole runs -/

theorem inherits_call (c : Call) : Inherits (Inside P) (call P c) := by
  cases c with
  | gotoMenuStart => exact inherits_gotoMenuStart
  | gotoMenuItem mh mi => exact inherits_bind inherits_gotoMenuStart fun _ => inherits_keys mh mi
  | menuHeadingPlus => exact inherits_menuHeadingPlus
  | menuHeadingMinus =>
    rw [call, menuHeadingMinus]
    exact inherits_headingKey .left _
  | menuItemMinus => exact inherits_menuItemMinus
  | menuItemPlus =>
    rw [call, menuItemPlus]
    exact inherits_itemKeys .up _

theorem inherits_drive (cs : List Call) : Inherits (Inside P) (drive P cs) := by
  induction cs with
  | nil => exact inherits_pure ()
  | cons c cs ih => exact inherits_bind (inherits_call c) fun _ => ih

/-- A call that stays inside leaves cursor and display together exactly if it is ready. -/
theorem call_sync {c : Call} {u : UI σ} (hin : Inside P (exec (call P c) u).2) :
    InSync P (exec (call P c) u) ↔ Ready u.cursor (P.position u.panel) c := by
  cases c with
  | gotoMenuStart =>
    obtain ⟨x, t, hrun, hcursor, hpos, -, hiff⟩ := exec_gotoMenuStart hin
    rw [call, hrun, Ready, ← hiff, InSync, hcursor, hpos]
    simp [eq_comm]
  | gotoMenuItem mh mi => exact gotoMenuItem_sync hin
  | menuHeadingPlus =>
    rw [call, menuHeadingPlus] at hin ⊢
    rw [headingKey_sync (fun _ => rfl) hin]
    simp only [Key.moved, Ready, UI.cursor]
    omega
  | menuHeadingMinus =>
    rw [call, menuHeadingMinus] at hin ⊢
    exact headingKey_sync (fun _ => rfl) hin
  | menuItemMinus =>
    rw [call, menuItemMinus, matchesSized_eq] at hin ⊢
    exact itemKeys_sync hin
  | menuItemPlus =>
    rw [call, menuItemPlus] at hin ⊢
    exact itemKeys_sync hin

end

/-- Every call of the run is ready where the calls before it have led. -/
def AllReady {σ : Type} (P : Panel σ) : List Call → UI σ → Prop
  | [], _ => True
  | c :: cs, u =>
      Ready u.cursor (P.position u.panel) c ∧ AllReady P cs (exec (call P c) u).2

/-- In a run that stays inside the menu the cursor is the display's position after every
call exactly if every call is ready. -/
theorem sync_throughout_iff {σ : Type} (P : Panel σ) (cs : List Call) (u : UI σ)
    (hin : Inside P (exec (drive P cs) u).2) :
    SyncThroughout P cs u ↔ AllReady P cs u := by
  induction cs generalizing u with
  | nil => exact Iff.rfl
  | cons c cs ih =>
    have hcall : Inside P (exec (call P c) u).2 := inherits_left (fun _ => inherits_drive cs) hin
    have hstep := call_sync hcall
    constructor
    · intro hafter
      obtain ⟨hsync, hrest⟩ := hafter
      rw [drive, exec_bind_ok (Prod.ext hsync.1 rfl)] at hin
      exact ⟨hstep.mp hsync, (ih _ hin).mp hrest⟩
    · intro hconds
      obtain ⟨hready, hrest⟩ := hconds
      have hsync := hstep.mpr hready
      rw [drive, exec_bind_ok (Prod.ext hsync.1 rfl)] at hin
      exact ⟨hsync, (ih _ hin).mpr hrest⟩

/-! ## A display that ignores keys at the edges -/

def display : Panel (Int × Int) where
  uartfd := 3
  isOpen := firstPort_open
  position := id
  press k p := if InMenu (k.moved p) then ((labelAt (k.moved p)).getD [], k.moved p) else ([], p)
  moves := by
    intro k p _ h
    simp only [id] at h ⊢
    rw [if_pos h]
  answers := by
    intro k p _ h
    simp only [id] at h ⊢
    obtain ⟨l, hl⟩ := Option.isSome_iff_exists.mp h
    rw [if_pos h, hl]
    rfl

/-- Cursor and display are both at the generator mode. -/
def atGenerator : UI (Int × Int) := ⟨2, 0, [], (2, 0), []⟩

theorem tour_ready :
    AllReady display [.gotoMenuStart, .menuHeadingPlus, .menuItemMinus, .menuItemMinus,
      .menuItemPlus, .menuHeadingMinus] atGenerator :=
  (sync_throughout_iff display _ atGenerator (by decide +kernel)).mp (by decide +kernel)

/-- `GotoMenuItem(4, 1)` sends no item key and claims to be at item 1. -/
theorem meters_item_missed :
    atGenerator.cursor = display.position atGenerator.panel ∧
      Inside display (exec (drive display [.gotoMenuItem 4 1]) atGenerator).2 ∧
      ¬ SyncThroughout display [.gotoMenuItem 4 1] atGenerator := by
  decide +kernel

end PowerGuru.Devices.XantrexCursor
