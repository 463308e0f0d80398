import PowerGuru.Devices.XantrexPoll
import PowerGuru.Devices.XantrexReadings

/-!
# The records of an iteration

What each member of the two records is read from, and when it is the number that the
display showed for it.
-/
namespace PowerGuru.Devices.XantrexRecords

open Lib.Bytes Lib.Exec Lib.Numeral Menu XantrexUI XantrexValid XantrexValues XantrexReadings
  XantrexPoll
open XantrexTable hiding items

/-! ## The meters of the table -/

/-- What the comparisons see in the label of a meter, and its type. -/
structure Meter (y : Int) (it : MenuItem) : Prop where
  low : 2 ≤ y
  high : y ≤ 9
  long : 8 ≤ it.label.length
  type : it.type = if y = 4 ∨ y = 5 then .float else .int
  load : substrIs it.label 0 "Load" = decide (y = 3)
  loadUp : (it.label.take 4 == bytes "Load ") = false
  actual : substrIs it.label 8 "actual" = decide (y = 4)
  tempComp : substrIs it.label 8 "TempComp" = decide (y = 5)
  inverter : substrIs it.label 0 "Inverter" = decide (y = 6)
  grid : substrIs it.label 0 "Grid" = decide (y = 7)
  generator : substrIs it.label 0 "Generator" = decide (y = 8)
  frequency : substrIs it.label 0 "Read Freq" = decide (y = 9)
  meter : MeterLabel it.label

instance (label : List Byte) : Decidable (MeterLabel label) :=
  decidable_of_iff ((∀ i ≤ 10, cut (lookfor i) label = none) ∧ blank ∈ label ∧ NUL ∉ label ∧
      Lib.Strtol.toInt (Lib.Strtol.strtol (label.takeWhile (· != blank) ++ [blank]) 10) = 0 ∧
      (Lib.Strtod.strtod (label.takeWhile (· != blank) ++ [blank])).number = some 0)
    ⟨fun h => ⟨h.1, h.2.1, h.2.2.1, h.2.2.2.1, h.2.2.2.2⟩,
      fun h => ⟨h.no_pair, h.has_blank, h.no_nul, h.no_int, h.no_float⟩⟩

theorem meters_table : ∀ y ∈ [(2 : Int), 3, 4, 5, 6, 7, 8, 9], (getItem 4 y).any (fun it =>
    decide (8 ≤ it.label.length ∧ (it.type = if y = 4 ∨ y = 5 then .float else .int) ∧
      substrIs it.label 0 "Load" = decide (y = 3) ∧
      (it.label.take 4 == bytes "Load ") = false ∧
      substrIs it.label 8 "actual" = decide (y = 4) ∧
      substrIs it.label 8 "TempComp" = decide (y = 5) ∧
      substrIs it.label 0 "Inverter" = decide (y = 6) ∧
      substrIs it.label 0 "Grid" = decide (y = 7) ∧
      substrIs it.label 0 "Generator" = decide (y = 8) ∧
      substrIs it.label 0 "Read Freq" = decide (y = 9) ∧ MeterLabel it.label)) = true := by
  decide +kernel

theorem exists_meter {y : Int} (h2 : 2 ≤ y) (h9 : y ≤ 9) :
    ∃ it, getItem 4 y = some it ∧ Meter y it := by
  have hmem : y ∈ [(2 : Int), 3, 4, 5, 6, 7, 8, 9] := by
    simp only [List.mem_cons, List.not_mem_nil, or_false]
    omega
  obtain ⟨it, hit, hall⟩ := (Option.any_eq_true _ _).mp (meters_table y hmem)
  obtain ⟨long, type, load, loadUp, actual, tempComp, inverter, grid, generator, frequency,
    meter⟩ := of_decide_eq_true hall
  exact ⟨it, hit, h2, h9, long, type, load, loadUp, actual, tempComp, inverter, grid, generator,
    frequency, meter⟩

theorem meter_of_getItem {y : Int} (h2 : 2 ≤ y) (h9 : y ≤ 9) {it : MenuItem}
    (h : getItem 4 y = some it) : Meter y it := by
  obtain ⟨it', hit, hm⟩ := exists_meter h2 h9
  obtain rfl := Option.some.inj (h.symm.trans hit)
  exact hm

/-- No item is found behind the frequency. -/
theorem le_of_getItem {y : Int} {it : MenuItem} (h : getItem 4 y = some it) : y ≤ 9 := by
  have hall : ∀ r ∈ registrations.flatten, r.item.headidx = 4 → r.item.itemidx ≤ 9 := by
    decide +kernel
  rw [getItem_eq, Option.map_eq_some_iff] at h
  obtain ⟨r, hr, -⟩ := h
  have hidx := List.find?_some hr
  rw [beq_iff_eq, Registration.indices, Prod.mk.injEq] at hidx
  have hle := hall r (List.mem_of_find?_eq_some hr) hidx.1
  omega

/-- What a line leaves in the record on the way down. -/
def downStop (y : Int) (line : List Byte) (data : Polled) : Polled where
  acLoadAmps := if y = 3 then getIntValue line else data.acLoadAmps
  batteryVolts := if y = 4 then getFloatValue line else data.batteryVolts
  tempcompVolts := if y = 5 then getFloatValue line else data.tempcompVolts
  acVoltsOut := if y = 6 then getIntValue line else data.acVoltsOut
  ac1VoltsIn := if y = 7 then zeroFloat else data.ac1VoltsIn
  ac2VoltsIn := if y = 8 then zeroFloat else data.ac2VoltsIn
  hertz := if y = 9 then getIntValue line else data.hertz

/-- What it leaves on the way up. -/
def upStop (hertz : Int) (y : Int) (line : List Byte) (data : Polled) : Polled :=
  { downStop y line data with acLoadAmps := data.acLoadAmps, hertz := hertz }

theorem labelled_ok {label : List Byte} {pos : Nat} (h : pos ≤ label.length) (text : String) :
    labelled label pos text = .ok (substrIs label pos text) := if_pos h

theorem fltval_meter {y : Int} {it : MenuItem} (h : Meter y it) (line : List Byte) :
    fltval it line = if y = 4 ∨ y = 5 then getFloatValue line else zeroFloat := by
  rw [fltval, h.type]
  by_cases hy : y = 4 ∨ y = 5
  · rw [if_pos hy, if_pos rfl, if_pos hy]
  · rw [if_neg hy, if_neg (by decide), if_neg hy]

theorem intval_meter {y : Int} {it : MenuItem} (h : Meter y it) (line : List Byte) :
    intval it line = if y = 4 ∨ y = 5 then 0 else getIntValue line := by
  rw [intval, h.type]
  by_cases hy : y = 4 ∨ y = 5
  · rw [if_pos hy, if_neg (by decide), if_pos hy]
  · rw [if_neg hy, if_pos rfl, if_neg hy]

theorem assign_meter {y : Int} {it : MenuItem} (h : Meter y it) (line : List Byte)
    (data : Polled) :
    assign it line data = .ok { downStop y line data with
      acLoadAmps := data.acLoadAmps, hertz := data.hertz } := by
  have hzero : ∀ text, labelled it.label 0 text = .ok (substrIs it.label 0 text) :=
    labelled_ok (Nat.zero_le _)
  unfold assign
  rw [hzero, hzero, hzero, labelled_ok h.long, labelled_ok h.long, h.actual, h.tempComp,
    h.inverter, h.grid, h.generator, fltval_meter h, intval_meter h]
  obtain ⟨h2, h9⟩ := And.intro h.low h.high
  clear hzero h
  interval_cases y <;> rfl

theorem downAssign_meter {y : Int} {it : MenuItem} (h : Meter y it) (line : List Byte)
    (data : Polled) : downAssign it line data = .ok (downStop y line data, true) := by
  have hinfo : it.type ≠ .info := by
    rw [h.type]
    split
    · decide
    · decide
  have hzero : ∀ text, labelled it.label 0 text = .ok (substrIs it.label 0 text) :=
    labelled_ok (Nat.zero_le _)
  rw [downAssign, if_neg hinfo, hzero, hzero, h.load, h.frequency, intval_meter h]
  simp only [bind, Except.bind, assign_meter h]
  obtain ⟨h2, h9⟩ := And.intro h.low h.high
  clear hzero h hinfo
  interval_cases y <;> rfl

theorem upAssign_meter {y : Int} {it : MenuItem} (h : Meter y it) (hertz : Int)
    (line : List Byte) (data : Polled) :
    upAssign hertz it line data = .ok (upStop hertz y line data) := by
  rw [upAssign, h.loadUp]
  simp only [bind, Except.bind, assign_meter h]
  rfl

/-! ## What is shown on the way -/

/-- The line of a meter with its reading. -/
def lineAt (shown : Int → Reading) (y : Int) : List Byte :=
  match getItem 4 y with
  | some it => (shown y).line it.label
  | none => []

section
variable {σ : Type} (L : Line σ)

/-- The display behind so many meters, if within the keys of each it is shown with its
reading before anything else with its label. -/
def way (k : Key) (step : Int) (shown : Int → Reading) : Nat → Int → σ → Option σ
  | 0, _, s => some s
  | n + 1, y, s =>
      match getItem 4 (y + step) with
      | none => none
      | some it =>
          match answer L k it.label 5 s with
          | none => none
          | some (line, s) =>
              if line = lineAt shown (y + step) then way k step shown n (y + step) s else none

end

section
variable {σ : Type} {L : Line σ}

theorem way_succ {k : Key} {step : Int} {shown : Int → Reading} {n : Nat} {y : Int} {s t : σ}
    (h : way L k step shown (n + 1) y s = some t) :
    ∃ it s', getItem 4 (y + step) = some it ∧
      answer L k it.label 5 s = some (lineAt shown (y + step), s') ∧
      way L k step shown n (y + step) s' = some t := by
  rw [way] at h
  split at h
  · exact absurd h (by simp)
  · next it hit =>
    split at h
    · exact absurd h (by simp)
    · next line s' hline =>
      split at h
      · next heq => exact ⟨it, s', hit, heq ▸ hline, h⟩
      · exact absurd h (by simp)

theorem lineAt_eq {shown : Int → Reading} {y : Int} {it : MenuItem} (h : getItem 4 y = some it) :
    lineAt shown y = (shown y).line it.label := by
  rw [lineAt, h]

theorem lineAt_length {shown : Int → Reading} {y : Int} {it : MenuItem}
    (hit : getItem 4 y = some it) (hm : Meter y it) : 1 < (lineAt shown y).length := by
  have hlong := hm.long
  rw [lineAt_eq hit, Reading.line, List.length_append, List.length_append]
  omega

/-- A round of the way down that shows a meter. -/
theorem exec_downRound {p : Poll σ} {shown : Int → Reading} {y : Int} {it : MenuItem} {t : σ}
    (hc : p.ui.cursor = (4, y)) (hit : getItem 4 (y + 1) = some it) (hm : Meter (y + 1) it)
    (h : answer L .down it.label 5 p.ui.panel = some (lineAt shown (y + 1), t)) (data : Polled) :
    ∃ q, exec (downRound L data) p =
        (.ok (downStop (y + 1) (lineAt shown (y + 1)) data, true), q) ∧
      q.ui.cursor = (4, y + 1) ∧ q.ui.panel = t ∧ q.meters = p.meters := by
  obtain ⟨hmh, hmi⟩ := Prod.mk.inj hc
  have hvisit : ∃ q, exec (visit (itemKeys L.panel .down (fun mi => mi + 1) matchesLabel)) p =
      (.ok (lineAt shown (y + 1)), q) ∧ q.ui.cursor = (p.ui.menuheading, p.ui.menuitem + 1) ∧
        q.ui.panel = t ∧ q.meters = p.meters :=
    exec_visit_answer (by rw [hmh, hmi, hit]) h
  obtain ⟨q, hq, hcursor, hpanel, hmeters⟩ := hvisit
  rw [hmh, hmi] at hcursor
  obtain ⟨hmh', hmi'⟩ := Prod.mk.inj hcursor
  have hitem : exec currentItem q = (.ok it, q) := by rw [exec_currentItem, hmh', hmi', hit]
  refine ⟨q, ?_, hcursor, hpanel, hmeters⟩
  rw [← matchesSized_eq] at hq
  rw [downRound, menuItemMinus, exec_bind_ok hq, if_pos (lineAt_length hit hm),
    exec_bind_ok hitem, exec_lift, downAssign_meter hm]

/-- A round of the way up that shows a meter. -/
theorem exec_upRound {p : Poll σ} {shown : Int → Reading} {y : Int} {it : MenuItem} {t : σ}
    (hc : p.ui.cursor = (4, y)) (hit : getItem 4 (y - 1) = some it) (hm : Meter (y - 1) it)
    (h : answer L .up it.label 5 p.ui.panel = some (lineAt shown (y - 1), t)) (hertz : Int)
    (data : Polled) :
    ∃ q, exec (upRound L hertz data) p =
        (.ok (upStop hertz (y - 1) (lineAt shown (y - 1)) data), q) ∧
      q.ui.cursor = (4, y - 1) ∧ q.ui.panel = t ∧ q.meters = p.meters := by
  obtain ⟨hmh, hmi⟩ := Prod.mk.inj hc
  have hnext : (if 1 < p.ui.menuitem then p.ui.menuitem - 1 else p.ui.menuitem) = y - 1 := by
    have hlow := hm.low
    rw [hmi, if_pos (by omega)]
  have hvisit : ∃ q, exec (visit (itemKeys L.panel .up
        (fun mi => if 1 < mi then mi - 1 else mi) matchesLabel)) p =
      (.ok (lineAt shown (y - 1)), q) ∧ q.ui.cursor = (p.ui.menuheading,
        if 1 < p.ui.menuitem then p.ui.menuitem - 1 else p.ui.menuitem) ∧
        q.ui.panel = t ∧ q.meters = p.meters :=
    exec_visit_answer (by rw [hmh, hnext, hit]) h
  obtain ⟨q, hq, hcursor, hpanel, hmeters⟩ := hvisit
  rw [hmh, hnext] at hcursor
  obtain ⟨hmh', hmi'⟩ := Prod.mk.inj hcursor
  have hitem : exec currentItem q = (.ok it, q) := by rw [exec_currentItem, hmh', hmi', hit]
  have hlen : 1 < (lineAt shown (y - 1)).length := lineAt_length hit hm
  refine ⟨q, ?_, hcursor, hpanel, hmeters⟩
  rw [upRound, menuItemPlus, exec_bind_ok hq, if_pos (by omega), exec_bind_ok hitem, exec_lift,
    upAssign_meter hm]

/-! ## The two records -/

def downFill (shown : Int → Reading) : Nat → Int → Polled → Polled
  | 0, _, data => data
  | n + 1, y, data =>
      downFill shown n (y + 1) (downStop (y + 1) (lineAt shown (y + 1)) data)

def upFill (shown : Int → Reading) (hertz : Int) : Nat → Int → Polled → Polled
  | 0, _, data => data
  | n + 1, y, data =>
      upFill shown hertz n (y - 1) (upStop hertz (y - 1) (lineAt shown (y - 1)) data)

theorem goDown_way {shown : Int → Reading} {n : Nat} :
    ∀ {p : Poll σ} {y : Int} {t : σ}, p.ui.cursor = (4, y) → 1 ≤ y →
      way L .down 1 shown n y p.ui.panel = some t → ∀ data : Polled,
      ∃ q, exec (goDown L n data) p = (.ok (downFill shown n y data), q) ∧
        q.ui.cursor = (4, y + n) ∧ q.ui.panel = t ∧ q.meters = p.meters := by
  induction n with
  | zero =>
    intro p y t hc _ h data
    exact ⟨p, rfl, by rw [hc]; simp, Option.some.inj h, rfl⟩
  | succ n ih =>
    intro p y t hc hy h data
    obtain ⟨it, s', hit, hanswer, hrest⟩ := way_succ h
    have hm := meter_of_getItem (by omega) (le_of_getItem hit) hit
    obtain ⟨q, hq, hcursor, hpanel, hmeters⟩ := exec_downRound hc hit hm hanswer data
    obtain ⟨r, hr, hend, hpanel', hmeters'⟩ := ih hcursor (by omega) (hpanel ▸ hrest)
      (downStop (y + 1) (lineAt shown (y + 1)) data)
    refine ⟨r, ?_, ?_, hpanel', hmeters'.trans hmeters⟩
    · rw [goDown, exec_bind_ok hq]
      exact hr
    · rw [hend, Nat.cast_succ, Int.add_assoc, Int.add_comm 1]

theorem goUp_way {shown : Int → Reading} (hertz : Int) {n : Nat} :
    ∀ {p : Poll σ} {y : Int} {t : σ}, p.ui.cursor = (4, y) → n + 1 < y →
      way L .up (-1) shown n y p.ui.panel = some t → ∀ data : Polled,
      ∃ q, exec (goUp L hertz n data) p = (.ok (upFill shown hertz n y data), q) ∧
        q.meters = p.meters := by
  induction n with
  | zero =>
    intro p y t _ _ _ data
    exact ⟨p, rfl, rfl⟩
  | succ n ih =>
    intro p y t hc hy h data
    obtain ⟨it, s', hit, hanswer, hrest⟩ := way_succ h
    have hm := meter_of_getItem (by omega) (le_of_getItem hit) hit
    obtain ⟨q, hq, hcursor, hpanel, hmeters⟩ := exec_upRound hc hit hm hanswer hertz data
    obtain ⟨r, hr, hmeters'⟩ := ih hcursor (by omega) (hpanel ▸ hrest)
      (upStop hertz (y - 1) (lineAt shown (y - 1)) data)
    refine ⟨r, ?_, hmeters'.trans hmeters⟩
    rw [goUp, exec_bind_ok hq]
    exact hr

def downRecord (shown : Int → Reading) : Polled where
  acLoadAmps := getIntValue (lineAt shown 3)
  batteryVolts := getFloatValue (lineAt shown 4)
  tempcompVolts := getFloatValue (lineAt shown 5)
  acVoltsOut := getIntValue (lineAt shown 6)
  ac1VoltsIn := zeroFloat
  ac2VoltsIn := zeroFloat
  hertz := getIntValue (lineAt shown 9)

def upRecord (hertz : Int) (shown : Int → Reading) : Polled :=
  { downRecord shown with acLoadAmps := 0, hertz := hertz }

theorem downFill_meters (shown : Int → Reading) :
    downFill shown (items + 1) 1 Polled.zero = downRecord shown := by
  simp [items, downFill, downStop, downRecord, Polled.zero]

theorem upFill_meters (hertz : Int) (shown : Int → Reading) :
    upFill shown hertz items 9 Polled.zero = upRecord hertz shown := by
  simp [items, upFill, upStop, downStop, upRecord, downRecord, Polled.zero]

/-- An iteration whose meters are shown ends with its two records. -/
theorem iteration_records {p : Poll σ} {down up : Int → Reading} {s t : σ}
    (hc : p.ui.cursor = (4, 1)) (hdown : way L .down 1 down (items + 1) 1 p.ui.panel = some s)
    (hup : way L .up (-1) up items 9 s = some t) :
    ∃ q, exec (iteration L) p = (.ok (), q) ∧
      q.meters = p.meters ++ [downRecord down, upRecord (downRecord down).hertz up] := by
  obtain ⟨q, hq, hcursor, hpanel, hmeters⟩ := goDown_way hc le_rfl hdown Polled.zero
  rw [downFill_meters] at hq
  have hnine : q.ui.cursor = (4, 9) := hcursor
  obtain ⟨r, hr, hmeters'⟩ := goUp_way (downRecord down).hertz
    (p := { q with meters := q.meters ++ [downRecord down] }) hnine (by decide) (hpanel ▸ hup)
    Polled.zero
  rw [upFill_meters] at hr
  refine ⟨{ r with meters := r.meters ++ [upRecord (downRecord down).hertz up] }, ?_, ?_⟩
  · rw [iteration, exec_bind_ok hq, exec_bind_ok (exec_modify _ q), exec_bind_ok hr, exec_modify]
  · rw [hmeters']
    dsimp only
    rw [hmeters, List.append_assoc]
    rfl

/-! ## When they are what was shown -/

/-- Each member is the number of its meter. -/
structure Holds (data : Polled) (shown : Int → Reading) (frequency : Reading) : Prop where
  acLoadAmps : (data.acLoadAmps : Rat) = (shown 3).number.value
  batteryVolts : data.batteryVolts.number = some (shown 4).number.value
  tempcompVolts : data.tempcompVolts.number = some (shown 5).number.value
  acVoltsOut : (data.acVoltsOut : Rat) = (shown 6).number.value
  ac1VoltsIn : data.ac1VoltsIn.number = some (shown 7).number.value
  ac2VoltsIn : data.ac2VoltsIn.number = some (shown 8).number.value
  hertz : (data.hertz : Rat) = frequency.number.value

/-- The readings that both records take alike. -/
structure Kept (shown : Int → Reading) : Prop where
  batteryVolts : (shown 4).FloatKept
  tempcompVolts : (shown 5).FloatKept
  acVoltsOut : (shown 6).IntKept
  ac1VoltsIn : (shown 7).number.value = 0
  ac2VoltsIn : (shown 8).number.value = 0

theorem lineAt_meter (shown : Int → Reading) (y : Int) (h2 : 2 ≤ y) (h9 : y ≤ 9) :
    ∃ label, MeterLabel label ∧ lineAt shown y = (shown y).line label := by
  obtain ⟨it, hit, hm⟩ := exists_meter h2 h9
  exact ⟨it.label, hm.meter, lineAt_eq hit⟩

theorem getIntValue_lineAt (shown : Int → Reading) (y : Int) (h2 : 2 ≤ y) (h9 : y ≤ 9) :
    (getIntValue (lineAt shown y) : Rat) = (shown y).number.value ↔ (shown y).IntKept := by
  obtain ⟨label, hl, hline⟩ := lineAt_meter shown y h2 h9
  rw [hline]
  exact getIntValue_reading hl (shown y)

theorem getFloatValue_lineAt (shown : Int → Reading) (y : Int) (h2 : 2 ≤ y) (h9 : y ≤ 9) :
    (getFloatValue (lineAt shown y)).number = some (shown y).number.value ↔
      (shown y).FloatKept := by
  obtain ⟨label, hl, hline⟩ := lineAt_meter shown y h2 h9
  rw [hline]
  exact getFloatValue_reading hl (shown y)

theorem zeroFloat_holds (r : Reading) :
    zeroFloat.number = some r.number.value ↔ r.number.value = 0 := by
  rw [zeroFloat, CFloat.number, Option.some.injEq, eq_comm]
  rfl

theorem kept_iff (shown : Int → Reading) :
    Kept shown ↔ (getFloatValue (lineAt shown 4)).number = some (shown 4).number.value ∧
      (getFloatValue (lineAt shown 5)).number = some (shown 5).number.value ∧
      (getIntValue (lineAt shown 6) : Rat) = (shown 6).number.value ∧
      zeroFloat.number = some (shown 7).number.value ∧
      zeroFloat.number = some (shown 8).number.value := by
  rw [getFloatValue_lineAt shown 4 (by decide) (by decide),
    getFloatValue_lineAt shown 5 (by decide) (by decide),
    getIntValue_lineAt shown 6 (by decide) (by decide), zeroFloat_holds,
    zeroFloat_holds]
  exact ⟨fun ⟨h4, h5, h6, h7, h8⟩ => ⟨h4, h5, h6, h7, h8⟩,
    fun ⟨h4, h5, h6, h7, h8⟩ => ⟨h4, h5, h6, h7, h8⟩⟩

theorem holds_iff (data : Polled) (shown : Int → Reading) (frequency : Reading) :
    Holds data shown frequency ↔ (data.acLoadAmps : Rat) = (shown 3).number.value ∧
      (data.hertz : Rat) = frequency.number.value ∧
      data.batteryVolts.number = some (shown 4).number.value ∧
      data.tempcompVolts.number = some (shown 5).number.value ∧
      (data.acVoltsOut : Rat) = (shown 6).number.value ∧
      data.ac1VoltsIn.number = some (shown 7).number.value ∧
      data.ac2VoltsIn.number = some (shown 8).number.value :=
  ⟨fun ⟨h3, h4, h5, h6, h7, h8, h9⟩ => ⟨h3, h9, h4, h5, h6, h7, h8⟩,
    fun ⟨h3, h9, h4, h5, h6, h7, h8⟩ => ⟨h3, h4, h5, h6, h7, h8, h9⟩⟩

theorem downRecord_holds (shown : Int → Reading) :
    Holds (downRecord shown) shown (shown 9) ↔
      (shown 3).IntKept ∧ (shown 9).IntKept ∧ Kept shown := by
  rw [← getIntValue_lineAt shown 3 (by decide) (by decide),
    ← getIntValue_lineAt shown 9 (by decide) (by decide), kept_iff, holds_iff]
  simp only [downRecord]

/-- The way up sets no load, and takes the frequency over. -/
theorem upRecord_holds (hertz : Int) (shown : Int → Reading) (frequency : Reading) :
    Holds (upRecord hertz shown) shown frequency ↔
      (shown 3).number.value = 0 ∧ (hertz : Rat) = frequency.number.value ∧ Kept shown := by
  rw [kept_iff, holds_iff]
  simp only [upRecord, downRecord, Int.cast_zero, eq_comm (a := (0 : Rat))]

theorem way_le {k : Key} {shown : Int → Reading} {n : Nat} : ∀ {y : Int} {s t : σ},
    way L k 1 shown (n + 1) y s = some t → y + (n + 1) ≤ 9 := by
  induction n with
  | zero =>
    intro y s t h
    obtain ⟨it, s', hit, -, -⟩ := way_succ h
    simpa using le_of_getItem hit
  | succ n ih =>
    intro y s t h
    obtain ⟨it, s', -, -, hrest⟩ := way_succ h
    have hle := ih hrest
    rw [Nat.cast_succ]
    omega

/-- The records of an iteration are what was shown, from either way, exactly if the readings
of each way are kept. -/
theorem records_iff (L : Line σ) {i : Nat} {p₀ p : Poll σ} {down up : Int → Reading} {s t : σ}
    (hi : exec (iterations L i) p₀ = (.ok (), p))
    (hdown : way L .down 1 down (items + 1) p.ui.menuitem p.ui.panel = some s)
    (hup : way L .up (-1) up items (p.ui.menuitem + items + 1) s = some t) :
    ∃ q downdata updata, exec (iteration L) p = (.ok (), q) ∧
      q.meters = p.meters ++ [downdata, updata] ∧
      (Holds downdata down (down 9) ∧ Holds updata up (down 9) ↔
        (down 3).IntKept ∧ (down 9).IntKept ∧ Kept down ∧ (up 3).number.value = 0 ∧ Kept up) := by
  have hcursor := iterations_ok hi
  have hmi : p.ui.menuitem = 1 + (i : Int) := (Prod.mk.inj hcursor).2
  have hle := way_le hdown
  have hone : p.ui.menuitem = 1 := by
    rw [items] at hle
    omega
  rw [hone] at hdown hup
  have hstart : p.ui.cursor = (4, 1) := by rw [hcursor, ← hmi, hone]
  obtain ⟨q, hq, hmeters⟩ := iteration_records hstart hdown hup
  refine ⟨q, _, _, hq, hmeters, ?_⟩
  have hfrequency : ((downRecord down).hertz : Rat) = (down 9).number.value ↔
      (down 9).IntKept := by
    simp only [downRecord]
    exact getIntValue_lineAt down 9 (by decide) (by decide)
  rw [downRecord_holds, upRecord_holds, hfrequency]
  constructor
  · rintro ⟨⟨h3, h9, hkept⟩, hzero, -, hkept'⟩
    exact ⟨h3, h9, hkept, hzero, hkept'⟩
  · rintro ⟨h3, h9, hkept, hzero, hkept'⟩
    exact ⟨⟨h3, h9, hkept⟩, hzero, h9, hkept'⟩

end

/-- A display that shows the same reading for every meter, and else the labels. -/
def constant (reading : Reading) : Line (Int × Int) where
  uartfd := 3
  isOpen := firstPort_open
  press k p :=
    let moved := k.moved p
    (if moved.1 = 4 ∧ 2 ≤ moved.2 ∧ moved.2 ≤ 9 then lineAt (fun _ => reading) moved.2
      else (labelAt moved).getD [], moved)
  setup p := ([], p)

/-- 120, shown twice. -/
def mains : Reading where
  blanks := 2
  number := ⟨[], bytes "120", none, sign_nil,
    ⟨List.all_eq_true.mp (by decide), by simp⟩, by decide⟩
  copies := [1]

def mainsPoll : Poll (Int × Int) :=
  (exec (iterations (constant mains) 0) ⟨⟨2, 0, [], (2, 0), []⟩, [], []⟩).2

theorem mains_start :
    exec (iterations (constant mains) 0) ⟨⟨2, 0, [], (2, 0), []⟩, [], []⟩ =
      (.ok (), mainsPoll) :=
  Prod.ext (by decide +kernel) rfl

theorem mains_down :
    way (constant mains) .down 1 (fun _ => mains) (items + 1) mainsPoll.ui.menuitem
      mainsPoll.ui.panel = some (4, 9) := by
  decide +kernel

theorem mains_up :
    way (constant mains) .up (-1) (fun _ => mains) items (mainsPoll.ui.menuitem + items + 1)
      (4, 9) = some (4, 2) := by
  decide +kernel

theorem mains_records :
    ∃ q downdata updata, exec (iteration (constant mains)) mainsPoll = (.ok (), q) ∧
      q.meters = mainsPoll.meters ++ [downdata, updata] ∧
      (Holds downdata (fun _ => mains) mains ∧ Holds updata (fun _ => mains) mains ↔
        mains.IntKept ∧ mains.IntKept ∧ Kept (fun _ => mains) ∧ mains.number.value = 0 ∧
          Kept (fun _ => mains)) :=
  records_iff (constant mains) mains_start mains_down mains_up

/-- The grid shows 120 and is recorded as 0. -/
theorem mains_lost :
    ¬ ∀ (σ : Type) (L : Line σ) (i : Nat) (p₀ p : Poll σ) (down up : Int → Reading) (s t : σ),
      exec (iterations L i) p₀ = (.ok (), p) →
      way L .down 1 down (items + 1) p.ui.menuitem p.ui.panel = some s →
      way L .up (-1) up items (p.ui.menuitem + items + 1) s = some t →
      ∃ q downdata updata, exec (iteration L) p = (.ok (), q) ∧
        q.meters = p.meters ++ [downdata, updata] ∧
        Holds downdata down (down 9) ∧ Holds updata up (down 9) := by
  intro h
  obtain ⟨q, downdata, updata, hq, hmeters, hholds, -⟩ := h _ (constant mains) 0 _ _ _ _ _ _
    mains_start mains_down mains_up
  have hstart : mainsPoll.ui.cursor = (4, 1) := iterations_ok mains_start
  obtain ⟨q', hq', hmeters'⟩ := iteration_records hstart mains_down mains_up
  obtain ⟨-, rfl⟩ := Prod.mk.inj (hq.symm.trans hq')
  have hdata := (List.cons.inj (List.append_cancel_left (hmeters.symm.trans hmeters'))).1
  have hgrid := hholds.ac1VoltsIn
  rw [hdata, downRecord, zeroFloat_holds] at hgrid
  exact absurd hgrid (by decide +kernel)

end PowerGuru.Devices.XantrexRecords
