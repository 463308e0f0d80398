import PowerGuru.Devices.XantrexValues

/-!
# Readings of the meter display

A meter is shown as its label, blanks and a number, which the display may repeat. What
the two converters make of the line depends on how much of the number is kept.
-/
namespace PowerGuru.Devices.XantrexReadings

open Lib.Bytes Lib.Strtol Lib.Numeral Lib.Strtod XantrexValues

/-- The same text again, each time behind one more blank than the number says. -/
def again (text : List Byte) : List Nat → List Byte
  | [] => []
  | k :: ks => blank :: (List.replicate k blank ++ (text ++ again text ks))

structure Reading where
  blanks : Nat
  number : Number
  copies : List Nat

def Reading.line (label : List Byte) (r : Reading) : List Byte :=
  label ++ List.replicate r.blanks blank ++
    blank :: (r.number.text ++ again r.number.text r.copies)

/-- The digits that are kept of a number that begins with one. -/
def Reading.kept (r : Reading) : List Byte × Option (List Byte) :=
  if r.copies = [] then
    (r.number.whole.take 4,
      if 4 ≤ r.number.whole.length then none
      else r.number.fraction.map (·.take (3 - r.number.whole.length)))
  else (r.number.whole, r.number.fraction)

/-- The number is zero, or it begins with a digit and what is kept has its value. -/
def Reading.FloatKept (r : Reading) : Prop :=
  r.number.value = 0 ∨
    r.number.Led ∧ places 10 r.kept.1 (r.kept.2.getD []) = r.number.value

/-- The number is zero, or it begins with a digit and the digits kept in front of the
point make it, below 2^31. -/
def Reading.IntKept (r : Reading) : Prop :=
  r.number.value = 0 ∨
    r.number.Led ∧ digitsFrom 10 0 r.kept.1 < 2^31 ∧
      r.number.value = digitsFrom 10 0 r.kept.1

/-- No value is found in the label, nor a number at its front. -/
structure MeterLabel (label : List Byte) : Prop where
  no_pair : ∀ i ≤ 10, cut (lookfor i) label = none
  has_blank : blank ∈ label
  no_nul : NUL ∉ label
  no_int : toInt (strtol (label.takeWhile (· != blank) ++ [blank]) 10) = 0
  no_float : (strtod (label.takeWhile (· != blank) ++ [blank])).number = some 0

/-! ## What stands behind the label -/

/-- A character of the search is not at the front, and does not follow a blank. -/
structure Skips (i : Nat) (s : List Byte) : Prop where
  front : s.head? ≠ some (UInt8.ofNat (48 + i))
  pairs : cut (lookfor i) s = none

theorem skips_nil (i : Nat) : Skips i [] := ⟨by simp, rfl⟩

theorem skips_blank {i : Nat} (hi : i ≤ 10) {s : List Byte} (h : Skips i s) :
    Skips i (blank :: s) := by
  refine ⟨fun he => (char_ne_blank i hi).1 (Option.some.inj he).symm, ?_⟩
  cases hs : strip (lookfor i) (blank :: s) with
  | none =>
    rw [cut, hs]
    dsimp only
    rw [h.pairs, Option.map_none]
  | some t =>
    have hst := (List.cons.inj (strip_eq_some_iff.mp hs)).2
    exact absurd (by rw [hst]; rfl) h.front

theorem skips_blanks {i : Nat} (hi : i ≤ 10) (k : Nat) {s : List Byte} (h : Skips i s) :
    Skips i (List.replicate k blank ++ s) := by
  induction k with
  | zero => exact h
  | succ k ih =>
    rw [List.replicate_succ, List.cons_append]
    exact skips_blank hi ih

/-- A text without blanks in front of another that begins with one. -/
theorem skips_text {i : Nat} (hi : i ≤ 10) {text rest : List Byte} (hne : text ≠ [])
    (hhead : text.head? ≠ some (UInt8.ofNat (48 + i))) (hblank : blank ∉ text)
    (hrest : rest = [] ∨ ∃ s, rest = blank :: s ∧ Skips i rest) : Skips i (text ++ rest) := by
  obtain ⟨b, w, rfl⟩ := List.exists_cons_of_ne_nil hne
  refine ⟨hhead, ?_⟩
  rcases hrest with rfl | ⟨s, rfl, hs⟩
  · rw [List.append_nil]
    exact cut_none_of_blank hblank
  · rw [cut_label hi (cut_none_of_blank hblank), hs.pairs, Option.map_none]

theorem skips_again {i : Nat} (hi : i ≤ 10) {text : List Byte} (hne : text ≠ [])
    (hhead : text.head? ≠ some (UInt8.ofNat (48 + i))) (hblank : blank ∉ text) (ks : List Nat) :
    again text ks = [] ∨ ∃ s, again text ks = blank :: s ∧ Skips i (again text ks) := by
  induction ks with
  | nil => exact .inl rfl
  | cons k ks ih =>
    refine .inr ⟨_, rfl, ?_⟩
    exact skips_blank hi (skips_blanks hi k (skips_text hi hne hhead hblank ih))

theorem cut_blanks {i : Nat} (hi : i ≤ 10) {label : List Byte} (h : cut (lookfor i) label = none)
    (k : Nat) : cut (lookfor i) (label ++ List.replicate k blank) = none := by
  cases k with
  | zero => rwa [List.replicate_zero, List.append_nil]
  | succ k =>
    have hskips := skips_blanks hi (k + 1) (skips_nil i)
    rw [List.append_nil, List.replicate_succ] at hskips
    rw [List.replicate_succ, cut_label hi h, hskips.pairs, Option.map_none]

theorem text_ne_nil (n : Number) : n.text ≠ [] := by
  intro h
  obtain ⟨-, hd⟩ := List.append_eq_nil_iff.mp h
  apply n.some_digit
  cases hf : n.fraction with
  | none =>
    rw [hf, decimalText] at hd
    rw [hd]
    rfl
  | some f =>
    rw [hf, decimalText] at hd
    exact absurd hd (by simp)

/-- The line of a reading as a display line. -/
def Reading.display (r : Reading) {label : List Byte} (hl : MeterLabel label) : Display where
  label := label ++ List.replicate r.blanks blank
  no_value i hi := cut_blanks (by omega) (hl.no_pair i (by omega)) r.blanks
  no_nul := by
    rw [List.mem_append, List.mem_replicate]
    rintro (h | ⟨-, h⟩)
    · exact hl.no_nul h
    · exact absurd h (by decide)
  value := .number r.number
  further :=
    match r.copies with
    | [] => none
    | k :: ks => some (List.replicate k blank ++ (r.number.text ++ again r.number.text ks))

theorem further_again (r : Reading) {label : List Byte} (hl : MeterLabel label) :
    (r.display hl).further.elim [] (blank :: ·) = again r.number.text r.copies := by
  rw [Reading.display]
  cases r.copies with
  | nil => rfl
  | cons k ks => rfl

theorem display_text (r : Reading) {label : List Byte} (hl : MeterLabel label) :
    (r.display hl).text = r.line label := by
  rw [Display.text, further_again]
  rfl

/-- A character at which the number does not begin is not found in its line. -/
theorem cut_line {i : Nat} (hi : i ≤ 10) {r : Reading} {label : List Byte} (hl : MeterLabel label)
    (hhead : r.number.text.head? ≠ some (UInt8.ofNat (48 + i))) :
    cut (lookfor i) (r.line label) = none := by
  have hne := text_ne_nil r.number
  have hblank := blank_not_mem_number r.number
  have hskips := skips_blank hi
    (skips_text hi hne hhead hblank (skips_again hi hne hhead hblank r.copies))
  rw [Reading.line, cut_label hi (cut_blanks hi (hl.no_pair i hi) r.blanks), hskips.pairs,
    Option.map_none]

/-! ## What is kept -/

theorem take_decimalText (w : List Byte) (fraction : Option (List Byte)) :
    (decimalText w fraction).take 4 =
      decimalText (w.take 4)
        (if 4 ≤ w.length then none else fraction.map (·.take (3 - w.length))) := by
  by_cases hw : 4 ≤ w.length
  · rw [if_pos hw]
    cases fraction with
    | none => rfl
    | some f => rw [decimalText, decimalText, List.take_append_of_le_length hw]
  · rw [if_neg hw]
    have hall : w.take 4 = w := List.take_of_length_le (by omega)
    rw [hall]
    cases fraction with
    | none => exact hall
    | some f =>
      have hsub : 4 - w.length = 3 - w.length + 1 := by omega
      rw [decimalText, List.take_append, hall, hsub, List.take_succ_cons, Option.map_some,
        decimalText]

theorem kept_digits (r : Reading) : Digits r.kept.1 r.kept.2 := by
  obtain ⟨hwhole, hfraction⟩ := r.number.digits
  rw [Reading.kept]
  split
  · refine ⟨fun b hb => hwhole b (List.mem_of_mem_take hb), fun f hf b hb => ?_⟩
    split at hf
    · exact absurd hf (by simp)
    · obtain ⟨g, hg, rfl⟩ := Option.map_eq_some_iff.mp hf
      exact hfraction g hg b (List.mem_of_mem_take hb)
  · exact r.number.digits

theorem kept_ne_nil {r : Reading} (h : r.number.Led) : r.kept.1 ≠ [] := by
  rw [Reading.kept]
  split
  · have hne := h.2
    simpa using hne
  · exact h.2

theorem token_append {text rest : List Byte} (h : blank ∉ text) :
    token (text ++ blank :: rest) = text ++ [blank] := by
  have hall : ∀ b ∈ text, (b != blank) = true := fun b hb => bne_iff_ne.mpr fun he => h (he ▸ hb)
  rw [token, if_pos (by simp), List.takeWhile_append_of_pos hall]
  simp

/-- A number that begins with a digit is kept to its end, or to its fourth character. -/
theorem getValue_led {r : Reading} {label : List Byte} (hl : MeterLabel label)
    (hled : r.number.Led) :
    ∃ rest, (rest = [] ∨ rest = [blank]) ∧
      getValue (r.line label) = decimalText r.kept.1 r.kept.2 ++ rest := by
  have hn : (r.display hl).value = .number r.number := rfl
  have htext : r.number.text = decimalText r.number.whole r.number.fraction := by
    rw [Number.text, hled.1, List.nil_append]
  have hblank := blank_not_mem_number r.number
  rw [← display_text r hl]
  by_cases hc : r.copies = []
  · have hnone : (r.display hl).further = none := by
      rw [Reading.display]
      simp only [hc]
    refine ⟨[], .inl rfl, ?_⟩
    rw [getValue_last hn hled hnone, htext, take_decimalText, Reading.kept, if_pos hc,
      List.append_nil]
  · obtain ⟨i, hi, t, ht⟩ := head_of_led hled
    have hbefore : ∀ j < i, cut (lookfor j) (r.display hl).text = none := by
      intro j hj
      have hhead : r.number.text.head? ≠ some (UInt8.ofNat (48 + j)) := by
        rw [ht]
        intro he
        have hij := char_inj i hi j (by omega) (Option.some.inj he)
        omega
      rw [display_text]
      exact cut_line (by omega) hl hhead
    obtain ⟨k, ks, hks⟩ := List.exists_cons_of_ne_nil hc
    refine ⟨[blank], .inr rfl, ?_⟩
    rw [getValue_at hn hi ht hbefore, further_again, hks, again, token_append hblank, htext,
      Reading.kept, if_neg hc]

/-- Where no value is found the label is cut behind its first word. -/
theorem getValue_signed {r : Reading} {label : List Byte} (hl : MeterLabel label)
    (hled : ¬ r.number.Led) :
    getValue (r.line label) = label.takeWhile (· != blank) ++ [blank] := by
  have hnone : ∀ i ≤ 10, cut (lookfor i) (r.line label) = none := by
    intro i hi
    refine cut_line hi hl fun he => ?_
    obtain ⟨t, ht⟩ := List.head?_eq_some_iff.mp he
    exact hled (led_of_head hi ht).1
  rcases getValue_cases (r.line label) with ⟨i, before, after, hi, hfound, -⟩ | ⟨-, htoken⟩
  · exact absurd ((hnone i hi).symm.trans hfound.split) (by simp)
  · have hword : (r.line label).takeWhile (· != blank) = label.takeWhile (· != blank) := by
      rw [Reading.line, List.append_assoc]
      exact takeWhile_append_of_mem hl.has_blank _
    rw [htoken, token, if_pos (by simp [Reading.line]), hword]

/-! ## What is read -/

theorem value_led {n : Number} (h : n.Led) : n.value = places 10 n.whole (n.fraction.getD []) := by
  rw [Number.value, h.1, if_neg (by simp), one_mul]

/-- The digits that are kept are the first of the number. -/
theorem kept_prefix (r : Reading) :
    r.kept.1 ++ r.kept.2.getD [] <+: r.number.whole ++ r.number.fraction.getD [] := by
  rw [Reading.kept]
  split
  · split
    · rw [Option.getD_none, List.append_nil]
      exact (List.take_prefix _ _).trans (List.prefix_append _ _)
    · next hw =>
      have hall : r.number.whole.take 4 = r.number.whole := List.take_of_length_le (by omega)
      rw [hall, List.prefix_append_right_inj]
      cases r.number.fraction with
      | none => exact List.prefix_refl _
      | some f => exact List.take_prefix _ _
  · exact List.prefix_refl _

/-- Nothing but zeros is kept of a zero. -/
theorem kept_zero {r : Reading} (h : r.number.Led) (hz : r.number.value = 0) :
    digitsFrom 10 0 (r.kept.1 ++ r.kept.2.getD []) = 0 := by
  obtain ⟨rest, hrest⟩ := kept_prefix r
  have hpos : ((10 : Nat) : Rat)^(r.number.fraction.getD []).length ≠ 0 := by positivity
  rw [value_led h, places, div_eq_zero_iff, or_iff_left hpos, Nat.cast_eq_zero, ← hrest] at hz
  exact digitsFrom_eq_zero (hrest ▸ r.number.digits.all) hz

theorem cstr_kept (r : Reading) {rest : List Byte} (hr : rest = [] ∨ rest = [blank]) :
    cstr (decimalText r.kept.1 r.kept.2 ++ rest) = decimalText r.kept.1 r.kept.2 ++ rest := by
  have hdigit : ∀ {b : Byte}, isDigit b = true → b ≠ NUL := by
    intro b hb
    obtain ⟨d, hd, rfl⟩ := exists_digit hb
    exact (digit_cases hd).2.1
  have hrest : NUL ∉ rest := by
    rcases hr with rfl | rfl <;> decide
  apply cstr_of_not_mem
  rw [List.mem_append, not_or]
  refine ⟨fun h => ?_, hrest⟩
  obtain ⟨hwhole, hfraction⟩ := kept_digits r
  cases hf : r.kept.2 with
  | none =>
    rw [hf, decimalText] at h
    exact hdigit (hwhole _ h) rfl
  | some f =>
    rw [hf, decimalText, List.mem_append, List.mem_cons] at h
    rcases h with h | h | h
    · exact hdigit (hwhole _ h) rfl
    · exact absurd h (by decide)
    · exact hdigit (hfraction f hf _ h) rfl

theorem cstr_word {label : List Byte} (hl : MeterLabel label) :
    cstr (label.takeWhile (· != blank) ++ [blank]) = label.takeWhile (· != blank) ++ [blank] := by
  apply cstr_of_not_mem
  rw [List.mem_append, not_or]
  exact ⟨fun h => hl.no_nul ((List.takeWhile_subset _) h), by decide⟩

theorem ends_rest {rest : List Byte} (hr : rest = [] ∨ rest = [blank]) : Ends rest := by
  rcases hr with rfl | rfl
  · exact ends_nil
  · exact ends_space []

theorem getFloatValue_reading {label : List Byte} (hl : MeterLabel label) (r : Reading) :
    (getFloatValue (r.line label)).number = some r.number.value ↔ r.FloatKept := by
  rw [getFloatValue, Reading.FloatKept]
  by_cases hled : r.number.Led
  · obtain ⟨rest, hr, hvalue⟩ := getValue_led hl hled
    rw [hvalue, cstr_kept r hr, strtod_decimal (kept_digits r) (kept_ne_nil hled) (ends_rest hr),
      Option.some.injEq, and_iff_right hled]
    refine ⟨.inr, fun h => h.elim (fun hz => ?_) id⟩
    rw [places, kept_zero hled hz, hz, Nat.cast_zero, zero_div]
  · rw [getValue_signed hl hled, cstr_word hl, hl.no_float, Option.some.injEq,
      or_iff_left fun h => hled h.1, eq_comm]

/-- An `int` that is too small to be read from so many digits. -/
theorem toInt_lt (x : Int) : toInt x < 2^31 := Int.bmod_lt (by decide)

/-- Only a repeated number is kept with so many digits. -/
theorem le_value {r : Reading} (hled : r.number.Led) (h : ¬ digitsFrom 10 0 r.kept.1 < 2^31) :
    (digitsFrom 10 0 r.kept.1 : Rat) ≤ r.number.value := by
  rw [value_led hled]
  by_cases hc : r.copies = []
  · have hkept : r.kept.1 = r.number.whole.take 4 := by rw [Reading.kept, if_pos hc]
    rw [hkept] at h
    have hlt : digitsFrom 10 0 (r.number.whole.take 4) <
        (0 + 1) * 10^(r.number.whole.take 4).length := digitsFrom_lt (by decide) _ _
    have hlen : (r.number.whole.take 4).length ≤ 4 := List.length_take_le 4 _
    have hpow : 10^(r.number.whole.take 4).length ≤ 10^4 := Nat.pow_le_pow_right (by decide) hlen
    omega
  · have hkept : r.kept.1 = r.number.whole := by rw [Reading.kept, if_neg hc]
    rw [hkept]
    exact whole_le_places r.number.digits

theorem getIntValue_reading {label : List Byte} (hl : MeterLabel label) (r : Reading) :
    (getIntValue (r.line label) : Rat) = r.number.value ↔ r.IntKept := by
  rw [getIntValue, Reading.IntKept]
  by_cases hled : r.number.Led
  · obtain ⟨rest, hr, hvalue⟩ := getValue_led hl hled
    rw [hvalue, cstr_kept r hr, strtol_decimal (kept_digits r) (kept_ne_nil hled) (ends_rest hr),
      and_iff_right hled]
    have hwhole : r.number.value = 0 → digitsFrom 10 0 r.kept.1 = 0 := fun hz =>
      digitsFrom_eq_zero (kept_digits r).all (kept_zero hled hz)
    by_cases hlt : digitsFrom 10 0 r.kept.1 < 2^31
    · rw [clampLong_of_small hlt, toInt_of_small hlt, and_iff_right hlt, Int.cast_natCast]
      refine ⟨fun h => .inr h.symm, fun h => h.elim (fun hz => ?_) Eq.symm⟩
      rw [hwhole hz, hz, Nat.cast_zero]
    · refine iff_of_false (fun h => ?_) fun h => ?_
      · have hge := le_value hled hlt
        rw [← h] at hge
        have hsmall := toInt_lt (clampLong (digitsFrom 10 0 r.kept.1))
        have hint : ((digitsFrom 10 0 r.kept.1 : Nat) : Int) ≤
            toInt (clampLong (digitsFrom 10 0 r.kept.1)) := by exact_mod_cast hge
        omega
      · rcases h with hz | hw
        · rw [hwhole hz] at hlt
          exact hlt (by decide)
        · exact hlt hw.1
  · rw [getValue_signed hl hled, cstr_word hl, hl.no_int, Int.cast_zero,
      or_iff_left fun h => hled h.1, eq_comm]

end PowerGuru.Devices.XantrexReadings
