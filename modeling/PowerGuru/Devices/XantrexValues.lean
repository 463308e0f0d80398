import PowerGuru.Lib.Strtod

/-!
# `XantrexUI::GetValue` and its converters

A value is looked for by its first digit, the smaller digits first, wherever in the line
they stand. A line that ends with the value keeps four characters of it.
-/
namespace PowerGuru.Devices.XantrexValues

open Lib.Bytes Lib.Strtol Lib.Numeral Lib.Strtod

def blank : Byte := 32

/-- `str.find(needle, 0)`; not found is -1, as `npos` counts in what follows. -/
def find (needle str : List Byte) : Int :=
  match cut needle str with
  | some (before, _) => before.length
  | none => -1

/-- A blank and the character `'0' + i`. -/
def lookfor (i : Nat) : List Byte := [blank, UInt8.ofNat (48 + i)]

/-- `do { pos = find(...) } while (pos == npos && i++ < 10)`. -/
def search (str : List Byte) : Nat → Nat → Int
  | 0, i => find (lookfor i) str
  | more + 1, i =>
      if find (lookfor i) str = -1 then search str more (i + 1) else find (lookfor i) str

/-- The line becomes its value. -/
def getValue (str : List Byte) : List Byte :=
  let pos := search str 10 0
  let rest := str.drop (pos + 1).toNat
  let pos2 := if blank ∈ rest then pos + 1 + (rest.takeWhile (· != blank)).length else pos + 4
  rest.take (pos2 - pos).toNat

def getIntValue (str : List Byte) : Int := toInt (strtol (cstr (getValue str)) 10)

def getFloatValue (str : List Byte) : CFloat := strtod (cstr (getValue str))

def getBoolValue (str : List Byte) : Bool :=
  let tmpstr := cstr (getValue str)
  !(tmpstr == bytes "NO" || tmpstr == bytes "OFF")

/-! ## Where a value is found -/

/-- The characters from a position on. -/
def token (rest : List Byte) : List Byte :=
  if blank ∈ rest then rest.takeWhile (· != blank) ++ [blank] else rest.take 4

theorem take_takeWhile {b : Byte} {s : List Byte} (h : b ∈ s) :
    s.take ((s.takeWhile (· != b)).length + 1) = s.takeWhile (· != b) ++ [b] := by
  induction s with
  | nil => exact absurd h List.not_mem_nil
  | cons c s ih =>
    by_cases hc : c = b
    · simp [hc]
    · have hs : b ∈ s := (List.mem_cons.mp h).resolve_left (Ne.symm hc)
      have hcond : (c != b) = true := bne_iff_ne.mpr hc
      rw [List.takeWhile_cons, if_pos hcond, List.length_cons, List.take_succ_cons, ih hs,
        List.cons_append]

theorem getValue_eq (str : List Byte) :
    getValue str = token (str.drop (search str 10 0 + 1).toNat) := by
  unfold getValue token
  dsimp only
  generalize search str 10 0 = pos
  generalize str.drop (pos + 1).toNat = rest
  by_cases h : blank ∈ rest
  · rw [if_pos h, if_pos h, ← take_takeWhile h]
    congr 1
    omega
  · rw [if_neg h, if_neg h]
    congr 1
    omega

/-- A blank and one of the eleven characters, with what stands around them. -/
structure FoundAt (str : List Byte) (i : Nat) (before after : List Byte) : Prop where
  split : cut (lookfor i) str = some (before, after)
  first : ∀ j < i, cut (lookfor j) str = none

theorem find_eq_neg_iff (needle str : List Byte) :
    find needle str = -1 ↔ cut needle str = none := by
  unfold find
  cases cut needle str with
  | none => simp
  | some p => simp only [reduceCtorEq]

theorem search_cases (str : List Byte) (more i : Nat)
    (hbefore : ∀ j < i, cut (lookfor j) str = none) :
    (∃ k before after, k ≤ i + more ∧ FoundAt str k before after ∧
      search str more i = before.length) ∨
    (∀ j ≤ i + more, cut (lookfor j) str = none) ∧ search str more i = -1 := by
  induction more generalizing i with
  | zero =>
    cases hc : cut (lookfor i) str with
    | some p =>
      exact .inl ⟨i, p.1, p.2, le_rfl, ⟨hc, hbefore⟩, by rw [search, find, hc]⟩
    | none =>
      refine .inr ⟨fun j hj => ?_, by rw [search, find, hc]⟩
      rcases Nat.lt_or_eq_of_le hj with hlt | rfl
      · exact hbefore j hlt
      · exact hc
  | succ more ih =>
    cases hc : cut (lookfor i) str with
    | some p =>
      have hne : find (lookfor i) str ≠ -1 := fun he =>
        absurd ((find_eq_neg_iff _ _).mp he) (by rw [hc]; simp)
      refine .inl ⟨i, p.1, p.2, by omega, ⟨hc, hbefore⟩, ?_⟩
      rw [search, if_neg hne, find, hc]
    | none =>
      have hnext : ∀ j < i + 1, cut (lookfor j) str = none := by
        intro j hj
        rcases Nat.lt_succ_iff_lt_or_eq.mp hj with hlt | rfl
        · exact hbefore j hlt
        · exact hc
      rw [search, if_pos ((find_eq_neg_iff _ _).mpr hc)]
      simpa only [Nat.add_right_comm, Nat.add_assoc] using ih (i + 1) hnext

/-- What a value is taken from: the text from the smallest character on, or else the
whole line. -/
theorem getValue_cases (str : List Byte) :
    (∃ i before after, i ≤ 10 ∧ FoundAt str i before after ∧
      getValue str = token (UInt8.ofNat (48 + i) :: after)) ∨
    (∀ i ≤ 10, cut (lookfor i) str = none) ∧ getValue str = token str := by
  rcases search_cases str 10 0 (fun j hj => absurd hj (Nat.not_lt_zero j)) with
    ⟨i, before, after, hi, hfound, hpos⟩ | ⟨hnone, hpos⟩
  · refine .inl ⟨i, before, after, by omega, hfound, ?_⟩
    have hstr : str = (before ++ [blank]) ++ UInt8.ofNat (48 + i) :: after := by
      rw [eq_of_cut hfound.split, lookfor]
      simp
    have hdrop : str.drop (before.length + 1) = UInt8.ofNat (48 + i) :: after := by
      conv_lhs => rw [hstr]
      exact List.drop_left' (by simp)
    rw [getValue_eq, hpos, ← hdrop]
    congr 2
  · refine .inr ⟨fun i hi => hnone i (by omega), ?_⟩
    rw [getValue_eq, hpos]
    rfl

/-! ## Behind a label -/

theorem char_ne_blank : ∀ i ≤ 10, UInt8.ofNat (48 + i) ≠ blank ∧ UInt8.ofNat (48 + i) ≠ NUL := by
  decide

theorem token_cons {c : Byte} (hc : c ≠ blank) (rest : List Byte) :
    ∃ t, token (c :: rest) = c :: t := by
  unfold token
  split
  · exact ⟨rest.takeWhile (· != blank) ++ [blank], by simp [hc]⟩
  · exact ⟨rest.take 3, rfl⟩

theorem blank_mem_token {rest : List Byte} (h : blank ∈ rest) : blank ∈ token rest := by
  rw [token, if_pos h]
  simp

theorem cut_none_of_blank {i : Nat} {s : List Byte} (h : blank ∉ s) : cut (lookfor i) s = none := by
  cases hc : cut (lookfor i) s with
  | none => rfl
  | some p =>
    refine absurd ?_ h
    rw [eq_of_cut (show cut (lookfor i) s = some (p.1, p.2) from hc), lookfor]
    simp

/-- A label without the pair is passed over. -/
theorem cut_label {i : Nat} (hi : i ≤ 10) {label : List Byte} (h : cut (lookfor i) label = none)
    (rest : List Byte) :
    cut (lookfor i) (label ++ blank :: rest) =
      (cut (lookfor i) (blank :: rest)).map fun p => (label ++ p.1, p.2) := by
  induction label with
  | nil => simp
  | cons b l ih =>
    rw [cut] at h
    split at h
    · exact absurd h (by simp)
    · next hstrip =>
      have hnone : strip (lookfor i) (b :: (l ++ blank :: rest)) = none := by
        cases hs : strip (lookfor i) (b :: (l ++ blank :: rest)) with
        | none => rfl
        | some t =>
          have heq := strip_eq_some_iff.mp hs
          rw [lookfor, List.cons_append, List.cons_append, List.nil_append] at heq
          obtain ⟨rfl, hl⟩ := List.cons.inj heq
          cases l with
          | nil => exact absurd (List.cons.inj hl).1.symm (char_ne_blank i hi).1
          | cons c l =>
            obtain ⟨rfl, -⟩ := List.cons.inj hl
            have hsome := strip_append (lookfor i) l
            exact absurd (hstrip.symm.trans hsome) (by simp)
      rw [Option.map_eq_none_iff] at h
      rw [List.cons_append, cut, hnone]
      dsimp only
      rw [ih h, Option.map_map]
      rfl

theorem cut_value {i : Nat} (hi : i ≤ 10) {label : List Byte} (h : cut (lookfor i) label = none)
    (t : List Byte) :
    cut (lookfor i) (label ++ blank :: UInt8.ofNat (48 + i) :: t) = some (label, t) := by
  rw [cut_label hi h, cut, show blank :: UInt8.ofNat (48 + i) :: t = lookfor i ++ t from rfl,
    strip_append]
  simp

/-! ## Display lines -/

/-- A number with an optional sign and fraction. -/
structure Number where
  sign : List Byte
  whole : List Byte
  fraction : Option (List Byte)
  sign_ok : sign = [] ∨ sign = [minus] ∨ sign = [plus]
  digits : Digits whole fraction
  some_digit : whole ++ fraction.getD [] ≠ []

/-- A number may be without a sign. -/
theorem sign_nil : ([] : List Byte) = [] ∨ [] = [minus] ∨ [] = [plus] := .inl rfl

def Number.text (n : Number) : List Byte := n.sign ++ decimalText n.whole n.fraction

def Number.value (n : Number) : Rat :=
  (if n.sign = [minus] then -1 else 1) * places 10 n.whole (n.fraction.getD [])

/-- It begins with a digit. -/
def Number.Led (n : Number) : Prop := n.sign = [] ∧ n.whole ≠ []

inductive Value where
  | number (n : Number)
  | word (w : List Byte)

def Value.text : Value → List Byte
  | .number n => n.text
  | .word w => w

/-- A label, a blank, a value, and perhaps a blank and further text. -/
structure Display where
  label : List Byte
  no_value : ∀ i < 10, cut (lookfor i) label = none
  no_nul : NUL ∉ label
  value : Value
  further : Option (List Byte)

def Display.text (d : Display) : List Byte :=
  d.label ++ blank :: (d.value.text ++ d.further.elim [] (blank :: ·))

/-- The whole number and its value; for a word, whether it is neither of the two. -/
def Extracted (d : Display) : Prop :=
  match d.value with
  | .number n =>
      getValue d.text = n.text ∧ (∀ i : Int, n.value = i → getIntValue d.text = i) ∧
        (getFloatValue d.text).number = some n.value
  | .word w => getBoolValue d.text = false ↔ w = bytes "NO" ∨ w = bytes "OFF"

/-- A number of at most four characters that begins with a digit and ends the line, or a
word other than the two. -/
def Plain (d : Display) : Prop :=
  match d.value with
  | .number n => n.Led ∧ d.further = none ∧ n.text.length ≤ 4
  | .word w => w ≠ bytes "NO" ∧ w ≠ bytes "OFF"

theorem numberByte_of_mem {n : Number} {b : Byte} (h : b ∈ n.text) :
    isDigit b = true ∨ b = minus ∨ b = plus ∨ b = point := by
  rw [Number.text, List.mem_append] at h
  rcases h with h | h
  · rcases n.sign_ok with hs | hs | hs <;> rw [hs] at h
    · exact absurd h List.not_mem_nil
    · exact .inr (.inl (List.mem_singleton.mp h))
    · exact .inr (.inr (.inl (List.mem_singleton.mp h)))
  · cases hf : n.fraction with
    | none =>
      rw [hf, decimalText] at h
      exact .inl (n.digits.whole_digits b h)
    | some f =>
      rw [hf, decimalText, List.mem_append, List.mem_cons] at h
      rcases h with h | rfl | h
      · exact .inl (n.digits.whole_digits b h)
      · exact .inr (.inr (.inr rfl))
      · exact .inl (n.digits.fraction_digits f hf b h)

theorem plain_of_mem {n : Number} {b : Byte} (h : b ∈ n.text) : b ≠ blank ∧ b ≠ NUL := by
  rcases numberByte_of_mem h with hd | rfl | rfl | rfl
  · have hspace := (digitByte hd).not_space
    obtain ⟨d, hten, rfl⟩ := exists_digit hd
    exact ⟨fun he => absurd hspace (by rw [he]; decide), (digit_cases hten).2.1⟩
  · decide
  · decide
  · decide

theorem blank_not_mem_number (n : Number) : blank ∉ n.text := fun h => (plain_of_mem h).1 rfl

theorem cstr_number (n : Number) : cstr n.text = n.text :=
  cstr_of_not_mem fun h => (plain_of_mem h).2 rfl

theorem char_facts : ∀ i ≤ 10, UInt8.ofNat (48 + i) ≠ minus ∧ UInt8.ofNat (48 + i) ≠ plus ∧
    UInt8.ofNat (48 + i) ≠ point ∧ UInt8.ofNat (48 + i) ≠ 78 ∧ UInt8.ofNat (48 + i) ≠ 79 ∧
    (isDigit (UInt8.ofNat (48 + i)) = true → i < 10) := by decide

/-- A number whose first character is one of the eleven begins with a digit. -/
theorem led_of_head {n : Number} {i : Nat} (hi : i ≤ 10) {t : List Byte}
    (h : n.text = UInt8.ofNat (48 + i) :: t) : n.Led ∧ i < 10 := by
  obtain ⟨hminus, hplus, hpoint, -, -, hten⟩ := char_facts i hi
  rw [Number.text] at h
  rcases n.sign_ok with hs | hs | hs <;> rw [hs] at h
  · cases hw : n.whole with
    | nil =>
      cases hf : n.fraction with
      | none => exact absurd (by rw [hw, hf]; rfl) n.some_digit
      | some f =>
        rw [hw, hf] at h
        exact absurd (List.cons.inj h).1.symm hpoint
    | cons b w =>
      have hb := n.digits.whole_digits b (by rw [hw]; simp)
      obtain ⟨t', ht'⟩ := decimalText_cons b w n.fraction []
      rw [List.nil_append, hw, ← List.append_nil (decimalText _ _), ht'] at h
      rw [(List.cons.inj h).1] at hb
      exact ⟨⟨hs, by simp [hw]⟩, hten hb⟩
  · exact absurd (List.cons.inj h).1.symm hminus
  · exact absurd (List.cons.inj h).1.symm hplus

theorem head_of_led {n : Number} (h : n.Led) :
    ∃ i < 10, ∃ t, n.text = UInt8.ofNat (48 + i) :: t := by
  obtain ⟨hsign, hwhole⟩ := h
  obtain ⟨b, w, hw⟩ := List.exists_cons_of_ne_nil hwhole
  obtain ⟨i, hi, rfl⟩ := exists_digit (n.digits.whole_digits b (by rw [hw]; simp))
  obtain ⟨t, ht⟩ := decimalText_cons (digit i) w n.fraction []
  refine ⟨i, hi, t, ?_⟩
  rw [List.append_nil] at ht
  rw [Number.text, hsign, hw, ht, List.nil_append]
  rfl

theorem blank_mem_text (d : Display) : blank ∈ d.text := by simp [Display.text]

/-- The line of a number that begins with a digit is cut in front of it. -/
theorem cut_number {d : Display} {n : Number} (hn : d.value = .number n) {i : Nat} (hi : i < 10)
    {t : List Byte} (ht : n.text = UInt8.ofNat (48 + i) :: t) :
    cut (lookfor i) d.text = some (d.label, t ++ d.further.elim [] (blank :: ·)) := by
  rw [Display.text, hn, Value.text, ht]
  exact cut_value (by omega) (d.no_value i hi) _

/-- Only the number itself follows a blank of its line. -/
theorem text_of_cut {d : Display} {n : Number} (hn : d.value = .number n) (hnone : d.further = none)
    {i : Nat} (hi : i < 10) {before after : List Byte}
    (h : cut (lookfor i) d.text = some (before, after)) :
    n.text = UInt8.ofNat (48 + i) :: after := by
  rw [Display.text, hn, Value.text, hnone, Option.elim_none, List.append_nil,
    cut_label (by omega) (d.no_value i hi), cut] at h
  split at h
  · next t ht =>
    rw [(List.cons.inj (strip_eq_some_iff.mp ht)).2, ← (Prod.mk.inj (Option.some.inj h)).2]
    rfl
  · rw [cut_none_of_blank (blank_not_mem_number n)] at h
    exact absurd h (by simp)

theorem char_inj : ∀ i < 10, ∀ j < 10, UInt8.ofNat (48 + i) = UInt8.ofNat (48 + j) → i = j := by
  decide

/-- A number is found if no smaller digit follows a blank of its line. -/
theorem getValue_at {d : Display} {n : Number} (hn : d.value = .number n) {i : Nat} (hi : i < 10)
    {t : List Byte} (ht : n.text = UInt8.ofNat (48 + i) :: t)
    (hbefore : ∀ j < i, cut (lookfor j) d.text = none) :
    getValue d.text = token (n.text ++ d.further.elim [] (blank :: ·)) := by
  have hcut := cut_number hn hi ht
  rcases getValue_cases d.text with ⟨k, before, after, hk, hfound, htoken⟩ | ⟨hnone, -⟩
  · obtain rfl : k = i := by
      rcases Nat.lt_trichotomy k i with hlt | heq | hlt
      · exact absurd ((hbefore k hlt).symm.trans hfound.split) (by simp)
      · exact heq
      · exact absurd ((hfound.first i hlt).symm.trans hcut) (by simp)
    obtain ⟨-, rfl⟩ := Prod.mk.inj (Option.some.inj (hfound.split.symm.trans hcut))
    rw [htoken, ht, List.cons_append]
  · rw [hnone i (by omega)] at hcut
    exact absurd hcut (by simp)

/-- At the end of a line four characters are kept. -/
theorem getValue_last {d : Display} {n : Number} (hn : d.value = .number n) (hled : n.Led)
    (hnone : d.further = none) : getValue d.text = n.text.take 4 := by
  obtain ⟨i, hi, t, ht⟩ := head_of_led hled
  have hbefore : ∀ j < i, cut (lookfor j) d.text = none := by
    intro j hj
    cases hc : cut (lookfor j) d.text with
    | none => rfl
    | some p =>
      have htext := ht.symm.trans (text_of_cut hn hnone (show j < 10 by omega) hc)
      have hij := char_inj i hi j (by omega) (List.cons.inj htext).1
      omega
  rw [getValue_at hn hi ht hbefore, hnone, Option.elim_none, List.append_nil, token,
    if_neg (blank_not_mem_number n)]

/-- The number is found behind its label. -/
theorem getValue_number (d : Display) {n : Number} (hn : d.value = .number n) :
    getValue d.text = n.text ↔ n.Led ∧ d.further = none ∧ n.text.length ≤ 4 := by
  have hblank := blank_not_mem_number n
  constructor
  · intro h
    rcases getValue_cases d.text with ⟨i, before, after, hi, hfound, htoken⟩ | ⟨-, htoken⟩
    · obtain ⟨t, ht⟩ := token_cons (char_ne_blank i hi).1 after
      have htext : n.text = UInt8.ofNat (48 + i) :: t := by rw [← h, htoken, ht]
      obtain ⟨hled, hlt⟩ := led_of_head hi htext
      have hcut := (cut_number hn hlt htext).symm.trans hfound.split
      obtain ⟨-, rfl⟩ := Prod.mk.inj (Option.some.inj hcut)
      rw [← List.cons_append, ← htext, h] at htoken
      cases hf : d.further with
      | none =>
        rw [getValue_last hn hled hf] at h
        exact ⟨hled, rfl, List.take_eq_self_iff _ |>.mp h⟩
      | some f =>
        rw [hf, Option.elim_some] at htoken
        exact absurd (htoken ▸ blank_mem_token (by simp)) hblank
    · exact absurd (h ▸ htoken ▸ blank_mem_token (blank_mem_text d)) hblank
  · rintro ⟨hled, hnone, hlen⟩
    rw [getValue_last hn hled hnone, List.take_eq_self_iff]
    exact hlen

/-- The two values of a number that is found. -/
theorem values_number {n : Number} (hled : n.Led) (hlen : n.text.length ≤ 4) :
    (∀ i : Int, n.value = i → toInt (strtol n.text 10) = i) ∧
      (strtod n.text).number = some n.value := by
  have htext : n.text = decimalText n.whole n.fraction ++ [] := by
    rw [Number.text, hled.1, List.nil_append, List.append_nil]
  have hvalue : n.value = places 10 n.whole (n.fraction.getD []) := by
    rw [Number.value, hled.1, if_neg (by simp), one_mul]
  constructor
  · intro i hi
    rw [hvalue] at hi
    have hwhole : n.whole.length ≤ 4 := by
      rw [htext] at hlen
      cases hf : n.fraction with
      | none => simpa [hf, decimalText] using hlen
      | some f =>
        simp only [hf, decimalText, List.append_nil, List.length_append] at hlen
        omega
    have hlt : digitsFrom 10 0 n.whole < (0 + 1) * 10^n.whole.length :=
      digitsFrom_lt (by decide) _ _
    have hpow : 10^n.whole.length ≤ 10^4 := Nat.pow_le_pow_right (by decide) hwhole
    rw [htext, strtol_decimal n.digits hled.2 ends_nil, clampLong_of_small (by omega),
      toInt_of_small (by omega), eq_of_places n.digits hi]
  · rw [htext, strtod_decimal n.digits hled.2 ends_nil, hvalue]

/-- What stands before the first blank of a line belongs to its label. -/
theorem mem_label {label rest : List Byte} {b : Byte}
    (h : b ∈ (label ++ blank :: rest).takeWhile (· != blank)) : b ∈ label := by
  induction label with
  | nil => exact absurd h (by simp)
  | cons c label ih =>
    rw [List.cons_append, List.takeWhile_cons] at h
    split at h
    · rcases List.mem_cons.mp h with rfl | h
      · exact List.mem_cons_self
      · exact List.mem_cons_of_mem c (ih h)
    · exact absurd h List.not_mem_nil

/-- No line gives one of the two words. -/
theorem getBoolValue_text (d : Display) : getBoolValue d.text = true := by
  have hwords : cstr (getValue d.text) ≠ bytes "NO" ∧ cstr (getValue d.text) ≠ bytes "OFF" := by
    rcases getValue_cases d.text with ⟨i, before, after, hi, -, htoken⟩ | ⟨-, htoken⟩
    · obtain ⟨t, ht⟩ := token_cons (char_ne_blank i hi).1 after
      obtain ⟨-, -, -, hN, hO, -⟩ := char_facts i hi
      have hcstr : cstr (UInt8.ofNat (48 + i) :: t) = UInt8.ofNat (48 + i) :: cstr t := by
        rw [cstr, List.takeWhile_cons, if_pos (by simpa using (char_ne_blank i hi).2), cstr]
      rw [htoken, ht, hcstr]
      exact ⟨fun he => hN (List.cons.inj he).1, fun he => hO (List.cons.inj he).1⟩
    · have hnul : NUL ∉ token d.text := by
        rw [token, if_pos (blank_mem_text d), List.mem_append]
        rintro (h | h)
        · exact d.no_nul (mem_label h)
        · exact absurd (List.mem_singleton.mp h) (by decide)
      have hmem := blank_mem_token (blank_mem_text d)
      rw [htoken, cstr_of_not_mem hnul]
      exact ⟨fun he => absurd (he ▸ hmem) (by decide), fun he => absurd (he ▸ hmem) (by decide)⟩
  rw [getBoolValue, beq_eq_false_iff_ne.mpr hwords.1, beq_eq_false_iff_ne.mpr hwords.2]
  rfl

/-- A line gives its value exactly if it is plain. -/
theorem extracted_iff (d : Display) : Extracted d ↔ Plain d := by
  unfold Extracted Plain
  cases hv : d.value with
  | number n =>
    dsimp only
    rw [getIntValue, getFloatValue]
    constructor
    · rintro ⟨htext, -⟩
      exact (getValue_number d hv).mp htext
    · intro h
      have htext := (getValue_number d hv).mpr h
      rw [htext, cstr_number]
      exact ⟨rfl, values_number h.1 h.2.2⟩
  | word w =>
    dsimp only
    rw [getBoolValue_text]
    simp

/-- Five digits at the end of a line. -/
def longReading : Display where
  label := bytes "Load amps AC"
  no_value := by decide
  no_nul := by decide
  value := .number ⟨[], bytes "12345", none, sign_nil,
    ⟨List.all_eq_true.mp (by decide), by simp⟩, by decide⟩
  further := none

/-- Four of the digits are kept. -/
theorem longReading_cut : ¬ ∀ d : Display, Extracted d := by
  intro h
  have htext := (h longReading).1
  exact absurd htext (by decide +kernel)

end PowerGuru.Devices.XantrexValues
