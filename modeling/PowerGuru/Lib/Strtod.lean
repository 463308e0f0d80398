import PowerGuru.Lib.Numeral

/-!
# `strtod`

The longest number at the front of a text counts, decimal, hexadecimal, infinite or not a
number; values are kept before they are rounded to a `double`.
-/
namespace PowerGuru.Lib.Strtod

open Bytes Strtol Numeral

def lower (b : Byte) : Byte := if 65 ≤ b && b ≤ 90 then b + 32 else b

/-- Digits of a base, with the optional point among them. -/
structure Scan where
  whole : List Byte
  fraction : List Byte
  rest : List Byte

def scan (base : Nat) (s : List Byte) : Scan :=
  let whole := s.takeWhile fun b => digitValue b < base
  let rest := s.dropWhile fun b => digitValue b < base
  if rest.head? = some point then
    ⟨whole, rest.tail.takeWhile fun b => digitValue b < base,
      rest.tail.dropWhile fun b => digitValue b < base⟩
  else ⟨whole, [], rest⟩

/-- What these digits stand for. -/
def places (base : Nat) (whole fraction : List Byte) : Rat :=
  digitsFrom base 0 (whole ++ fraction) / base^fraction.length

/-- The exponent behind its letter, zero if no digit is there. -/
def exponent (letter : Byte) (s : List Byte) : Int :=
  if s.head?.map lower = some letter then
    if s.tail.head? = some minus then -(digitsFrom 10 0 s.tail.tail)
    else if s.tail.head? = some plus then digitsFrom 10 0 s.tail.tail
    else digitsFrom 10 0 s.tail
  else 0

theorem zero_nonneg : (0 : Rat) ≤ 0 := le_rfl

theorem places_nonneg (base : Nat) (whole fraction : List Byte) :
    0 ≤ places base whole fraction := by
  unfold places
  positivity

theorem scaled_nonneg (base : Nat) (whole fraction : List Byte) (radix : Nat) (e : Int) :
    0 ≤ places base whole fraction * (radix : Rat)^e :=
  mul_nonneg (places_nonneg base whole fraction) (zpow_nonneg (Nat.cast_nonneg radix) e)

/-- The number that was scanned; without a digit nothing is converted. -/
def Scan.convert (r : Scan) (negative : Bool) (base radix : Nat) (letter : Byte) : CFloat :=
  if r.whole ++ r.fraction = [] then .finite false 0 zero_nonneg
  else .finite negative (places base r.whole r.fraction * (radix : Rat)^exponent letter r.rest)
    (scaled_nonneg base r.whole r.fraction radix _)

/-- `0x` counts as a prefix only when a hexadecimal digit follows, perhaps behind a point. -/
def hexFloat (s : List Byte) : Bool :=
  s[0]? == some 48 && s[1]?.map lower == some 120 &&
    (match s[2]? with
     | some d => digitValue d < 16 ||
        (d == point && (match s[3]? with | some e => decide (digitValue e < 16) | none => false))
     | none => false)

def strtodUnsigned (negative : Bool) (s : List Byte) : CFloat :=
  if (bytes "inf").isPrefixOf (s.map lower) then .infinite negative
  else if (bytes "nan").isPrefixOf (s.map lower) then .nan negative
  else if hexFloat s then (scan 16 (s.drop 2)).convert negative 16 2 112
  else (scan 10 s).convert negative 10 10 101

def strtod (s : List Byte) : CFloat :=
  let s := s.dropWhile isSpace
  if s.head? = some minus then strtodUnsigned true s.tail
  else if s.head? = some plus then strtodUnsigned false s.tail
  else strtodUnsigned false s

/-! ## Plain decimals -/

/-- Nothing but white space stands at the front. -/
def Ends (rest : List Byte) : Prop := ∀ b ∈ rest.head?, isSpace b = true

theorem ends_nil : Ends [] := by simp [Ends]

theorem ends_space (rest : List Byte) : Ends (32 :: rest) := by
  intro b hb
  obtain rfl : 32 = b := by simpa using hb
  decide

/-- Digits with an optional fraction. -/
def decimalText (whole : List Byte) : Option (List Byte) → List Byte
  | none => whole
  | some fraction => whole ++ point :: fraction

/-- Plain digits, and the digits behind the point if there is one. -/
structure Digits (whole : List Byte) (fraction : Option (List Byte)) : Prop where
  whole_digits : ∀ b ∈ whole, isDigit b = true
  fraction_digits : ∀ f ∈ fraction, ∀ b ∈ f, isDigit b = true

theorem Digits.all {whole : List Byte} {fraction : Option (List Byte)} (h : Digits whole fraction) :
    ∀ b ∈ whole ++ fraction.getD [], isDigit b = true := by
  intro b hb
  rcases List.mem_append.mp hb with hb | hb
  · exact h.whole_digits b hb
  · cases fraction with
    | none => exact absurd hb List.not_mem_nil
    | some f => exact h.fraction_digits f rfl b hb

theorem exists_digit {b : Byte} (h : isDigit b = true) : ∃ d < 10, b = digit d := by
  simp only [isDigit, Bool.and_eq_true, decide_eq_true_eq, UInt8.le_iff_toNat_le] at h
  change 48 ≤ b.toNat ∧ b.toNat ≤ 57 at h
  refine ⟨b.toNat - 48, by omega, ?_⟩
  rw [digit, Nat.add_sub_cancel' h.1, UInt8.ofNat_toNat]

/-- What a digit is not. -/
structure DigitByte (b : Byte) : Prop where
  value : digitValue b < 10
  not_space : isSpace b = false
  ne_minus : b ≠ minus
  ne_plus : b ≠ plus
  not_i : lower b ≠ 105
  not_n : lower b ≠ 110
  not_x : lower b ≠ 120

theorem digitByte {b : Byte} (h : isDigit b = true) : DigitByte b := by
  have hall : ∀ d < 10, digitValue (digit d) < 10 ∧ isSpace (digit d) = false ∧
      digit d ≠ minus ∧ digit d ≠ plus ∧ lower (digit d) ≠ 105 ∧ lower (digit d) ≠ 110 ∧
      lower (digit d) ≠ 120 := by decide
  obtain ⟨d, hd, rfl⟩ := exists_digit h
  obtain ⟨value, space, hminus, hplus, hi, hn, hx⟩ := hall d hd
  exact ⟨value, space, hminus, hplus, hi, hn, hx⟩

/-- Neither white space nor a sign is passed over in front of a digit. -/
theorem unsigned_digit {d : Byte} (h : isDigit d = true) (t : List Byte) :
    (d :: t).dropWhile isSpace = d :: t ∧ (d :: t).head? ≠ some minus ∧
      (d :: t).head? ≠ some plus := by
  have hd := digitByte h
  refine ⟨List.dropWhile_cons_of_neg (by simp [hd.not_space]), ?_, ?_⟩
  · exact fun he => hd.ne_minus (Option.some.inj he)
  · exact fun he => hd.ne_plus (Option.some.inj he)

theorem isSpace_cases {b : Byte} (h : isSpace b = true) :
    b = 32 ∨ b = 9 ∨ b = 10 ∨ b = 11 ∨ b = 12 ∨ b = 13 := by
  simp only [isSpace, Bool.or_eq_true, beq_iff_eq, Bool.and_eq_true, decide_eq_true_eq,
    UInt8.le_iff_toNat_le, ← UInt8.toNat_inj] at h ⊢
  change b.toNat = 32 ∨ 9 ≤ b.toNat ∧ b.toNat ≤ 13 at h
  change b.toNat = 32 ∨ b.toNat = 9 ∨ b.toNat = 10 ∨ b.toNat = 11 ∨ b.toNat = 12 ∨ b.toNat = 13
  omega

/-- What white space is not. -/
structure SpaceByte (b : Byte) : Prop where
  value : ¬ digitValue b < 10
  ne_point : b ≠ point
  not_e : lower b ≠ 101
  not_x : lower b ≠ 120

theorem spaceByte {b : Byte} (h : isSpace b = true) : SpaceByte b := by
  rcases isSpace_cases h with rfl | rfl | rfl | rfl | rfl | rfl <;>
    exact ⟨by decide, by decide, by decide, by decide⟩

/-- The bytes with a property, up to the first without it. -/
theorem span_append {p : Byte → Bool} {s t : List Byte} (hs : ∀ b ∈ s, p b = true)
    (ht : ∀ b ∈ t.head?, p b = false) :
    (s ++ t).takeWhile p = s ∧ (s ++ t).dropWhile p = t := by
  rw [List.takeWhile_append_of_pos hs, List.dropWhile_append_of_pos hs]
  cases t with
  | nil => simp
  | cons b t => simp [ht b rfl]

theorem scan_decimal {whole : List Byte} {fraction : Option (List Byte)} {rest : List Byte}
    (h : Digits whole fraction) (hr : Ends rest) :
    scan 10 (decimalText whole fraction ++ rest) = ⟨whole, fraction.getD [], rest⟩ := by
  have hdigits : ∀ {s : List Byte}, (∀ b ∈ s, isDigit b = true) →
      ∀ b ∈ s, decide (digitValue b < 10) = true :=
    fun hs b hb => decide_eq_true (digitByte (hs b hb)).value
  have hrest : ∀ b ∈ rest.head?, decide (digitValue b < 10) = false :=
    fun b hb => decide_eq_false (spaceByte (hr b hb)).value
  cases fraction with
  | none =>
    obtain ⟨htake, hdrop⟩ := span_append (hdigits h.whole_digits) hrest
    have hpoint : rest.head? ≠ some point := fun he => (spaceByte (hr _ he)).ne_point rfl
    rw [decimalText, scan]
    rw [htake, hdrop, if_neg hpoint, Option.getD_none]
  | some f =>
    have hpoint : ∀ b ∈ (point :: (f ++ rest)).head?, decide (digitValue b < 10) = false := by
      intro b hb
      obtain rfl : point = b := by simpa using hb
      decide
    obtain ⟨htake, hdrop⟩ := span_append (hdigits h.whole_digits) hpoint
    obtain ⟨hftake, hfdrop⟩ := span_append (hdigits (h.fraction_digits f rfl)) hrest
    rw [decimalText, List.append_assoc, List.cons_append, scan]
    rw [htake, hdrop, List.head?_cons, if_pos rfl, List.tail_cons, hftake, hfdrop,
      Option.getD_some]

theorem decimalText_cons (d : Byte) (w : List Byte) (fraction : Option (List Byte))
    (rest : List Byte) : ∃ t, decimalText (d :: w) fraction ++ rest = d :: t := by
  cases fraction with
  | none => exact ⟨w ++ rest, rfl⟩
  | some f => exact ⟨(w ++ point :: f) ++ rest, rfl⟩

/-- No `x` stands behind the first digit. -/
theorem hexFloat_decimal {whole : List Byte} {fraction : Option (List Byte)} {rest : List Byte}
    (h : Digits whole fraction) (hne : whole ≠ []) (hr : Ends rest) :
    hexFloat (decimalText whole fraction ++ rest) = false := by
  have hsecond : ∀ b ∈ (decimalText whole fraction ++ rest)[1]?, lower b ≠ 120 := by
    obtain ⟨d, w, rfl⟩ := List.exists_cons_of_ne_nil hne
    intro b hb
    cases w with
    | nil =>
      cases fraction with
      | none =>
        have hhead : b ∈ rest.head? := by
          simpa [decimalText, List.head?_eq_getElem?] using hb
        exact (spaceByte (hr b hhead)).not_x
      | some f =>
        obtain rfl : point = b := by simpa [decimalText] using hb
        decide
    | cons e w =>
      obtain rfl : e = b := by cases fraction <;> simpa [decimalText] using hb
      exact (digitByte (h.whole_digits e (by simp))).not_x
  cases h1 : (decimalText whole fraction ++ rest)[1]? with
  | none => simp [hexFloat, h1]
  | some b => simp [hexFloat, h1, hsecond b h1]

theorem convert_decimal (negative : Bool) {whole : List Byte} {fraction : Option (List Byte)}
    {rest : List Byte} (h : Digits whole fraction) (hne : whole ≠ []) (hr : Ends rest) :
    (scan 10 (decimalText whole fraction ++ rest)).convert negative 10 10 101 =
      .finite negative (places 10 whole (fraction.getD [])) (places_nonneg _ _ _) := by
  have hexp : exponent 101 rest = 0 := by
    apply if_neg
    intro he
    obtain ⟨b, hb, hlower⟩ := Option.map_eq_some_iff.mp he
    exact (spaceByte (hr b hb)).not_e hlower
  rw [scan_decimal h hr, Scan.convert, if_neg (by simp [hne])]
  simp [hexp]

/-- Digits are neither a word nor hexadecimal. -/
theorem strtodUnsigned_decimal (negative : Bool) {whole : List Byte}
    {fraction : Option (List Byte)} {rest : List Byte} (h : Digits whole fraction)
    (hne : whole ≠ []) (hr : Ends rest) :
    strtodUnsigned negative (decimalText whole fraction ++ rest) =
      .finite negative (places 10 whole (fraction.getD [])) (places_nonneg _ _ _) := by
  have hhex := hexFloat_decimal h hne hr
  have hconvert := convert_decimal negative h hne hr
  obtain ⟨d, w, rfl⟩ := List.exists_cons_of_ne_nil hne
  have hd := digitByte (h.whole_digits d List.mem_cons_self)
  obtain ⟨t, ht⟩ := decimalText_cons d w fraction rest
  have hinf : (bytes "inf").isPrefixOf ((d :: t).map lower) = false := by
    rw [show bytes "inf" = 105 :: bytes "nf" from rfl, List.map_cons, List.isPrefixOf,
      beq_eq_false_iff_ne.mpr hd.not_i.symm, Bool.false_and]
  have hnan : (bytes "nan").isPrefixOf ((d :: t).map lower) = false := by
    rw [show bytes "nan" = 110 :: bytes "an" from rfl, List.map_cons, List.isPrefixOf,
      beq_eq_false_iff_ne.mpr hd.not_n.symm, Bool.false_and]
  rw [ht] at hhex hconvert ⊢
  rw [strtodUnsigned, hinf, hnan, hhex]
  exact hconvert

/-- A number that begins with a digit is read as it is written. -/
theorem strtod_decimal {whole : List Byte} {fraction : Option (List Byte)} {rest : List Byte}
    (h : Digits whole fraction) (hne : whole ≠ []) (hr : Ends rest) :
    (strtod (decimalText whole fraction ++ rest)).number =
      some (places 10 whole (fraction.getD [])) := by
  have hunsigned := strtodUnsigned_decimal false h hne hr
  obtain ⟨d, w, rfl⟩ := List.exists_cons_of_ne_nil hne
  obtain ⟨t, ht⟩ := decimalText_cons d w fraction rest
  obtain ⟨hdrop, hm, hp⟩ := unsigned_digit (h.whole_digits d List.mem_cons_self) t
  rw [ht] at hunsigned ⊢
  rw [strtod, hdrop, if_neg hm, if_neg hp, hunsigned]
  rfl

theorem digitsFrom_append {s : List Byte} (hs : ∀ b ∈ s, isDigit b = true) (t : List Byte)
    (acc : Nat) : digitsFrom 10 acc (s ++ t) = digitsFrom 10 (digitsFrom 10 acc s) t := by
  induction s generalizing acc with
  | nil => rfl
  | cons b s ih =>
    have hb := (digitByte (hs b List.mem_cons_self)).value
    rw [List.cons_append, digitsFrom, if_pos hb, digitsFrom, if_pos hb,
      ih fun c hc => hs c (List.mem_cons_of_mem b hc)]

/-- `strtol` reads what stands in front of the point. -/
theorem strtol_decimal {whole : List Byte} {fraction : Option (List Byte)} {rest : List Byte}
    (h : Digits whole fraction) (hne : whole ≠ []) (hr : Ends rest) :
    strtol (decimalText whole fraction ++ rest) 10 = clampLong (digitsFrom 10 0 whole) := by
  have hends : ∀ {t : List Byte} (acc : Nat), (∀ b ∈ t.head?, ¬ digitValue b < 10) →
      digitsFrom 10 acc t = acc := by
    intro t acc ht
    cases t with
    | nil => rfl
    | cons b t => rw [digitsFrom, if_neg (ht b rfl)]
  have hdigits : digitsFrom 10 0 (decimalText whole fraction ++ rest) = digitsFrom 10 0 whole := by
    cases fraction with
    | none =>
      rw [decimalText, digitsFrom_append h.whole_digits]
      exact hends _ fun b hb => (spaceByte (hr b hb)).value
    | some f =>
      rw [decimalText, List.append_assoc, digitsFrom_append h.whole_digits]
      apply hends
      intro b hb
      obtain rfl : point = b := by simpa using hb
      decide
  obtain ⟨d, w, rfl⟩ := List.exists_cons_of_ne_nil hne
  obtain ⟨t, ht⟩ := decimalText_cons d w fraction rest
  obtain ⟨hdrop, hm, hp⟩ := unsigned_digit (h.whole_digits d List.mem_cons_self) t
  rw [ht] at hdigits ⊢
  rw [strtol, hdrop, if_neg (show (d :: t).head? ≠ some 45 from hm),
    if_neg (show (d :: t).head? ≠ some 43 from hp), magnitude, if_neg (by simp),
    if_neg (by decide), hdigits]

theorem digitsFrom_acc {s : List Byte} (hs : ∀ b ∈ s, isDigit b = true) (acc : Nat) :
    digitsFrom 10 acc s = acc * 10^s.length + digitsFrom 10 0 s := by
  induction s generalizing acc with
  | nil => simp [digitsFrom]
  | cons b s ih =>
    have hb := (digitByte (hs b List.mem_cons_self)).value
    have htail := ih fun c hc => hs c (List.mem_cons_of_mem b hc)
    rw [digitsFrom, if_pos hb, htail, digitsFrom, if_pos hb, htail (0 * 10 + digitValue b),
      List.length_cons]
    ring

theorem digitsFrom_eq_zero {s t : List Byte} (h : ∀ b ∈ s ++ t, isDigit b = true)
    (hz : digitsFrom 10 0 (s ++ t) = 0) : digitsFrom 10 0 s = 0 := by
  rw [digitsFrom_append fun b hb => h b (List.mem_append_left t hb),
    digitsFrom_acc fun b hb => h b (List.mem_append_right s hb)] at hz
  have hpow : 0 < 10^t.length := Nat.pow_pos (by decide)
  by_contra hne
  have hmul := Nat.mul_pos (Nat.pos_of_ne_zero hne) hpow
  omega

/-- The digits in front of the point make no more than the number. -/
theorem whole_le_places {whole : List Byte} {fraction : Option (List Byte)}
    (h : Digits whole fraction) :
    (digitsFrom 10 0 whole : Rat) ≤ places 10 whole (fraction.getD []) := by
  have hfraction : ∀ b ∈ fraction.getD [], isDigit b = true :=
    fun b hb => h.all b (List.mem_append_right _ hb)
  have hpos : (0 : Rat) < ((10 : Nat) : Rat)^(fraction.getD []).length := by positivity
  rw [places, le_div_iff₀ hpos, digitsFrom_append h.whole_digits, digitsFrom_acc hfraction]
  push_cast
  have hnonneg : (0 : Rat) ≤ digitsFrom 10 0 (fraction.getD []) := Nat.cast_nonneg _
  linarith

/-- A whole number stands in front of the point. -/
theorem eq_of_places {whole : List Byte} {fraction : Option (List Byte)}
    (h : Digits whole fraction) {i : Int} (hi : places 10 whole (fraction.getD []) = i) :
    i = digitsFrom 10 0 whole := by
  have hfraction : ∀ b ∈ fraction.getD [], isDigit b = true :=
    fun b hb => h.all b (List.mem_append_right _ hb)
  generalize fraction.getD [] = f at *
  have hlt : digitsFrom 10 0 f < (0 + 1) * 10^f.length := digitsFrom_lt (by decide) 0 f
  have hpos : (10 : Rat)^f.length ≠ 0 := by positivity
  rw [places, digitsFrom_append h.whole_digits, digitsFrom_acc hfraction,
    Nat.cast_ofNat, div_eq_iff hpos] at hi
  have hint : ((digitsFrom 10 0 whole * 10^f.length + digitsFrom 10 0 f : Nat) : Int) =
      i * 10^f.length := by exact_mod_cast hi
  rw [Nat.cast_add, Nat.cast_mul, Nat.cast_pow, Nat.cast_ofNat] at hint
  have hltInt : (digitsFrom 10 0 f : Int) < 10^f.length := by
    rw [Nat.zero_add, one_mul] at hlt
    exact_mod_cast hlt
  have hp : (0 : Int) < 10^f.length := by positivity
  have hdvd : (digitsFrom 10 0 f : Int) = (i - digitsFrom 10 0 whole) * 10^f.length := by linarith
  have hzero : i - digitsFrom 10 0 whole = 0 := by
    by_contra hne
    rcases lt_or_gt_of_ne hne with hneg | hgt
    · nlinarith [Int.natCast_nonneg (digitsFrom 10 0 f)]
    · nlinarith
  omega

end PowerGuru.Lib.Strtod
