import Mathlib.Algebra.Order.Floor.Semifield
import Mathlib.Data.Int.Log
import PowerGuru.Lib.Strtod

/-!
# `std::stof`

A `float` has 24 binary places and none behind the 149th. `strtof` rounds to the nearest one,
to the even one of two, and `stof` throws for a number out of range.
-/
namespace PowerGuru.Lib.Binary32

open Bytes Strtol Numeral Strtod

/-- The exponent of the last place of the floats around a positive number. -/
def lastPlace (q : Rat) : Int := max (Int.log 2 q - 23) (-149)

/-- The nearest float, without a bound on the exponent. -/
def nearest (q : Rat) : Rat := roundHalfEven (q / 2^lastPlace q) * 2^lastPlace q

/-- Neither too large, nor so small that places are lost. -/
def InRange (q : Rat) : Prop :=
  nearest q < 2^128 ∧ (nearest q = q ∨ (2 : Rat)^(-126 : Int) ≤ nearest q)

instance (q : Rat) : Decidable (InRange q) := inferInstanceAs (Decidable (_ ∧ _))

theorem nearest_nonneg (q : Rat) : 0 ≤ nearest q :=
  mul_nonneg (Nat.cast_nonneg _) (zpow_nonneg (by norm_num) _)

/-! ## Natural numbers -/

theorem floor_le_roundHalfEven (q : Rat) : ⌊q⌋₊ ≤ roundHalfEven q := by
  unfold roundHalfEven
  dsimp only
  split_ifs <;> omega

theorem roundHalfEven_le_floor_succ (q : Rat) : roundHalfEven q ≤ ⌊q⌋₊ + 1 := by
  unfold roundHalfEven
  dsimp only
  split_ifs <;> omega

/-- From halfway on, a number is rounded up to the even one. -/
theorem even_le_roundHalfEven {m : Nat} (hm : m % 2 = 0) {q : Rat} (hq : 0 ≤ q) :
    m ≤ roundHalfEven q ↔ (m : Rat) - 1/2 ≤ q := by
  have hlow := Nat.floor_le hq
  have hhigh := Nat.lt_floor_add_one q
  generalize hf : ⌊q⌋₊ = f at hlow hhigh
  have hround : roundHalfEven q = if q - f < 1/2 then f else if 1/2 < q - f then f + 1
      else if f % 2 = 0 then f else f + 1 := by rw [roundHalfEven, hf]
  rw [hround]
  rcases Nat.lt_trichotomy m (f + 1) with hlt | heq | hgt
  · have hle : (m : Rat) ≤ f := by exact_mod_cast Nat.lt_succ_iff.mp hlt
    refine iff_of_true ?_ (by linarith)
    split_ifs <;> omega
  · have hcast : (m : Rat) = f + 1 := by exact_mod_cast heq
    rw [hcast]
    split_ifs with h1 h2 h3
    · exact iff_of_false (by omega) (by linarith)
    · exact iff_of_true (by omega) (by linarith)
    · omega
    · exact iff_of_true (by omega) (by linarith)
  · have hle : (f : Rat) + 1 + 1 ≤ m := by exact_mod_cast hgt
    refine iff_of_false ?_ (by linarith)
    split_ifs <;> omega

theorem lastPlace_natCast {n : Nat} : lastPlace n = (Nat.log 2 n : Int) - 23 := by
  rw [lastPlace, Int.log_natCast]
  omega

/-- Up to 24 places nothing is rounded. -/
theorem nearest_small {n : Nat} (h : n < 2^24) : nearest n = n := by
  have hlog : Nat.log 2 n ≤ 23 := by
    rcases Nat.eq_zero_or_pos n with rfl | hpos
    · simp
    · have := Nat.log_lt_of_lt_pow (Nat.pos_iff_ne_zero.mp hpos) h
      omega
  have hplace : lastPlace n = -((23 - Nat.log 2 n : Nat) : Int) := by
    rw [lastPlace_natCast]
    omega
  have hpow : (2 : Rat)^(23 - Nat.log 2 n) ≠ 0 := by positivity
  have hwhole : (n : Rat) / 2^(-((23 - Nat.log 2 n : Nat) : Int)) =
      ((n * 2^(23 - Nat.log 2 n) : Nat) : Rat) := by
    rw [zpow_neg, zpow_natCast, div_inv_eq_mul]
    push_cast
    rfl
  rw [nearest, hplace, hwhole, roundHalfEven_natCast, zpow_neg, zpow_natCast]
  push_cast
  rw [mul_assoc, mul_inv_cancel₀ hpow, mul_one]

/-- A number with `k` places too many. -/
structure Large (n k : Nat) : Prop where
  lower : 2^(23 + k) ≤ n
  upper : n < 2^(24 + k)
  floor : ⌊(n : Rat) / 2^k⌋₊ = n / 2^k
  nearest : nearest n = roundHalfEven ((n : Rat) / 2^k) * 2^k

theorem exists_large {n : Nat} (h : 2^24 ≤ n) : ∃ k, Large n k := by
  have hlog : 24 ≤ Nat.log 2 n := (Nat.le_log_iff_pow_le (by decide) (by omega)).mpr h
  obtain ⟨k, hk⟩ := Nat.exists_eq_add_of_le (show 23 ≤ Nat.log 2 n by omega)
  have hplace : lastPlace n = (k : Int) := by
    rw [lastPlace_natCast]
    omega
  have hfloor := Nat.floor_div_eq_div (K := Rat) n (2^k)
  rw [Nat.cast_pow, Nat.cast_ofNat] at hfloor
  refine ⟨k, ?_, ?_, hfloor, by rw [Binary32.nearest, hplace, zpow_natCast]⟩
  · rw [← hk]
    exact Nat.pow_log_le_self 2 (by omega)
  · rw [show 24 + k = Nat.log 2 n + 1 by omega]
    exact Nat.lt_pow_succ_log_self (by decide) n

theorem Large.le_round {n k : Nat} (h : Large n k) : 2^23 ≤ roundHalfEven ((n : Rat) / 2^k) := by
  have hdiv : 2^23 ≤ n / 2^k := by
    rw [Nat.le_div_iff_mul_le (by positivity), ← Nat.pow_add]
    exact h.lower
  exact (h.floor ▸ hdiv).trans (floor_le_roundHalfEven _)

theorem Large.round_le {n k : Nat} (h : Large n k) : roundHalfEven ((n : Rat) / 2^k) ≤ 2^24 := by
  have hdiv : n / 2^k < 2^24 := by
    apply Nat.div_lt_of_lt_mul
    rw [← Nat.pow_add, Nat.add_comm]
    exact h.upper
  have hround := roundHalfEven_le_floor_succ ((n : Rat) / 2^k)
  rw [h.floor] at hround
  omega

/-- 24 places and zeros behind them. -/
def Places24 (n : Nat) : Prop := ∃ m k, m < 2^24 ∧ n = m * 2^k

theorem nearest_eq_iff (n : Nat) : nearest n = n ↔ Places24 n := by
  rcases Nat.lt_or_ge n (2^24) with hlt | hge
  · exact iff_of_true (nearest_small hlt) ⟨n, 0, hlt, by simp⟩
  · obtain ⟨k, hlarge⟩ := exists_large hge
    have hpow : (2 : Rat)^k ≠ 0 := by positivity
    rw [hlarge.nearest]
    constructor
    · intro h
      have hnat : roundHalfEven ((n : Rat) / 2^k) * 2^k = n := by exact_mod_cast h
      refine ⟨_, k, ?_, hnat.symm⟩
      have hupper := hlarge.upper
      rw [← hnat, Nat.pow_add] at hupper
      exact Nat.lt_of_mul_lt_mul_right hupper
    · rintro ⟨m, j, hm, rfl⟩
      have hle : k ≤ j := by
        have hlt : 2^(23 + k) < 2^(24 + j) := by
          apply hlarge.lower.trans_lt
          rw [Nat.pow_add]
          exact Nat.mul_lt_mul_of_pos_right hm (by positivity)
        have := (Nat.pow_lt_pow_iff_right (by decide)).mp hlt
        omega
      obtain ⟨i, rfl⟩ := Nat.exists_eq_add_of_le hle
      have hwhole : ((m * 2^(k + i) : Nat) : Rat) / 2^k = ((m * 2^i : Nat) : Rat) := by
        rw [div_eq_iff hpow]
        push_cast
        ring
      rw [hwhole, roundHalfEven_natCast]
      push_cast
      ring

/-- From here on a number is rounded to one that is too large. -/
def limit : Nat := 2^128 - 2^103

theorem nearest_lt_iff (n : Nat) : nearest n < 2^128 ↔ n < limit := by
  rcases Nat.lt_or_ge n (2^24) with hlt | hge
  · rw [nearest_small hlt]
    have hsmall : (n : Rat) < 2^24 := by exact_mod_cast hlt
    exact iff_of_true (hsmall.trans (by norm_num)) (hlt.trans (by decide))
  obtain ⟨k, hlarge⟩ := exists_large hge
  have hnat : nearest n < 2^128 ↔ roundHalfEven ((n : Rat) / 2^k) * 2^k < 2^128 := by
    rw [hlarge.nearest]
    exact_mod_cast Iff.rfl
  rw [hnat]
  rcases Nat.lt_trichotomy k 104 with hlt | rfl | hgt
  · refine iff_of_true ?_ ?_
    · calc roundHalfEven ((n : Rat) / 2^k) * 2^k ≤ 2^24 * 2^k :=
          Nat.mul_le_mul_right _ hlarge.round_le
        _ ≤ 2^24 * 2^103 := Nat.mul_le_mul_left _ (Nat.pow_le_pow_right (by decide) (by omega))
        _ < 2^128 := by decide
    · calc n < 2^(24 + k) := hlarge.upper
        _ ≤ 2^127 := Nat.pow_le_pow_right (by decide) (by omega)
        _ < limit := by decide
  · have heven := even_le_roundHalfEven (m := 2^24) (by decide) (q := (n : Rat) / 2^104)
      (by positivity)
    have hhalf : (((2^24 : Nat) : Rat) - 1/2 ≤ (n : Rat) / 2^104) ↔ limit ≤ n := by
      rw [le_div_iff₀ (by positivity), limit, ← Nat.cast_le (α := Rat)]
      norm_num
    rw [← not_le, ← not_le, ← hhalf, ← heven]
    omega
  · refine iff_of_false (Nat.not_lt.mpr ?_) (Nat.not_lt.mpr ?_)
    · calc 2^128 = 2^23 * 2^105 := by decide
        _ ≤ 2^23 * 2^k := Nat.mul_le_mul_left _ (Nat.pow_le_pow_right (by decide) (by omega))
        _ ≤ roundHalfEven ((n : Rat) / 2^k) * 2^k := Nat.mul_le_mul_right _ hlarge.le_round
    · calc limit ≤ 2^128 := by decide
        _ ≤ 2^(23 + k) := Nat.pow_le_pow_right (by decide) (by omega)
        _ ≤ n := hlarge.lower

/-- A natural number is out of range only if it is too large. -/
theorem inRange_natCast (n : Nat) : InRange n ↔ n < limit := by
  rw [InRange, nearest_lt_iff, and_iff_left_iff_imp]
  intro _
  rcases Nat.lt_or_ge n (2^24) with hlt | hge
  · exact .inl (nearest_small hlt)
  · obtain ⟨k, hlarge⟩ := exists_large hge
    have hone : 1 ≤ roundHalfEven ((n : Rat) / 2^k) * 2^k :=
      Nat.mul_pos (lt_of_lt_of_le (by decide) hlarge.le_round) (by positivity)
    right
    calc (2 : Rat)^(-126 : Int) ≤ 1 := by norm_num
      _ ≤ ((roundHalfEven ((n : Rat) / 2^k) * 2^k : Nat) : Rat) := by exact_mod_cast hone
      _ = nearest n := by rw [hlarge.nearest]; push_cast; rfl

/-- There is something to convert at the front. -/
def converts (s : List Byte) : Bool :=
  let s := s.dropWhile isSpace
  let s := if s.head? = some minus ∨ s.head? = some plus then s.tail else s
  (bytes "inf").isPrefixOf (s.map lower) || (bytes "nan").isPrefixOf (s.map lower) ||
    hexFloat s || !((scan 10 s).whole ++ (scan 10 s).fraction).isEmpty

/-- What `stof` makes of the number that was read; out of range it throws. -/
def toFloat : CFloat → Option CFloat
  | .finite negative magnitude _ =>
      if InRange magnitude then some (.finite negative (nearest magnitude) (nearest_nonneg _))
      else none
  | x => some x

def stof (s : List Byte) : Option CFloat :=
  let s := cstr s
  if converts s then toFloat (strtod s) else none

theorem stof_nil : stof [] = none := by
  have hconverts : converts (cstr []) = false := by decide
  simp only [stof, hconverts]
  rfl

/-! ## Integers -/

def signed (negative : Bool) (digits : List Byte) : List Byte :=
  (if negative then [minus] else []) ++ digits

theorem digits_cons {digits : List Byte} (hd : ∀ b ∈ digits, isDigit b = true)
    (hne : digits ≠ []) (rest : List Byte) :
    ∃ d t, isDigit d = true ∧ digits ++ rest = d :: t := by
  obtain ⟨d, w, rfl⟩ := List.exists_cons_of_ne_nil hne
  exact ⟨d, w ++ rest, hd d List.mem_cons_self, rfl⟩

theorem converts_signed (negative : Bool) {digits rest : List Byte}
    (hd : ∀ b ∈ digits, isDigit b = true) (hne : digits ≠ []) (hr : Ends rest) :
    converts (signed negative (digits ++ rest)) = true := by
  have hwhole : Digits digits none := ⟨hd, by simp⟩
  have hscan := scan_decimal hwhole hr
  rw [decimalText] at hscan
  have hdigits : (!((scan 10 (digits ++ rest)).whole ++
      (scan 10 (digits ++ rest)).fraction).isEmpty) = true := by
    rw [hscan]
    simpa using hne
  obtain ⟨d, t, hdigit, ht⟩ := digits_cons hd hne rest
  obtain ⟨hdrop, hm, hp⟩ := unsigned_digit hdigit t
  rw [ht] at hdigits ⊢
  cases negative with
  | false =>
    have hsign : ¬ ((d :: t).head? = some minus ∨ (d :: t).head? = some plus) := not_or.mpr ⟨hm, hp⟩
    simp only [signed, Bool.false_eq_true, if_false, List.nil_append, converts, hdrop, if_neg hsign,
      hdigits, Bool.or_true]
  | true =>
    have hspace : (minus :: d :: t).dropWhile isSpace = minus :: d :: t := by
      rw [List.dropWhile_cons_of_neg (by decide)]
    simp only [signed, if_true, List.singleton_append, converts, hspace, List.head?_cons, true_or,
      List.tail_cons, hdigits, Bool.or_true]

theorem strtod_signed (negative : Bool) {digits rest : List Byte}
    (hd : ∀ b ∈ digits, isDigit b = true) (hne : digits ≠ []) (hr : Ends rest) :
    strtod (signed negative (digits ++ rest)) =
      .finite negative (digitsFrom 10 0 digits : Nat) Rat.natCast_nonneg := by
  have hplaces : places 10 digits [] = (digitsFrom 10 0 digits : Nat) := by
    simp [places]
  have hwhole : Digits digits none := ⟨hd, by simp⟩
  have hunsigned := strtodUnsigned_decimal negative hwhole hne hr
  rw [decimalText, Option.getD_none] at hunsigned
  simp only [hplaces] at hunsigned
  obtain ⟨d, t, hdigit, ht⟩ := digits_cons hd hne rest
  obtain ⟨hdrop, hm, hp⟩ := unsigned_digit hdigit t
  rw [ht] at hunsigned ⊢
  cases negative with
  | false =>
    rw [signed, if_neg (by decide), List.nil_append, strtod, hdrop, if_neg hm, if_neg hp, hunsigned]
  | true =>
    rw [signed, if_pos rfl, List.singleton_append, strtod,
      List.dropWhile_cons_of_neg (by decide), List.head?_cons, if_pos rfl, List.tail_cons,
      hunsigned]

/-- An integer is rounded, or is too large. -/
theorem stof_signed (negative : Bool) {digits rest : List Byte}
    (hd : ∀ b ∈ digits, isDigit b = true) (hne : digits ≠ []) (hr : Ends rest) (hnul : NUL ∉ rest) :
    stof (signed negative (digits ++ rest)) =
      if digitsFrom 10 0 digits < limit then
        some (.finite negative (nearest (digitsFrom 10 0 digits : Nat)) (nearest_nonneg _))
      else none := by
  have hplain : NUL ∉ signed negative (digits ++ rest) := by
    have hdigits : NUL ∉ digits := fun hmem => absurd (hd NUL hmem) (by decide)
    cases negative <;> simp [signed, hdigits, hnul, show NUL ≠ minus by decide]
  simp only [stof, cstr_of_not_mem hplain, converts_signed negative hd hne hr,
    strtod_signed negative hd hne hr, toFloat, if_true, inRange_natCast]

end PowerGuru.Lib.Binary32
