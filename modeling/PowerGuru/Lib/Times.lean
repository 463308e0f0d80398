import Mathlib.Data.Nat.Init
import Mathlib.Order.Nat
import Mathlib.Tactic.Linarith
import Mathlib.Tactic.Positivity
import PowerGuru.Lib.PyRepr

/-!
# Timestamps and their texts

A timestamp is kept as its fields. The order is the one of the twenty digits, which is also the
one of the calendar.
-/
namespace PowerGuru.Lib.Times

open PyRepr

structure Timestamp where
  year : Nat
  month : Nat
  day : Nat
  hour : Nat
  minute : Nat
  second : Nat
  micro : Nat
  year_lt : year < 10^4 := by decide
  month_lt : month < 10^2 := by decide
  day_lt : day < 10^2 := by decide
  hour_lt : hour < 10^2 := by decide
  minute_lt : minute < 10^2 := by decide
  second_lt : second < 10^2 := by decide
  micro_lt : micro < 10^6 := by decide

/-- The digits as one number. -/
def Timestamp.count (t : Timestamp) : Nat :=
  (((((t.year * 100 + t.month) * 100 + t.day) * 100 + t.hour) * 100 + t.minute) * 100 +
    t.second) * 1000000 + t.micro

theorem count_injective : Function.Injective Timestamp.count := by
  intro a b h
  obtain ⟨y, mo, d, hr, mi, s, us, hy, hmo, hd, hhr, hmi, hs, hus⟩ := a
  obtain ⟨y', mo', d', hr', mi', s', us', hy', hmo', hd', hhr', hmi', hs', hus'⟩ := b
  simp only [Timestamp.count] at h
  obtain ⟨rfl, rfl, rfl, rfl, rfl, rfl, rfl⟩ : y = y' ∧ mo = mo' ∧ d = d' ∧ hr = hr' ∧ mi = mi' ∧
      s = s' ∧ us = us' := by omega
  rfl

instance : LinearOrder Timestamp := LinearOrder.lift' Timestamp.count count_injective

theorem le_iff {s t : Timestamp} : s ≤ t ↔ s.count ≤ t.count := Iff.rfl

theorem no_micro : 0 < 10^6 := by decide

/-- Without the part of a second. -/
def Timestamp.cut (t : Timestamp) : Timestamp := { t with micro := 0, micro_lt := no_micro }

theorem count_cut (t : Timestamp) : t.cut.count = t.count / 1000000 * 1000000 := by
  have hmicro := t.micro_lt
  simp only [Timestamp.count, Timestamp.cut]
  omega

theorem cut_le (t : Timestamp) : t.cut ≤ t := by
  rw [le_iff, count_cut]
  exact Nat.div_mul_le_self t.count 1000000

/-- A time at or before another has its second there too. -/
theorem cut_mono {s t : Timestamp} (h : s ≤ t) : s.cut ≤ t.cut := by
  rw [le_iff, count_cut, count_cut]
  exact Nat.mul_le_mul_right 1000000 (Nat.div_le_div_right (le_iff.mp h))

/-! ## Texts -/

/-- `%Y-%m-%d %H:%M:%S`. -/
def Timestamp.strftime (t : Timestamp) : Text :=
  fixedDigits 10 4 t.year ++ '-' :: fixedDigits 10 2 t.month ++ '-' :: fixedDigits 10 2 t.day ++
    ' ' :: fixedDigits 10 2 t.hour ++ ':' :: fixedDigits 10 2 t.minute ++
    ':' :: fixedDigits 10 2 t.second

/-- With the part of a second, if there is one. -/
def Timestamp.text (t : Timestamp) : Text :=
  if t.micro = 0 then t.strftime else t.strftime ++ '.' :: fixedDigits 10 6 t.micro

def readDigit (c : Char) : Option Nat :=
  if 48 ≤ c.toNat ∧ c.toNat ≤ 57 then some (c.toNat - 48) else none

/-- A number of so many digits. -/
def readFixed : Nat → Text → Nat → Option (Nat × Text)
  | 0, s, n => some (n, s)
  | _ + 1, [], _ => none
  | w + 1, c :: s, n =>
      match readDigit c with
      | some d => readFixed w s (n * 10 + d)
      | none => none

/-- A number behind a separator. -/
def readAfter (sep : Char) (w : Nat) : Text → Option (Nat × Text)
  | [] => none
  | c :: s => if c = sep then readFixed w s 0 else none

/-- The part of a second may be missing. -/
def readMicro : Text → Option (Nat × Text)
  | [] => some (0, [])
  | c :: s => readAfter '.' 6 (c :: s)

def readTimestamp (s : Text) : Option Timestamp := do
  let (year, s) ← readFixed 4 s 0
  let (month, s) ← readAfter '-' 2 s
  let (day, s) ← readAfter '-' 2 s
  let (hour, s) ← readAfter ' ' 2 s
  let (minute, s) ← readAfter ':' 2 s
  let (second, s) ← readAfter ':' 2 s
  let (micro, s) ← readMicro s
  if h : s = [] ∧ year < 10^4 ∧ month < 10^2 ∧ day < 10^2 ∧ hour < 10^2 ∧ minute < 10^2 ∧
      second < 10^2 ∧ micro < 10^6 then
    some {
      year, month, day, hour, minute, second, micro
      year_lt := h.2.1
      month_lt := h.2.2.1
      day_lt := h.2.2.2.1
      hour_lt := h.2.2.2.2.1
      minute_lt := h.2.2.2.2.2.1
      second_lt := h.2.2.2.2.2.2.1
      micro_lt := h.2.2.2.2.2.2.2 }
  else none

theorem readDigit_digitChar {d : Nat} (h : d < 10) : readDigit (Nat.digitChar d) = some d := by
  have hall : ∀ d < 10, readDigit (Nat.digitChar d) = some d := by decide
  exact hall d h

theorem readFixed_fixedDigits {w n : Nat} (h : n < 10^w) (r : Text) (m : Nat) :
    readFixed w (fixedDigits 10 w n ++ r) m = some (m * 10^w + n, r) := by
  induction w generalizing n m with
  | zero =>
    obtain rfl : n = 0 := by omega
    simp [fixedDigits, readFixed]
  | succ w ih =>
    have hdigit : n / 10^w < 10 := by
      rw [Nat.div_lt_iff_lt_mul (by positivity)]
      rw [pow_succ] at h
      omega
    rw [fixedDigits, List.cons_append, readFixed, readDigit_digitChar hdigit]
    show readFixed w _ _ = _
    rw [ih (Nat.mod_lt n (by positivity))]
    have hsplit := Nat.div_add_mod n (10^w)
    congr 2
    rw [pow_succ]
    linarith

theorem readAfter_fixedDigits {w n : Nat} (h : n < 10^w) (sep : Char) (r : Text) :
    readAfter sep w (sep :: (fixedDigits 10 w n ++ r)) = some (n, r) := by
  rw [readAfter, if_pos rfl, readFixed_fixedDigits h, Nat.zero_mul, Nat.zero_add]

/-- What follows the seconds decides the part of a second. -/
theorem readTimestamp_strftime (t : Timestamp) {r : Text} {n : Nat} (hn : n < 10^6)
    (hr : readMicro r = some (n, [])) :
    readTimestamp (t.strftime ++ r) = some { t with micro := n, micro_lt := hn } := by
  have hbounds : t.year < 10^4 ∧ t.month < 10^2 ∧ t.day < 10^2 ∧ t.hour < 10^2 ∧
      t.minute < 10^2 ∧ t.second < 10^2 ∧ n < 10^6 :=
    ⟨t.year_lt, t.month_lt, t.day_lt, t.hour_lt, t.minute_lt, t.second_lt, hn⟩
  have hyear := readFixed_fixedDigits t.year_lt
  simp only [Timestamp.strftime, List.append_assoc, List.cons_append, readTimestamp, hyear,
    readAfter_fixedDigits t.month_lt, readAfter_fixedDigits t.day_lt,
    readAfter_fixedDigits t.hour_lt, readAfter_fixedDigits t.minute_lt,
    readAfter_fixedDigits t.second_lt, hr, Option.bind_eq_bind, Option.bind_some, Nat.zero_mul,
    Nat.zero_add]
  exact dif_pos ⟨trivial, hbounds⟩

/-- `strftime` drops the part of a second. -/
theorem readTimestamp_cut (t : Timestamp) : readTimestamp t.strftime = some t.cut := by
  have hread := readTimestamp_strftime t (r := []) (n := 0) (by decide) rfl
  rw [List.append_nil] at hread
  exact hread

theorem readTimestamp_text (t : Timestamp) : readTimestamp t.text = some t := by
  unfold Timestamp.text
  split
  · next h =>
    rw [readTimestamp_cut]
    congr 1
    exact count_injective (by rw [Timestamp.count, Timestamp.count, h]; rfl)
  · have hmicro := readAfter_fixedDigits t.micro_lt '.' []
    rw [List.append_nil] at hmicro
    exact readTimestamp_strftime t t.micro_lt hmicro

theorem mem_fixedDigits {w n : Nat} (h : n < 10^w) {c : Char} (hc : c ∈ fixedDigits 10 w n) :
    ∃ d < 10, c = Nat.digitChar d := by
  induction w generalizing n with
  | zero => exact absurd hc List.not_mem_nil
  | succ w ih =>
    rcases List.mem_cons.mp hc with rfl | hc
    · refine ⟨n / 10^w, ?_, rfl⟩
      rw [Nat.div_lt_iff_lt_mul (by positivity)]
      rw [pow_succ] at h
      omega
    · exact ih (Nat.mod_lt n (by positivity)) hc

/-- The characters of the texts of timestamps. -/
def isTimeChar (c : Char) : Bool :=
  decide (48 ≤ c.toNat ∧ c.toNat ≤ 57) || c == '-' || c == ' ' || c == ':' || c == '.'

theorem isTimeChar_of_mem {w n : Nat} (h : n < 10^w) :
    ∀ c ∈ fixedDigits 10 w n, isTimeChar c = true := by
  intro c hc
  obtain ⟨d, hd, rfl⟩ := mem_fixedDigits h hc
  have hall : ∀ d < 10, isTimeChar (Nat.digitChar d) = true := by decide
  exact hall d hd

theorem isTimeChar_strftime (t : Timestamp) : ∀ c ∈ t.strftime, isTimeChar c = true := by
  have hdash : isTimeChar '-' = true := by decide
  have hblank : isTimeChar ' ' = true := by decide
  have hcolon : isTimeChar ':' = true := by decide
  simp only [Timestamp.strftime, List.forall_mem_append, List.forall_mem_cons]
  exact ⟨⟨⟨⟨⟨isTimeChar_of_mem t.year_lt, hdash, isTimeChar_of_mem t.month_lt⟩,
    hdash, isTimeChar_of_mem t.day_lt⟩, hblank, isTimeChar_of_mem t.hour_lt⟩,
    hcolon, isTimeChar_of_mem t.minute_lt⟩, hcolon, isTimeChar_of_mem t.second_lt⟩

theorem isTimeChar_text (t : Timestamp) : ∀ c ∈ t.text, isTimeChar c = true := by
  unfold Timestamp.text
  split
  · exact isTimeChar_strftime t
  · rw [List.forall_mem_append, List.forall_mem_cons]
    exact ⟨isTimeChar_strftime t, by decide, isTimeChar_of_mem t.micro_lt⟩

/-- Nothing in such a text needs an escape. -/
theorem clean_of_isTimeChar (printable : Char → Bool) {s : Text}
    (h : ∀ c ∈ s, isTimeChar c = true) : Clean printable s := by
  intro c hc
  have hcode : 32 ≤ c.toNat ∧ c.toNat < 127 ∧ c.toNat ≠ 39 ∧ c.toNat ≠ 92 := by
    have hchar := h c hc
    simp only [isTimeChar, Bool.or_eq_true, decide_eq_true_eq, beq_iff_eq] at hchar
    rcases hchar with (((hdigit | rfl) | rfl) | rfl) | rfl
    · omega
    all_goals decide
  obtain ⟨hlow, hhigh, hquote, hback⟩ := hcode
  have hascii : c.toNat < 0x80 := by omega
  refine ⟨?_, ?_, by simp [isPrintable, hascii, hlow, hhigh]⟩
  · rintro rfl
    exact hquote rfl
  · rintro rfl
    exact hback rfl

end PowerGuru.Lib.Times
