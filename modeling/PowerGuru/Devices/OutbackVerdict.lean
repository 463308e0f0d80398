import PowerGuru.Devices.OutbackChecksum
import PowerGuru.Devices.OutbackFrame
import PowerGuru.Lib.Numeral

/-!
# The verdict of `calcChecksum`

The loop starts at the line feed, 38 below '0', and the field loses its zeros. A page
passes when its sum less 38 is what the nonzero digits of the field make: never a right
page, but no page of which a single digit was changed after it passed.
-/
namespace PowerGuru.Devices.OutbackVerdict

open Lib.Bytes Lib.Strtol Lib.Numeral Common OutbackParse OutbackChecksum

/-- Where both structures have their commas. -/
def separators : List Nat := [2, 5, 8, 11, 15, 19, 22, 25, 29, 32, 36, 40, 44]

/-- Behind the address and up to the end of the checksum. -/
def digitPlaces : List Nat := (List.range' 3 45).filter (· ∉ separators)

/-- A page with any number in each of its fields. -/
structure Page where
  text : List Byte
  length_eq : text.length = 49 := by decide
  separated : ∀ i ∈ separators, text.getD i NUL = comma := by decide
  address_ok : addressOk text := by decide
  digits : ∀ i ∈ digitPlaces, isDigit (text.getD i NUL) = true := by decide

/-- As `struct outback_mx` and `struct outback_fx` have it. -/
structure StatusPage extends Page where
  start_lf : text.head? = some LF := by decide

namespace Page
variable (p : Page)

def byte (i : Nat) : Byte := p.text.getD i NUL

/-- The distance from '0'. -/
def digitAt (i : Nat) : Nat := (p.byte i).toNat - 48

/-- Bytes 1 to 43, without the commas. -/
def dataSum : Nat := (((List.range' 1 43).filter fun i => p.byte i != comma).map p.digitAt).sum

def fieldDigits : List Nat := [p.digitAt 45, p.digitAt 46, p.digitAt 47]

/-- The checksum that was sent. -/
def checksum : Nat := number p.fieldDigits 0

/-- The number that is left without the zeros. -/
def bare : Nat := number (p.fieldDigits.filter (· != 0)) 0

/-- What `calcChecksum` can read. -/
def packet (beyond : Nat → Byte) : Nat → Byte := stored p.text beyond

end Page

/-! ## The loop and the field -/

theorem digit_of_isDigit {b : Byte} (h : isDigit b = true) :
    b.toNat - 48 < 10 ∧ b = digit (b.toNat - 48) := by
  simp only [isDigit, Bool.and_eq_true, decide_eq_true_eq, UInt8.le_iff_toNat_le] at h
  have hlow : 48 ≤ b.toNat := h.1
  have hhigh : b.toNat ≤ 57 := h.2
  refine ⟨by omega, ?_⟩
  rw [digit, show 48 + (b.toNat - 48) = b.toNat by omega, UInt8.ofNat_toNat]

theorem weight_comma : weight comma = 0 := rfl

/-- Digits and letters of an address. -/
theorem weight_of_range {b : Byte} (hlow : 48 ≤ b.toNat) (hhigh : b.toNat ≤ 75) :
    weight b = ((b.toNat - 48 : Nat) : Int) := by
  have hcomma : b ≠ comma := by
    rintro rfl
    exact absurd hlow (by decide)
  have hstar : b ≠ 42 := by
    rintro rfl
    exact absurd hlow (by decide)
  have hchar : b < 128 := by
    rw [UInt8.lt_iff_toNat_lt]
    exact hhigh.trans_lt (by decide)
  rw [weight, if_neg (by simp [hcomma, hstar]), schar, if_pos hchar]
  omega

namespace Page
variable (p : Page)

theorem packet_eq (beyond : Nat → Byte) {i : Nat} (h : i < 49) : p.packet beyond i = p.byte i := by
  rw [packet, stored, p.length_eq, if_pos h]
  rfl

theorem digitAt_lt {i : Nat} (h : i ∈ digitPlaces) :
    p.digitAt i < 10 ∧ p.byte i = digit (p.digitAt i) := digit_of_isDigit (p.digits i h)

theorem byte_one : 48 ≤ (p.byte 1).toNat ∧ (p.byte 1).toNat ≤ 75 := by
  have h := p.address_ok
  simp only [addressOk, isFxAddress, isMxAddress, Bool.and_eq_true, decide_eq_true_eq,
    UInt8.le_iff_toNat_le] at h
  rcases h with ⟨hlow, hhigh⟩ | ⟨hlow, hhigh⟩
  · exact ⟨hlow, hhigh.trans (by decide)⟩
  · exact ⟨le_trans (by decide) hlow, hhigh⟩

theorem byte_cases {i : Nat} (h1 : 1 ≤ i) (h2 : i ≤ 47) :
    p.byte i = comma ∨ 48 ≤ (p.byte i).toNat ∧ (p.byte i).toNat ≤ 75 := by
  by_cases hs : i ∈ separators
  · exact Or.inl (p.separated i hs)
  · right
    by_cases ha : i = 1
    · rw [ha]
      exact p.byte_one
    · have htwo : i ≠ 2 := fun he => hs (by rw [he]; decide)
      have hi : i ∈ digitPlaces := by
        rw [digitPlaces, List.mem_filter, List.mem_range'_1]
        exact ⟨by omega, by simpa using hs⟩
      have hd := p.digits i hi
      simp only [isDigit, Bool.and_eq_true, decide_eq_true_eq, UInt8.le_iff_toNat_le] at hd
      exact ⟨hd.1, hd.2.trans (by decide)⟩

/-- What a byte of the data counts in the loop. -/
theorem weight_byte {i : Nat} (h1 : 1 ≤ i) (h2 : i ≤ 47) :
    weight (p.byte i) = if p.byte i != comma then (p.digitAt i : Int) else 0 := by
  rcases p.byte_cases h1 h2 with hc | ⟨hlow, hhigh⟩
  · rw [hc, weight_comma]
    rfl
  · have hne : p.byte i ≠ comma := by
      intro he
      rw [he] at hlow
      exact absurd hlow (by decide)
    rw [weight_of_range hlow hhigh, if_pos (bne_iff_ne.mpr hne)]
    rfl

/-- The commas count nothing, so the loop may as well leave them out. -/
theorem sum_weights {l : List Nat} (h : ∀ i ∈ l, 1 ≤ i ∧ i ≤ 47) :
    (l.map fun i => weight (p.byte i)).sum =
      (((l.filter fun i => p.byte i != comma).map p.digitAt).sum : Int) := by
  induction l with
  | nil => rfl
  | cons i l ih =>
    obtain ⟨h1, h2⟩ := h i List.mem_cons_self
    have hl : ∀ j ∈ l, 1 ≤ j ∧ j ≤ 47 := fun j hj => h j (List.mem_cons_of_mem i hj)
    rw [List.map_cons, List.sum_cons, ih hl, p.weight_byte h1 h2, List.filter_cons]
    split
    · simp
    · simp

theorem checksumOf_eq (beyond : Nat → Byte) :
    checksumOf (p.packet beyond) = weight (p.byte 0) + p.dataSum := by
  have hrange : List.range 45 = 0 :: (List.range' 1 43 ++ [44]) := by decide
  have hbytes : (List.range 45).map (fun i => weight (p.packet beyond i)) =
      (List.range 45).map fun i => weight (p.byte i) := by
    apply List.map_congr_left
    intro i hi
    rw [p.packet_eq beyond ((List.mem_range.mp hi).trans (by decide))]
  have hlast : weight (p.byte 44) = 0 := by
    rw [show p.byte 44 = comma from p.separated 44 (by decide), weight_comma]
  have hdata := p.sum_weights (l := List.range' 1 43) (by
    intro i hi
    rw [List.mem_range'_1] at hi
    omega)
  rw [checksumOf, hbytes, hrange, List.map_cons, List.sum_cons, List.map_append, List.sum_append,
    hdata, List.map_singleton, List.sum_singleton, hlast, add_zero, dataSum]

theorem fieldDigits_lt : ∀ d ∈ p.fieldDigits, d < 10 := by
  intro d hd
  simp only [fieldDigits, List.mem_cons, List.not_mem_nil, or_false] at hd
  rcases hd with rfl | rfl | rfl
  · exact (p.digitAt_lt (by decide)).1
  · exact (p.digitAt_lt (by decide)).1
  · exact (p.digitAt_lt (by decide)).1

/-- Dropping every '0' leaves the nonzero digits. -/
theorem chkField_eq (beyond : Nat → Byte) :
    chkField (p.packet beyond) = (p.fieldDigits.filter (· != 0)).map digit := by
  have hbytes : [p.packet beyond 45, p.packet beyond 46, p.packet beyond 47] =
      p.fieldDigits.map digit := by
    rw [p.packet_eq beyond (by decide), p.packet_eq beyond (by decide),
      p.packet_eq beyond (by decide), (p.digitAt_lt (i := 45) (by decide)).2,
      (p.digitAt_lt (i := 46) (by decide)).2, (p.digitAt_lt (i := 47) (by decide)).2]
    rfl
  rw [chkField, hbytes, List.filter_map]
  congr 1
  apply List.filter_congr
  intro d hd
  have hiff := digit_eq_zero_iff (p.fieldDigits_lt d hd)
  rw [Function.comp_apply, Bool.eq_iff_iff, bne_iff_ne, bne_iff_ne, ne_eq, ne_eq, hiff]

theorem bare_lt : p.bare < 1000 := by
  have hlength : (p.fieldDigits.filter (· != 0)).length ≤ 3 := List.length_filter_le _ _
  have hdigits : ∀ d ∈ p.fieldDigits.filter (· != 0), d < 10 :=
    fun d hd => p.fieldDigits_lt d (List.mem_of_mem_filter hd)
  have hlt := digitsFrom_lt (show 0 < 10 by decide) 0 ((p.fieldDigits.filter (· != 0)).map digit)
  rw [digitsFrom_number hdigits, List.length_map, Nat.zero_add, Nat.one_mul] at hlt
  exact hlt.trans_le (Nat.pow_le_pow_right (n := 10) (by decide) hlength)

/-- The verdict, whatever the page starts with. -/
theorem calcChecksum_iff (beyond : Nat → Byte) :
    calcChecksum (p.packet beyond) = .success ↔ weight (p.byte 0) + p.dataSum = p.bare := by
  have hnonzero : ∀ d ∈ p.fieldDigits.filter (· != 0), d ≠ 0 ∧ d < 10 := by
    intro d hd
    obtain ⟨hmem, hne⟩ := List.mem_filter.mp hd
    exact ⟨bne_iff_ne.mp hne, p.fieldDigits_lt d hmem⟩
  have hnul : NUL ∉ (p.fieldDigits.filter (· != 0)).map digit := by
    intro h
    obtain ⟨d, hd, he⟩ := List.mem_map.mp h
    exact (digit_cases (hnonzero d hd).2).2.1 he
  have hlt := p.bare_lt
  have hfield : toInt (strtol (cstr (chkField (p.packet beyond))) 0) = p.bare := by
    rw [p.chkField_eq, cstr_of_not_mem hnul, strtol_number hnonzero, ← bare,
      clampLong_of_small (by omega), toInt_of_small (by omega)]
  rw [calcChecksum, hfield, p.checksumOf_eq]
  simp

/-! ## Right pages -/

theorem number_mod (ds : List Nat) (acc : Nat) : number ds acc % 9 = (acc + ds.sum) % 9 := by
  induction ds generalizing acc with
  | nil => rfl
  | cons d ds ih =>
    have hstep : number (d :: ds) acc = number ds (acc * 10 + d) := rfl
    rw [hstep, ih, List.sum_cons]
    omega

theorem sum_nonzero (ds : List Nat) : (ds.filter (· != 0)).sum = ds.sum := by
  induction ds with
  | nil => rfl
  | cons d ds ih =>
    by_cases hd : d = 0
    · simp [hd, ih]
    · simp [hd, ih]

/-- Zeros change a number by a multiple of nine only, and 38 is none. -/
theorem checksum_ne : p.checksum ≠ p.bare + 38 := by
  intro h
  have hfield := number_mod p.fieldDigits 0
  have hbare := number_mod (p.fieldDigits.filter (· != 0)) 0
  rw [sum_nonzero, ← bare] at hbare
  rw [← checksum] at hfield
  omega

end Page

theorem StatusPage.byte_zero (p : StatusPage) : p.byte 0 = LF := by
  have h := p.start_lf
  rw [List.head?_eq_getElem?] at h
  rw [Page.byte, List.getD_eq_getElem?_getD, h]
  rfl

/-- Accepted exactly if the field is the sum of the data. -/
def StatusPage.JudgedRight (p : StatusPage) (beyond : Nat → Byte) : Prop :=
  calcChecksum (p.packet beyond) = .success ↔ p.checksum = p.dataSum

/-- A right page, as the simulator sends it. -/
def rightPage : StatusPage where
  text := OutbackFrame.sampleFx.encode

theorem rightPage_rejected : ¬ rightPage.JudgedRight fun _ => NUL := by
  have hright : rightPage.checksum = rightPage.dataSum := by decide
  have hrejected : calcChecksum (rightPage.packet fun _ => NUL) ≠ .success := by decide
  intro h
  exact hrejected (h.mpr hright)

/-- A right page is never accepted, and a wrong one only if its sum is 38 more than the
nonzero digits of the field make. -/
theorem judgedRight_iff (p : StatusPage) (beyond : Nat → Byte) :
    p.JudgedRight beyond ↔ p.dataSum ≠ p.checksum ∧ p.dataSum ≠ p.bare + 38 := by
  have hiff := p.calcChecksum_iff beyond
  have hne := p.checksum_ne
  have hlf : weight LF = -38 := rfl
  rw [p.byte_zero, hlf] at hiff
  rw [StatusPage.JudgedRight, hiff]
  omega

/-! ## One wrong digit -/

/-- Another digit for the one in that place. -/
structure Page.Slip (p : Page) where
  place : Nat
  digit : Byte
  place_ok : place ∈ List.range' 1 43 ∨ place ∈ [45, 46, 47] := by decide
  was_digit : isDigit (p.byte place) = true := by decide
  is_digit : isDigit digit = true := by decide
  differs : digit ≠ p.byte place := by decide

namespace Page
variable {p : Page}

theorem Slip.place_le (e : p.Slip) : 1 ≤ e.place ∧ e.place ≤ 47 := by
  rcases e.place_ok with h | h
  · rw [List.mem_range'_1] at h
    omega
  · simp only [List.mem_cons, List.not_mem_nil, or_false] at h
    omega

theorem getD_set (e : p.Slip) (i : Nat) :
    (p.text.set e.place e.digit).getD i NUL = if i = e.place then e.digit else p.byte i := by
  have hlt : e.place < p.text.length := by
    have h := e.place_le
    rw [p.length_eq]
    omega
  rw [List.getD_eq_getElem?_getD, List.getElem?_set]
  by_cases hi : i = e.place
  · rw [if_pos hi.symm, if_pos (hi ▸ hlt), if_pos hi]
    rfl
  · rw [if_neg (Ne.symm hi), if_neg hi, byte, List.getD_eq_getElem?_getD]

/-- The page with the slip in it is still a page. -/
def corrupted (p : Page) (e : p.Slip) : Page where
  text := p.text.set e.place e.digit
  length_eq := by rw [List.length_set, p.length_eq]
  separated := by
    intro i hi
    have hcomma := p.separated i hi
    have hne : i ≠ e.place := by
      intro he
      have hdigit := e.was_digit
      rw [← he, byte, hcomma] at hdigit
      exact absurd hdigit (by decide)
    rw [getD_set, if_neg hne]
    exact hcomma
  address_ok := by
    rw [addressOk, getD_set]
    by_cases ha : 1 = e.place
    · rw [if_pos ha]
      exact Or.inl e.is_digit
    · rw [if_neg ha]
      exact p.address_ok
  digits := by
    intro i hi
    rw [getD_set]
    by_cases he : i = e.place
    · rw [if_pos he]
      exact e.is_digit
    · rw [if_neg he]
      exact p.digits i hi

theorem byte_corrupted (e : p.Slip) (i : Nat) :
    (p.corrupted e).byte i = if i = e.place then e.digit else p.byte i := getD_set e i

theorem digitAt_other (e : p.Slip) {i : Nat} (h : i ≠ e.place) :
    (p.corrupted e).digitAt i = p.digitAt i := by
  rw [digitAt, byte_corrupted, if_neg h, digitAt]

theorem digitAt_place (e : p.Slip) : (p.corrupted e).digitAt e.place ≠ p.digitAt e.place := by
  intro h
  obtain ⟨-, hnew⟩ := digit_of_isDigit e.is_digit
  obtain ⟨-, hold⟩ := digit_of_isDigit e.was_digit
  rw [digitAt, byte_corrupted, if_pos rfl, digitAt] at h
  exact e.differs (by rw [hnew, h, ← hold])

/-- No comma comes or goes. -/
theorem comma_corrupted (e : p.Slip) (i : Nat) :
    ((p.corrupted e).byte i != comma) = (p.byte i != comma) := by
  rw [byte_corrupted]
  split
  · next he =>
    have hnew : e.digit ≠ comma := by
      intro hc
      have hdigit := e.is_digit
      rw [hc] at hdigit
      exact absurd hdigit (by decide)
    have hold : p.byte i ≠ comma := by
      intro hc
      have hdigit := e.was_digit
      rw [← he, hc] at hdigit
      exact absurd hdigit (by decide)
    rw [bne_iff_ne.mpr hnew, bne_iff_ne.mpr hold]
  · rfl

end Page

/-- Sums over the same places, of which one counts differently. -/
theorem sum_ne {l : List Nat} (hn : l.Nodup) {i : Nat} (hi : i ∈ l) {f g : Nat → Nat}
    (hother : ∀ j, j ≠ i → f j = g j) (hne : f i ≠ g i) : (l.map f).sum ≠ (l.map g).sum := by
  have hperm := List.perm_cons_erase hi
  have hrest : (l.erase i).map f = (l.erase i).map g := by
    apply List.map_congr_left
    intro j hj
    exact hother j (hn.mem_erase_iff.mp hj).1
  rw [(hperm.map f).sum_eq, (hperm.map g).sum_eq, List.map_cons, List.map_cons, List.sum_cons,
    List.sum_cons, hrest]
  omega

/-- Three digits of which one is changed make another number without their zeros: a zero
that comes or goes changes how many digits are left. -/
theorem bare_ne {a b c x : Nat} (ha : a < 10) (hb : b < 10) (hc : c < 10) (hx : x < 10) :
    (x ≠ a → number ([x, b, c].filter (· != 0)) 0 ≠ number ([a, b, c].filter (· != 0)) 0) ∧
    (x ≠ b → number ([a, x, c].filter (· != 0)) 0 ≠ number ([a, b, c].filter (· != 0)) 0) ∧
    (x ≠ c → number ([a, b, x].filter (· != 0)) 0 ≠ number ([a, b, c].filter (· != 0)) 0) := by
  by_cases hx0 : x = 0 <;> by_cases ha0 : a = 0 <;> by_cases hb0 : b = 0 <;>
    by_cases hc0 : c = 0 <;> simp [number, hx0, ha0, hb0, hc0] <;> omega

namespace Page
variable {p : Page}

theorem dataSum_corrupted (e : p.Slip) :
    (p.corrupted e).dataSum = (((List.range' 1 43).filter fun i => p.byte i != comma).map
      (p.corrupted e).digitAt).sum := by
  have hplaces : (fun i => (p.corrupted e).byte i != comma) = fun i => p.byte i != comma :=
    funext (comma_corrupted e)
  rw [dataSum, hplaces]

theorem dataSum_ne (e : p.Slip) (h : e.place ∈ List.range' 1 43) :
    (p.corrupted e).dataSum ≠ p.dataSum := by
  have hcomma : p.byte e.place ≠ comma := by
    intro hc
    have hdigit := e.was_digit
    rw [hc] at hdigit
    exact absurd hdigit (by decide)
  rw [dataSum_corrupted, dataSum]
  apply sum_ne (i := e.place)
  · exact (show (List.range' 1 43).Nodup by decide).filter _
  · exact List.mem_filter.mpr ⟨h, bne_iff_ne.mpr hcomma⟩
  · exact fun j hj => digitAt_other e hj
  · exact digitAt_place e

theorem dataSum_same (e : p.Slip) (h : 45 ≤ e.place) : (p.corrupted e).dataSum = p.dataSum := by
  rw [dataSum_corrupted, dataSum]
  congr 1
  apply List.map_congr_left
  intro i hi
  have hrange := List.mem_range'_1.mp (List.mem_of_mem_filter hi)
  exact digitAt_other e (by omega)

theorem bare_same (e : p.Slip) (h : e.place < 45) : (p.corrupted e).bare = p.bare := by
  rw [bare, fieldDigits, digitAt_other e (by omega), digitAt_other e (by omega),
    digitAt_other e (by omega), bare, fieldDigits]

theorem bare_corrupted (e : p.Slip) (h : e.place ∈ [45, 46, 47]) :
    (p.corrupted e).bare ≠ p.bare := by
  have hlt : (p.corrupted e).digitAt e.place < 10 := by
    rw [digitAt, byte_corrupted, if_pos rfl]
    exact (digit_of_isDigit e.is_digit).1
  have hne := digitAt_place e
  obtain ⟨hfirst, hsecond, hthird⟩ := bare_ne (p.digitAt_lt (i := 45) (by decide)).1
    (p.digitAt_lt (i := 46) (by decide)).1 (p.digitAt_lt (i := 47) (by decide)).1 hlt
  simp only [List.mem_cons, List.not_mem_nil, or_false] at h
  rw [bare, bare, fieldDigits, fieldDigits]
  rcases h with h | h | h
  · rw [digitAt_other e (i := 46) (by omega), digitAt_other e (i := 47) (by omega)]
    rw [h] at hne hfirst
    exact hfirst hne
  · rw [digitAt_other e (i := 45) (by omega), digitAt_other e (i := 47) (by omega)]
    rw [h] at hne hsecond
    exact hsecond hne
  · rw [digitAt_other e (i := 45) (by omega), digitAt_other e (i := 46) (by omega)]
    rw [h] at hne hthird
    exact hthird hne

end Page

/-- Whatever the page starts with, no page passes both before and after a digit of it was
changed. -/
theorem slip_detected (p : Page) (e : p.Slip) (beyond : Nat → Byte)
    (h : calcChecksum (p.packet beyond) = .success) :
    calcChecksum ((p.corrupted e).packet beyond) = .error := by
  have hplace := e.place_le
  have hstart : (p.corrupted e).byte 0 = p.byte 0 := by
    rw [Page.byte_corrupted, if_neg (by omega)]
  have hdiffer : ¬ calcChecksum ((p.corrupted e).packet beyond) = .success := by
    rw [Page.calcChecksum_iff] at h ⊢
    rw [hstart]
    intro hs
    rcases e.place_ok with hdata | hfield
    · have hne := Page.dataSum_ne e hdata
      have hlt : e.place < 45 := by
        rw [List.mem_range'_1] at hdata
        omega
      have hsame := Page.bare_same e hlt
      omega
    · have hne := Page.bare_corrupted e hfield
      have hge : 45 ≤ e.place := by
        simp only [List.mem_cons, List.not_mem_nil, or_false] at hfield
        omega
      have hsame := Page.dataSum_same e hge
      omega
  cases hc : calcChecksum ((p.corrupted e).packet beyond) with
  | success => exact absurd hc hdiffer
  | error => rfl

/-- A page that passes: its data sums to 38. -/
def passingPage : Page where
  text := bytes "\n9,99,00,00,119,000,00,00,000,00,000,000,000,000\r"

theorem slip_detected_passing :
    calcChecksum ((passingPage.corrupted { place := 46, digit := 49 }).packet fun _ => NUL) =
      .error :=
  slip_detected passingPage { place := 46, digit := 49 } (fun _ => NUL) (by decide)

end PowerGuru.Devices.OutbackVerdict
