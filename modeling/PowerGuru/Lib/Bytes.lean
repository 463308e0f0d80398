import Mathlib.Data.List.TakeWhile

/-!
# Byte strings and C strings

A `char *` is the list of bytes from the pointer to the end of its buffer. What
the C library sees of it ends at the first NUL; a buffer without one makes every
string function read past its end, which is `none` here.
-/
namespace PowerGuru.Lib.Bytes

abbrev Byte := UInt8

/-- Texts are found in lists of texts byte by byte. -/
instance : LawfulBEq (List Byte) := inferInstance

/-- The bytes of a literal. -/
def bytes (s : String) : List Byte := s.toList.map fun c => c.toNat.toUInt8

/-- The first byte of a longer code is not one of ASCII. -/
theorem encode_ascii {c : Char} (h : ∀ b ∈ String.utf8EncodeChar c, b < 128) :
    String.utf8EncodeChar c = [c.toNat.toUInt8] := by
  have hlead : ∀ x n : Nat, 128 ≤ n → x + n < 256 → ¬ UInt8.ofNat (x + n) < 128 := by
    intro x n hn hx
    rw [UInt8.lt_iff_toNat_lt, UInt8.toNat_ofNat_of_lt' hx]
    exact Nat.not_lt.mpr (Nat.le_add_left_of_le hn)
  unfold String.utf8EncodeChar at h ⊢
  dsimp only at h ⊢
  split_ifs at h ⊢
  · rfl
  · exact absurd (h _ List.mem_cons_self) (hlead _ 0xc0 (by decide) (by omega))
  · exact absurd (h _ List.mem_cons_self) (hlead _ 0xe0 (by decide) (by omega))
  · exact absurd (h _ List.mem_cons_self) (hlead _ 0xf0 (by decide) (by omega))

/-- The bytes of a literal in ASCII are those of its UTF-8 form. -/
theorem bytes_ascii {s : String} (h : ∀ b ∈ s.toByteArray.data.toList, b < 128) :
    bytes s = s.toByteArray.data.toList := by
  have hs : s.toByteArray.data.toList = s.toList.flatMap String.utf8EncodeChar := by
    rw [← String.utf8Encode_toList, List.utf8Encode, List.toList_data_toByteArray]
  rw [hs] at h ⊢
  rw [bytes]
  generalize s.toList = cs at h
  induction cs with
  | nil => rfl
  | cons c cs ih =>
    rw [List.flatMap_cons] at h ⊢
    rw [List.map_cons, ih fun b hb => h b (List.mem_append_right _ hb),
      encode_ascii fun b hb => h b (List.mem_append_left _ hb)]
    rfl

def NUL : Byte := 0
def LF : Byte := 10
def CR : Byte := 13
def comma : Byte := 44

/-- A `char` is signed. -/
def schar (b : Byte) : Int := if b < 128 then b.toNat else b.toNat - 256

/-- The string a `char *` points at. -/
def cstr (m : List Byte) : List Byte := m.takeWhile (· != NUL)

theorem nul_not_mem_cstr (m : List Byte) : NUL ∉ cstr m := by
  intro h
  have hb := List.mem_takeWhile_imp h
  simp at hb

theorem cstr_of_not_mem {m : List Byte} (h : NUL ∉ m) : cstr m = m := by
  apply List.takeWhile_eq_self_iff.mpr
  intro b hb
  have hne : b ≠ NUL := fun he => h (he ▸ hb)
  simpa using hne

theorem cstr_append {s : List Byte} (h : NUL ∉ s) (t : List Byte) :
    cstr (s ++ t) = s ++ cstr t := by
  unfold cstr
  rw [List.takeWhile_append_of_pos]
  intro b hb
  have hne : b ≠ NUL := fun he => h (he ▸ hb)
  simpa using hne

theorem cstr_append_nul {s : List Byte} (t : List Byte) (h : NUL ∉ s) :
    cstr (s ++ NUL :: t) = s := by
  rw [cstr_append h, show cstr (NUL :: t) = [] from rfl, List.append_nil]

/-- A terminated string, its NUL and what follows. -/
theorem eq_cstr_append {m : List Byte} (h : NUL ∈ m) : ∃ t, m = cstr m ++ NUL :: t := by
  induction m with
  | nil => exact absurd h List.not_mem_nil
  | cons b m ih =>
    by_cases hb : b = NUL
    · exact ⟨m, by simp [cstr, hb]⟩
    · obtain ⟨t, ht⟩ := ih ((List.mem_cons.mp h).resolve_left fun he => hb he.symm)
      refine ⟨t, ?_⟩
      have hc : cstr (b :: m) = b :: cstr m := by simp [cstr, hb]
      rw [hc, List.cons_append, ← ht]

/-- `strlen`. -/
def strlen (m : List Byte) : Option Nat := if NUL ∈ m then some (cstr m).length else none

theorem strlen_append_nul {s : List Byte} (t : List Byte) (h : NUL ∉ s) :
    strlen (s ++ NUL :: t) = some s.length := by
  simp [strlen, cstr_append_nul t h]

theorem lt_length_of_strlen {m : List Byte} {n : Nat} (h : strlen m = some n) : n < m.length := by
  by_cases hm : NUL ∈ m
  · obtain ⟨t, ht⟩ := eq_cstr_append hm
    have hl := congrArg List.length ht
    rw [List.length_append, List.length_cons] at hl
    rw [strlen, if_pos hm, Option.some.injEq] at h
    omega
  · rw [strlen, if_neg hm] at h
    exact absurd h (by simp)

/-- `p = strrchr(s, c); if (p) *p = 0;` leaves what stands before the last `c`. -/
def cutAtLast (c : Byte) (s : List Byte) : List Byte :=
  if c ∈ s then (s.reverse.dropWhile (· != c)).tail.reverse else s

theorem cutAtLast_of_not_mem {c : Byte} {s : List Byte} (h : c ∉ s) : cutAtLast c s = s := if_neg h

theorem cutAtLast_append (c : Byte) (s : List Byte) {t : List Byte} (h : c ∉ t) :
    cutAtLast c (s ++ c :: t) = s := by
  have hm : c ∈ s ++ c :: t := by simp
  have hd : (t.reverse ++ (c :: s.reverse)).dropWhile (· != c) = c :: s.reverse := by
    rw [List.dropWhile_append_of_pos (fun b hb => by
      have hne : b ≠ c := fun he => h (by simpa [he] using hb)
      simpa using hne)]
    simp
  rw [cutAtLast, if_pos hm, List.reverse_append, List.reverse_cons, List.append_assoc,
    List.singleton_append, hd]
  simp

theorem cutAtLast_append_mem {c : Byte} (s : List Byte) {t : List Byte} (h : c ∈ t) :
    cutAtLast c (s ++ t) = s ++ cutAtLast c t := by
  have hr : c ∈ t.reverse := List.mem_reverse.mpr h
  have hd : t.reverse.dropWhile (· != c) ≠ [] := by
    intro he
    have hall := List.dropWhile_eq_nil_iff.mp he c hr
    simp at hall
  rw [cutAtLast, if_pos (List.mem_append_right s h), cutAtLast, if_pos h, List.reverse_append,
    List.dropWhile_append, if_neg (by simpa using hd), List.tail_append_of_ne_nil hd,
    List.reverse_append, List.reverse_reverse]

theorem cutAtLast_initial (c : Byte) (s : List Byte) : cutAtLast c s <+: s := by
  by_cases h : c ∈ s
  · rw [cutAtLast, if_pos h, ← List.reverse_suffix, List.reverse_reverse]
    exact (List.tail_suffix _).trans (List.dropWhile_suffix _)
  · exact ⟨[], by rw [cutAtLast_of_not_mem h, List.append_nil]⟩

theorem cutAtLast_length_lt {c : Byte} {s : List Byte} (h : c ∈ s) :
    (cutAtLast c s).length < s.length := by
  have hr : c ∈ s.reverse := List.mem_reverse.mpr h
  have hd : s.reverse.dropWhile (· != c) ≠ [] := by
    intro he
    have hall := List.dropWhile_eq_nil_iff.mp he c hr
    simp at hall
  have hle := (List.dropWhile_suffix (l := s.reverse) (· != c)).length_le
  have hpos := List.length_pos_iff.mpr hd
  rw [cutAtLast, if_pos h, List.length_reverse, List.length_tail]
  rw [List.length_reverse] at hle
  omega

/-- What stands before the first `c`, and behind it. -/
theorem append_cons_inj {c : Byte} {x y s t : List Byte} (hx : c ∉ x) (hy : c ∉ y)
    (h : x ++ c :: s = y ++ c :: t) : x = y ∧ s = t := by
  have htake : ∀ {z : List Byte}, c ∉ z → ∀ u, (z ++ c :: u).takeWhile (· != c) = z := by
    intro z hz u
    have hall : ∀ b ∈ z, (b != c) = true := fun b hb => bne_iff_ne.mpr fun he => hz (he ▸ hb)
    rw [List.takeWhile_append_of_pos hall]
    simp
  have hxy : x = y := by rw [← htake hx s, h, htake hy]
  rw [hxy] at h
  exact ⟨hxy, (List.cons.inj (List.append_cancel_left h)).2⟩

/-- Up to the first `c` only what stands in front of it counts. -/
theorem takeWhile_append_of_mem {c : Byte} {s : List Byte} (h : c ∈ s) (t : List Byte) :
    (s ++ t).takeWhile (· != c) = s.takeWhile (· != c) := by
  rw [List.takeWhile_append, if_neg]
  intro he
  have hall := List.takeWhile_eq_self_iff.mp ((List.takeWhile_prefix _).eq_of_length he)
  simpa using hall c h

/-- `hay.find(needle) != std::string::npos`. -/
def occursIn (needle : List Byte) : List Byte → Bool
  | [] => needle.isEmpty
  | b :: bs => needle.isPrefixOf (b :: bs) || occursIn needle bs

theorem occursIn_self (s : List Byte) : occursIn s s = true := by
  cases s <;> simp [occursIn]

/-- What follows a word at the front. -/
def strip (word s : List Byte) : Option (List Byte) :=
  if word.isPrefixOf s = true then some (s.drop word.length) else none

theorem strip_append (word s : List Byte) : strip word (word ++ s) = some s := by
  simp [strip]

theorem strip_eq_some_iff {word s t : List Byte} : strip word s = some t ↔ s = word ++ t := by
  constructor
  · intro h
    rw [strip] at h
    split at h
    · next hp =>
      obtain ⟨u, rfl⟩ := List.isPrefixOf_iff_prefix.mp hp
      rw [List.drop_left, Option.some.injEq] at h
      rw [h]
    · exact absurd h (by simp)
  · intro h
    rw [h, strip_append]

/-- What stands before the first occurrence of a word, and what follows it. -/
def cut (word : List Byte) : List Byte → Option (List Byte × List Byte)
  | [] => none
  | b :: s =>
      match strip word (b :: s) with
      | some t => some ([], t)
      | none => (cut word s).map fun p => (b :: p.1, p.2)

theorem eq_of_cut {word s x y : List Byte} (h : cut word s = some (x, y)) :
    s = x ++ (word ++ y) := by
  induction s generalizing x with
  | nil => exact absurd h (by simp [cut])
  | cons b s ih =>
    rw [cut] at h
    split at h
    · next t ht =>
      obtain ⟨rfl, rfl⟩ : [] = x ∧ t = y := by simpa using h
      rw [List.nil_append]
      exact strip_eq_some_iff.mp ht
    · obtain ⟨⟨x', y'⟩, hc, he⟩ := Option.map_eq_some_iff.mp h
      obtain ⟨rfl, rfl⟩ : b :: x' = x ∧ y' = y := by simpa using he
      rw [ih hc, List.cons_append]

end PowerGuru.Lib.Bytes
