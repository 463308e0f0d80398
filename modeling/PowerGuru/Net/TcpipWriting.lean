import Mathlib.Algebra.BigOperators.Group.Finset.Basic
import Mathlib.Algebra.BigOperators.Intervals
import Mathlib.Algebra.Order.BigOperators.Group.Finset
import PowerGuru.Lib.Bytes

/-!
# `Tcpip::writeNet`

The call is followed from one round of the retry loop to the next. Each round asks the
socket for the whole size again, however much of the buffer is already gone.
-/
namespace PowerGuru.Net.TcpipWriting

open Lib.Bytes

/-- Linux transfers at most this many bytes in one call. -/
def MAX_RW_COUNT : Nat := 0x7ffff000

/-- What `select` and `write` report in one round. -/
inductive Attempt where
  /-- -1 from `select`. -/
  | unavailable
  /-- 0 from `select`. -/
  | timeout
  /-- -1 from `write`. -/
  | failed
  /-- The socket has room for this many bytes. -/
  | room (n : Nat) (fits : n ≤ MAX_RW_COUNT)

/-- The locals at the top of the loop body, with the bytes the socket took. -/
structure Sending where
  retries : Nat
  bufptr : Nat
  ret : Int
  sent : List Byte

inductive Call where
  | loop (s : Sending)
  | returned (ret : Int) (sent : List Byte)

/-- A size as the `int` it is kept in. -/
def nbytes (size : Nat) : Int := (size : Int).bmod (2 ^ 32)

/-- An `int` as the `size_t` that `write` takes. -/
def toSize (n : Int) : Nat := (n % 2 ^ 64).toNat

/-- The buffer and the memory behind it. -/
def memory (buffer : List Byte) (beyond : Nat → Byte) (i : Nat) : Byte :=
  buffer.getD i (beyond (i - buffer.length))

/-- The bytes from a pointer on. -/
def piece (mem : Nat → Byte) (bufptr n : Nat) : List Byte :=
  (List.range n).map fun i => mem (bufptr + i)

/-- `while (retries-- > 1)`. -/
def again (s : Sending) : Call :=
  if 1 < s.retries then .loop { s with retries := s.retries - 1 } else .returned s.ret s.sent

def round (sockfd : Int) (mem : Nat → Byte) (nbytes : Int) (attempt : Attempt) : Call → Call
  | .returned ret sent => .returned ret sent
  | .loop s =>
      if 2 < sockfd then
        match attempt with
        | .unavailable => again { s with ret := -1 }
        | .timeout => again { s with ret := 0 }
        | .failed => .returned (-1) s.sent
        | .room n _ =>
            let ret := min n (toSize nbytes)
            let sent := s.sent ++ piece mem s.bufptr ret
            if ret = 0 then .returned 0 sent
            else if (ret : Int) ≠ nbytes then
              -- `retries++`, with `nbytes` as it was
              again ⟨s.retries + 1, s.bufptr + ret, ret, sent⟩
            else .returned ret sent
      else .returned (-1) s.sent

/-- The call after some rounds. -/
def writeNet (sockfd : Int) (buffer : List Byte) (beyond : Nat → Byte) (port : Nat → Attempt) :
    Nat → Call
  | 0 => again ⟨3, 0, 0, []⟩
  | t + 1 =>
      round sockfd (memory buffer beyond) (nbytes buffer.length) (port t)
        (writeNet sockfd buffer beyond port t)

def Call.sent : Call → List Byte
  | .loop s => s.sent
  | .returned _ sent => sent

/-- The socket takes a part of the buffer, the size is reported exactly if it took all of
it, and the rounds are those that send something and the two retries. -/
structure Delivers (sockfd : Int) (buffer : List Byte) (beyond : Nat → Byte)
    (port : Nat → Attempt) : Prop where
  part : ∀ t, (writeNet sockfd buffer beyond port t).sent <+: buffer
  ends : ∃ ret sent, writeNet sockfd buffer beyond port (buffer.length + 2) = .returned ret sent
  report : ∀ t ret sent, writeNet sockfd buffer beyond port t = .returned ret sent →
    (ret = buffer.length ↔ sent = buffer)

/-! ## The rounds of a call -/

/-- The bytes that the socket takes in a round. -/
def Attempt.takes (size : Nat) : Attempt → Nat
  | .room n _ => min n (toSize (nbytes size))
  | _ => 0

def Attempt.isIdle : Attempt → Bool
  | .unavailable | .timeout => true
  | _ => false

/-- What the round leaves in `ret`. -/
def Attempt.ret (size : Nat) : Attempt → Int
  | .unavailable | .failed => -1
  | .timeout => 0
  | .room n fits => (Attempt.room n fits).takes size

/-- A round that ends the call whatever was before. -/
def Attempt.Last (size : Nat) (a : Attempt) : Prop :=
  a.isIdle = false ∧ (a.takes size = 0 ∨ (a.takes size : Int) = nbytes size)

section
variable (size : Nat) (port : Nat → Attempt)

/-- The bytes that the socket takes before a round. -/
def taken (t : Nat) : Nat := ∑ i ∈ Finset.range t, (port i).takes size

/-- The rounds without a write. -/
def idles (t : Nat) : Nat := ∑ i ∈ Finset.range t, (port i).isIdle.toNat

/-- The call comes to this round. -/
def Open (t : Nat) : Prop := (∀ i < t, ¬ (port i).Last size) ∧ idles port t ≤ 1

/-- The call ends with this round. -/
def EndsAt (k : Nat) : Prop := Open size port k ∧ ¬ Open size port (k + 1)

end

/-- Either nothing is to be sent, and the last outcome is no error; or the descriptor is not
used, or all that the socket takes before the call ends is less than the buffer, or its only
bytes are the whole buffer. -/
def Met (sockfd : Int) (size : Nat) (port : Nat → Attempt) : Prop :=
  if size = 0 then
    2 < sockfd ∧ ∃ k, EndsAt size port k ∧ port k ≠ .unavailable ∧ port k ≠ .failed
  else
    sockfd ≤ 2 ∨ ∃ k, EndsAt size port k ∧
      (taken size port (k + 1) < size ∨ taken size port k = 0 ∧ (port k).takes size = size)

section
variable {size : Nat} {port : Nat → Attempt}

theorem taken_succ (t : Nat) :
    taken size port (t + 1) = taken size port t + (port t).takes size :=
  Finset.sum_range_succ _ t

theorem idles_succ (t : Nat) : idles port (t + 1) = idles port t + (port t).isIdle.toNat :=
  Finset.sum_range_succ _ t

theorem taken_mono {t u : Nat} (h : t ≤ u) : taken size port t ≤ taken size port u :=
  Finset.sum_le_sum_of_subset (Finset.range_mono h)

theorem open_zero : Open size port 0 := ⟨fun _ hi => absurd hi (Nat.not_lt_zero _), Nat.zero_le _⟩

theorem open_succ_iff (t : Nat) :
    Open size port (t + 1) ↔
      Open size port t ∧ ¬ (port t).Last size ∧ idles port (t + 1) ≤ 1 := by
  have hle : idles port t ≤ idles port (t + 1) := by
    rw [idles_succ]
    exact Nat.le_add_right _ _
  constructor
  · rintro ⟨hlast, hidle⟩
    exact ⟨⟨fun i hi => hlast i (by omega), by omega⟩, hlast t (by omega), hidle⟩
  · rintro ⟨⟨hbefore, -⟩, hlast, hidle⟩
    refine ⟨fun i hi => ?_, hidle⟩
    rcases Nat.lt_succ_iff_lt_or_eq.mp hi with hlt | rfl
    · exact hbefore i hlt
    · exact hlast

/-- Every round but the retries sends something. -/
theorem le_taken {t : Nat} (h : Open size port t) : t ≤ taken size port t + idles port t := by
  induction t with
  | zero => exact Nat.zero_le _
  | succ t ih =>
    obtain ⟨hopen, hlast, -⟩ := (open_succ_iff t).mp h
    have hbefore := ih hopen
    rw [taken_succ, idles_succ]
    cases hi : (port t).isIdle with
    | true =>
      rw [Bool.toNat_true]
      omega
    | false =>
      have hpos : (port t).takes size ≠ 0 := fun h0 => hlast ⟨hi, .inl h0⟩
      rw [Bool.toNat_false]
      omega

/-- A call that does not come to every round ends with one. -/
theorem exists_endsAt {t : Nat} (h : ¬ Open size port t) : ∃ k < t, EndsAt size port k := by
  induction t with
  | zero => exact absurd open_zero h
  | succ t ih =>
    by_cases ht : Open size port t
    · exact ⟨t, Nat.lt_succ_self t, ht, h⟩
    · obtain ⟨k, hk, hend⟩ := ih ht
      exact ⟨k, hk.trans (Nat.lt_succ_self t), hend⟩

end

/-! ## What a call sends -/

section
variable {sockfd : Int} {mem : Nat → Byte} {size : Nat} {a : Attempt}
variable {retries bufptr : Nat} {ret : Int} {sent : List Byte}

theorem piece_add (mem : Nat → Byte) (p n m : Nat) :
    piece mem p n ++ piece mem (p + n) m = piece mem p (n + m) := by
  rw [piece, piece, piece, List.range_add, List.map_append, List.map_map]
  simp only [Function.comp_def, Nat.add_assoc]

theorem again_of_lt (h : 1 < retries) :
    again ⟨retries, bufptr, ret, sent⟩ = .loop ⟨retries - 1, bufptr, ret, sent⟩ :=
  if_pos h

theorem again_of_le (h : retries ≤ 1) :
    again ⟨retries, bufptr, ret, sent⟩ = .returned ret sent :=
  if_neg (not_lt.mpr h)

theorem takes_idle (h : a.isIdle = true) : a.takes size = 0 := by
  cases a with
  | unavailable => rfl
  | timeout => rfl
  | failed => rfl
  | room n fits => exact absurd h Bool.false_ne_true

theorem round_idle (hfd : 2 < sockfd) (h : a.isIdle = true) :
    round sockfd mem (nbytes size) a (.loop ⟨retries, bufptr, ret, sent⟩) =
      again ⟨retries, bufptr, a.ret size, sent⟩ := by
  cases a with
  | unavailable => rw [round, if_pos hfd]; rfl
  | timeout => rw [round, if_pos hfd]; rfl
  | failed => exact absurd h Bool.false_ne_true
  | room n fits => exact absurd h Bool.false_ne_true

theorem round_last (hfd : 2 < sockfd) (h : a.Last size) :
    round sockfd mem (nbytes size) a (.loop ⟨retries, bufptr, ret, sent⟩) =
      .returned (a.ret size) (sent ++ piece mem bufptr (a.takes size)) := by
  obtain ⟨hidle, hlast⟩ := h
  cases a with
  | unavailable => exact absurd hidle (by decide)
  | timeout => exact absurd hidle (by decide)
  | failed =>
    rw [round, if_pos hfd]
    exact congrArg (Call.returned (-1)) (List.append_nil _).symm
  | room n fits =>
    rw [round, if_pos hfd]
    rw [Attempt.takes] at hlast
    rw [Attempt.ret, Attempt.takes]
    dsimp only
    rcases hlast with h0 | hall
    · rw [if_pos h0, h0]
      rfl
    · split
      · next h0 => rw [h0]; rfl
      · rw [if_neg (not_not.mpr hall)]

theorem round_part (hfd : 2 < sockfd) (hidle : a.isIdle = false) (h : ¬ a.Last size) :
    round sockfd mem (nbytes size) a (.loop ⟨retries, bufptr, ret, sent⟩) =
      again ⟨retries + 1, bufptr + a.takes size, a.ret size,
        sent ++ piece mem bufptr (a.takes size)⟩ := by
  have hne := not_or.mp fun h' => h ⟨hidle, h'⟩
  cases a with
  | unavailable => exact absurd hidle (by decide)
  | timeout => exact absurd hidle (by decide)
  | failed => exact absurd rfl hne.1
  | room n fits =>
    rw [Attempt.takes] at hne
    rw [round, if_pos hfd, Attempt.ret, Attempt.takes]
    dsimp only
    rw [if_neg hne.1, if_pos hne.2]

end

section
variable {sockfd : Int} {buffer : List Byte} {beyond : Nat → Byte} {port : Nat → Attempt}

variable (beyond) in
/-- In front of an open round the socket has the bytes up to the pointer. -/
theorem writeNet_open (hfd : 2 < sockfd) {t : Nat} (h : Open buffer.length port t) :
    ∃ ret, writeNet sockfd buffer beyond port t =
      .loop ⟨2 - idles port t, taken buffer.length port t, ret,
        piece (memory buffer beyond) 0 (taken buffer.length port t)⟩ := by
  induction t with
  | zero => exact ⟨0, rfl⟩
  | succ t ih =>
    obtain ⟨hopen, hlast, hidle⟩ := (open_succ_iff t).mp h
    obtain ⟨ret, hloop⟩ := ih hopen
    refine ⟨(port t).ret buffer.length, ?_⟩
    rw [idles_succ] at hidle
    rw [writeNet, hloop, idles_succ, taken_succ]
    cases hi : (port t).isIdle with
    | true =>
      rw [hi, Bool.toNat_true] at hidle
      have h0 : idles port t = 0 := by omega
      rw [round_idle hfd hi, h0, again_of_lt (by decide), takes_idle hi]
      rfl
    | false =>
      have hle := hopen.2
      rw [round_part hfd hi hlast, again_of_lt (by omega), ← piece_add, Nat.zero_add]
      rfl

variable (beyond) in
theorem writeNet_endsAt (hfd : 2 < sockfd) {k : Nat} (h : EndsAt buffer.length port k) :
    writeNet sockfd buffer beyond port (k + 1) =
      .returned ((port k).ret buffer.length)
        (piece (memory buffer beyond) 0 (taken buffer.length port (k + 1))) := by
  obtain ⟨hopen, hend⟩ := h
  obtain ⟨ret, hloop⟩ := writeNet_open beyond hfd hopen
  rw [open_succ_iff, not_and, not_and] at hend
  rw [writeNet, hloop, taken_succ]
  by_cases hlast : (port k).Last buffer.length
  · rw [round_last hfd hlast, ← piece_add, Nat.zero_add]
  · have hidles := hend hopen hlast
    have hle := hopen.2
    rw [idles_succ] at hidles
    have hi : (port k).isIdle = true := by
      by_contra hne
      rw [Bool.not_eq_true] at hne
      rw [hne, Bool.toNat_false] at hidles
      omega
    rw [hi, Bool.toNat_true] at hidles
    rw [round_idle hfd hi, again_of_le (by omega), takes_idle hi]
    rfl

theorem writeNet_returned {t u : Nat} {ret : Int} {sent : List Byte}
    (h : writeNet sockfd buffer beyond port t = .returned ret sent) (hu : t ≤ u) :
    writeNet sockfd buffer beyond port u = .returned ret sent := by
  induction u, hu using Nat.le_induction with
  | base => exact h
  | succ u _ ih => rw [writeNet, ih, round]

theorem returned_unique {t u : Nat} {ret ret' : Int} {sent sent' : List Byte}
    (ht : writeNet sockfd buffer beyond port t = .returned ret sent)
    (hu : writeNet sockfd buffer beyond port u = .returned ret' sent') :
    ret = ret' ∧ sent = sent' := by
  rcases Nat.le_total t u with hle | hle
  · exact Call.returned.inj ((writeNet_returned ht hle).symm.trans hu)
  · exact Call.returned.inj (ht.symm.trans (writeNet_returned hu hle))

theorem writeNet_closed (hfd : sockfd ≤ 2) (t : Nat) :
    writeNet sockfd buffer beyond port (t + 1) = .returned (-1) [] := by
  have hone : writeNet sockfd buffer beyond port 1 = .returned (-1) [] :=
    if_neg (not_lt.mpr hfd)
  exact writeNet_returned hone (by omega)

/-! ## When the buffer is delivered -/

theorem piece_length (mem : Nat → Byte) (p n : Nat) : (piece mem p n).length = n := by
  rw [piece, List.length_map, List.length_range]

theorem piece_memory {n : Nat} (h : n ≤ buffer.length) :
    piece (memory buffer beyond) 0 n = buffer.take n := by
  apply List.ext_getElem
  · rw [piece_length, List.length_take, min_eq_left h]
  · intro i hi hi'
    have hlt : i < buffer.length := by
      rw [piece_length] at hi
      omega
    simp only [piece, List.getElem_map, List.getElem_range, Nat.zero_add, memory,
      List.getElem_take, List.getD_eq_getElem?_getD, List.getElem?_eq_getElem hlt,
      Option.getD_some]

variable (beyond) in
/-- Until the call ends the socket has no more than at its end. -/
theorem sent_le (hfd : 2 < sockfd) {k : Nat} (h : EndsAt buffer.length port k) (t : Nat) :
    ∃ n ≤ taken buffer.length port (k + 1),
      (writeNet sockfd buffer beyond port t).sent = piece (memory buffer beyond) 0 n := by
  by_cases ht : t ≤ k
  · have hopen : Open buffer.length port t := by
      induction ht using Nat.decreasingInduction with
      | of_succ j _ ih => exact ((open_succ_iff j).mp ih).1
      | self => exact h.1
    obtain ⟨ret, hloop⟩ := writeNet_open beyond hfd hopen
    exact ⟨_, taken_mono (show t ≤ k + 1 by omega), by rw [hloop, Call.sent]⟩
  · have hend := writeNet_returned (writeNet_endsAt beyond hfd h) (by omega : k + 1 ≤ t)
    exact ⟨_, le_rfl, by rw [hend, Call.sent]⟩

/-- On a usable descriptor all depends on the round in which the call ends. -/
theorem delivers_iff_endsAt (hfd : 2 < sockfd) :
    Delivers sockfd buffer beyond port ↔ ∃ k, EndsAt buffer.length port k ∧
      taken buffer.length port (k + 1) ≤ buffer.length ∧
      ((port k).ret buffer.length = buffer.length ↔
        taken buffer.length port (k + 1) = buffer.length) := by
  have hwhole : ∀ {n : Nat}, n ≤ buffer.length →
      (piece (memory buffer beyond) 0 n = buffer ↔ n = buffer.length) := by
    intro n hn
    rw [piece_memory hn, List.take_eq_self_iff]
    omega
  constructor
  · intro h
    obtain ⟨ret, sent, hret⟩ := h.ends
    have hclosed : ¬ Open buffer.length port (buffer.length + 2) := by
      intro hopen
      obtain ⟨ret', hloop⟩ := writeNet_open beyond hfd hopen
      rw [hloop] at hret
      exact absurd hret (by simp)
    obtain ⟨k, -, hend⟩ := exists_endsAt hclosed
    have hdone := writeNet_endsAt beyond hfd hend
    have hle : taken buffer.length port (k + 1) ≤ buffer.length := by
      have hpart := (h.part (k + 1)).length_le
      rwa [hdone, Call.sent, piece_length] at hpart
    exact ⟨k, hend, hle, (h.report _ _ _ hdone).trans (hwhole hle)⟩
  · rintro ⟨k, hend, hle, hreport⟩
    have hdone := writeNet_endsAt beyond hfd hend
    refine ⟨fun t => ?_, ?_, fun t ret sent ht => ?_⟩
    · obtain ⟨n, hn, hsent⟩ := sent_le beyond hfd hend t
      rw [hsent, piece_memory (by omega)]
      exact List.take_prefix _ _
    · have hk := le_taken hend.1
      have hidle := hend.1.2
      rw [taken_succ] at hle
      exact ⟨_, _, writeNet_returned hdone (show k + 1 ≤ buffer.length + 2 by omega)⟩
    · obtain ⟨rfl, rfl⟩ := returned_unique ht hdone
      rw [hwhole hle]
      exact hreport

theorem delivers_closed (hfd : sockfd ≤ 2) :
    Delivers sockfd buffer beyond port ↔ buffer ≠ [] := by
  constructor
  · rintro h rfl
    have hret := (h.report 1 _ _ (writeNet_closed hfd 0)).mpr rfl
    exact absurd hret (by decide)
  · intro hne
    refine ⟨fun t => ?_, ⟨_, _, writeNet_closed hfd _⟩, fun t ret sent ht => ?_⟩
    · cases t with
      | zero => exact List.nil_prefix
      | succ t =>
        rw [writeNet_closed hfd]
        exact List.nil_prefix
    · cases t with
      | zero => exact absurd ht (by simp [writeNet, again])
      | succ t =>
        rw [writeNet_closed hfd] at ht
        obtain ⟨rfl, rfl⟩ := Call.returned.inj ht
        exact iff_of_false (by omega) hne.symm

theorem ret_eq_size_iff {size : Nat} (hsize : size ≠ 0) (a : Attempt) :
    a.ret size = size ↔ a.takes size = size := by
  cases a with
  | unavailable => exact iff_of_false (by simp only [Attempt.ret]; omega) hsize.symm
  | timeout => exact iff_of_false (by simp only [Attempt.ret]; omega) hsize.symm
  | failed => exact iff_of_false (by simp only [Attempt.ret]; omega) hsize.symm
  | room n fits => exact Int.ofNat_inj

theorem takes_zero (a : Attempt) : a.takes 0 = 0 := by
  cases a with
  | unavailable => rfl
  | timeout => rfl
  | failed => rfl
  | room n fits => exact Nat.min_zero n

theorem ret_zero_iff (a : Attempt) : a.ret 0 = 0 ↔ a ≠ .unavailable ∧ a ≠ .failed := by
  cases a with
  | unavailable => simp [Attempt.ret]
  | timeout => simp [Attempt.ret]
  | failed => simp [Attempt.ret]
  | room n fits =>
    rw [Attempt.ret, takes_zero]
    simp

end

/-- The buffer is delivered exactly if the socket takes it in one piece, or the call ends
before the sizes of the pieces add up to it. -/
theorem delivers_iff (sockfd : Int) (buffer : List Byte) (beyond : Nat → Byte)
    (port : Nat → Attempt) :
    Delivers sockfd buffer beyond port ↔ Met sockfd buffer.length port := by
  unfold Met
  by_cases hfd : 2 < sockfd
  · rw [delivers_iff_endsAt hfd]
    split
    · next h0 =>
      rw [h0, and_iff_right hfd]
      refine exists_congr fun k => and_congr_right fun _ => ?_
      have hnone : taken 0 port (k + 1) = 0 := Finset.sum_eq_zero fun i _ => takes_zero _
      rw [hnone, ← ret_zero_iff]
      simp
    · next h0 =>
      rw [or_iff_right (not_le.mpr hfd)]
      refine exists_congr fun k => and_congr_right fun _ => ?_
      rw [ret_eq_size_iff h0, taken_succ]
      omega
  · rw [delivers_closed (not_lt.mp hfd)]
    split
    · next h0 => exact iff_of_false (not_not.mpr (List.length_eq_zero_iff.mp h0)) fun h => hfd h.1
    · next h0 => exact iff_of_true (fun he => h0 (by rw [he]; rfl)) (.inl (not_lt.mp hfd))

/-- The socket takes two bytes and then, from the third, three more. -/
def slowPort : Nat → Attempt
  | 0 => .room 2 (by decide)
  | _ => .room 3 (by decide)

/-- The second write goes on behind the buffer, and the call reports its size. -/
theorem slowPort_overruns :
    ¬ ∀ sockfd buffer beyond port, Delivers sockfd buffer beyond port := by
  intro h
  have hpart := (h 3 (bytes "foo") (fun _ => NUL) slowPort).part 2
  exact absurd hpart (by decide)

end PowerGuru.Net.TcpipWriting
