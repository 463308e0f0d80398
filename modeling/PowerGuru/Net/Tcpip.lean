import PowerGuru.Common
import PowerGuru.Lib.Bytes

/-!
# `Tcpip::anydata`

Packet buffers are taken to be large enough. A pointer into the read buffer is the list
of bytes from there to the end of the buffer, so `strlen` past the end is a fault.
-/
namespace PowerGuru.Net.Tcpip

open Lib.Bytes Common

def INBUF : Nat := 2048

def langle : Byte := 60

/-- What `select` and `read` report in one round of the retry loop. -/
inductive Attempt where
  /-- `EINTR` or `EAGAIN` from `select`. -/
  | interrupted
  | timeout
  | unavailable
  /-- Ready, but not the descriptor that is read. -/
  | otherFd
  /-- `EAGAIN` from `read`. -/
  | again
  | failed
  | closed
  | data (bs : List Byte) (nonempty : bs ≠ []) (fits : bs.length ≤ INBUF - 2)

inductive Fault where
  /-- A string function ran past the end of the read buffer. -/
  | pastEnd
  deriving DecidableEq, Repr

/-- The caller's vector and the static `leftover`. -/
structure State where
  msgs : List (List Byte)
  leftover : Option (List Byte)

/-- The buffer after `memset` and `read`. -/
def buffer (bs : List Byte) : List Byte := bs ++ List.replicate (INBUF - bs.length) NUL

/-- The while loop: what it pushes and where it leaves `ptr`. The leftover is put in front
of the first string, after which the pointer moves one byte too far. -/
def splitPackets (leftover : Option (List Byte)) (ptr : List Byte) (msgs : List (List Byte)) :
    Except Fault (List (List Byte) × List Byte) :=
  match _h : strlen ptr with
  | none => .error .pastEnd
  | some cr =>
      match leftover with
      | some l =>
          let packet := l ++ cstr ptr
          if packet.head? = some langle then
            splitPackets none (ptr.drop (cr + 2)) (msgs ++ [cutAtLast LF packet])
          else .ok (msgs, ptr.drop (cr + 2))
      | none =>
          let packet := cstr ptr
          if packet.head? = some langle then
            splitPackets none (ptr.drop (cr + 1)) (msgs ++ [cutAtLast LF packet])
          else .ok (msgs, ptr.drop (cr + 1))
termination_by ptr.length
decreasing_by
  · have hl := lt_length_of_strlen _h
    rw [List.length_drop]
    omega
  · have hl := lt_length_of_strlen _h
    rw [List.length_drop]
    omega

/-- A string left at `ptr` is kept for the next call. -/
def finish (msgs : List (List Byte)) (ptr : List Byte) : Except Fault (Retcode × State) :=
  match strlen ptr with
  | none => .error .pastEnd
  | some n =>
      .ok (if msgs = [] then .error else .success, ⟨msgs, if 0 < n then some (cstr ptr) else none⟩)

/-- What a call does with the bytes it read. A buffer with one string that ends at the last
byte read takes the short way and leaves the leftover alone. -/
def process (st : State) (bs : List Byte) : Except Fault (Retcode × State) :=
  let buf := buffer bs
  match strlen buf with
  | none => .error .pastEnd
  | some cr =>
      if bs.length = cr + 1 then
        .ok (.success, { st with msgs := st.msgs ++ [cutAtLast LF (cstr buf)] })
      else do
        let (msgs, ptr) ← splitPackets st.leftover buf st.msgs
        finish msgs ptr

/-- The retry loop. -/
def await (st : State) : Nat → (Nat → Attempt) → Except Fault (Retcode × State)
  | 0, _ => .ok (.success, st)
  | retries + 1, port =>
      match port 0 with
      | .interrupted | .again => await st retries fun i => port (i + 1)
      | .timeout => .ok (.success, st)
      | .unavailable | .otherFd | .failed | .closed => .ok (.error, st)
      | .data bs _ _ => process st bs

def anydata (fd : Int) (st : State) (port : Nat → Attempt) : Except Fault (Retcode × State) :=
  if fd ≤ 0 then .ok (.error, st) else await st 10 port

/-- The bytes a call reads, if it comes to a read. -/
def delivered (fd : Int) (port : Nat → Attempt) : Option (List Byte) :=
  if fd ≤ 0 then none else go 10 port
where
  go : Nat → (Nat → Attempt) → Option (List Byte)
    | 0, _ => none
    | retries + 1, port =>
        match port 0 with
        | .interrupted | .again => go retries fun i => port (i + 1)
        | .data bs _ _ => some bs
        | _ => none

/-! ## What a call does -/

theorem await_eq (st : State) (retries : Nat) (port : Nat → Attempt) :
    match delivered.go retries port with
    | some bs => await st retries port = process st bs
    | none => ∃ ret, await st retries port = .ok (ret, st) := by
  induction retries generalizing port with
  | zero => exact ⟨.success, rfl⟩
  | succ retries ih =>
    cases hp : port 0 with
    | interrupted => simpa only [delivered.go, await, hp] using ih fun i => port (i + 1)
    | again => simpa only [delivered.go, await, hp] using ih fun i => port (i + 1)
    | timeout => simp only [delivered.go, await, hp]; exact ⟨.success, rfl⟩
    | unavailable => simp only [delivered.go, await, hp]; exact ⟨.error, rfl⟩
    | otherFd => simp only [delivered.go, await, hp]; exact ⟨.error, rfl⟩
    | failed => simp only [delivered.go, await, hp]; exact ⟨.error, rfl⟩
    | closed => simp only [delivered.go, await, hp]; exact ⟨.error, rfl⟩
    | data bs hne hf => simp only [delivered.go, await, hp]

/-- A call processes what it reads, and one that reads nothing changes nothing. -/
theorem anydata_some {fd : Int} {port : Nat → Attempt} {bs : List Byte} (st : State)
    (h : delivered fd port = some bs) : anydata fd st port = process st bs := by
  by_cases hfd : fd ≤ 0
  · rw [delivered, if_pos hfd] at h
    exact absurd h (by simp)
  · rw [delivered, if_neg hfd] at h
    have ha := await_eq st 10 port
    rw [h] at ha
    rw [anydata, if_neg hfd, ha]

theorem anydata_none {fd : Int} {port : Nat → Attempt} (st : State)
    (h : delivered fd port = none) : ∃ ret, anydata fd st port = .ok (ret, st) := by
  by_cases hfd : fd ≤ 0
  · exact ⟨.error, if_pos hfd⟩
  · rw [delivered, if_neg hfd] at h
    have ha := await_eq st 10 port
    rw [h] at ha
    obtain ⟨ret, hret⟩ := ha
    exact ⟨ret, by rw [anydata, if_neg hfd, hret]⟩

theorem go_fits {retries : Nat} {port : Nat → Attempt} {bs : List Byte}
    (h : delivered.go retries port = some bs) : bs ≠ [] ∧ bs.length ≤ INBUF - 2 := by
  induction retries generalizing port with
  | zero => exact absurd h (by simp [delivered.go])
  | succ retries ih =>
    cases hp : port 0 with
    | interrupted => rw [delivered.go, hp] at h; exact ih h
    | again => rw [delivered.go, hp] at h; exact ih h
    | timeout => rw [delivered.go, hp] at h; exact absurd h (by simp)
    | unavailable => rw [delivered.go, hp] at h; exact absurd h (by simp)
    | otherFd => rw [delivered.go, hp] at h; exact absurd h (by simp)
    | failed => rw [delivered.go, hp] at h; exact absurd h (by simp)
    | closed => rw [delivered.go, hp] at h; exact absurd h (by simp)
    | data bs' hne hf =>
      rw [delivered.go, hp] at h
      rw [← Option.some.inj h]
      exact ⟨hne, hf⟩

theorem delivered_fits {fd : Int} {port : Nat → Attempt} {bs : List Byte}
    (h : delivered fd port = some bs) : bs ≠ [] ∧ bs.length ≤ INBUF - 2 := by
  by_cases hfd : fd ≤ 0
  · rw [delivered, if_pos hfd] at h
    exact absurd h (by simp)
  · rw [delivered, if_neg hfd] at h
    exact go_fits h

/-! ## The loop, one string at a time -/

def zeros (k : Nat) : List Byte := List.replicate k NUL

theorem buffer_eq {bs : List Byte} (h : bs.length ≤ INBUF - 2) :
    ∃ k, buffer bs = bs ++ NUL :: NUL :: zeros k := by
  refine ⟨INBUF - bs.length - 2, ?_⟩
  have hk : INBUF - bs.length = INBUF - bs.length - 2 + 1 + 1 := by
    simp only [INBUF] at h ⊢
    omega
  rw [buffer, hk, List.replicate_succ, List.replicate_succ]
  rfl

section
variable {s rest : List Byte} {msgs : List (List Byte)}

theorem split_push (hn : NUL ∉ s) (hs : s.head? = some langle) :
    splitPackets none (s ++ NUL :: rest) msgs =
      splitPackets none rest (msgs ++ [cutAtLast LF s]) := by
  have hd : (s ++ NUL :: rest).drop (s.length + 1) = rest := by simp
  rw [splitPackets, strlen_append_nul rest hn]
  simp only [cstr_append_nul rest hn, hs, if_true, hd]

/-- The byte after the NUL is skipped. -/
theorem split_leftover {l : List Byte} (hn : NUL ∉ s) (hl : (l ++ s).head? = some langle) :
    splitPackets (some l) (s ++ NUL :: rest) msgs =
      splitPackets none rest.tail (msgs ++ [cutAtLast LF (l ++ s)]) := by
  have hd : (s ++ NUL :: rest).drop (s.length + 2) = rest.tail := by simp [List.drop_append]
  rw [splitPackets, strlen_append_nul rest hn]
  simp only [cstr_append_nul rest hn, hl, if_true, hd]

theorem split_stop (hn : NUL ∉ s) (hs : s.head? ≠ some langle) :
    splitPackets none (s ++ NUL :: rest) msgs = .ok (msgs, rest) := by
  have hd : (s ++ NUL :: rest).drop (s.length + 1) = rest := by simp
  rw [splitPackets, strlen_append_nul rest hn]
  simp only [cstr_append_nul rest hn, hs, if_false, hd]

/-- Behind the last string the loop stops and nothing is left over. -/
theorem split_zeros (k : Nat) {ret : Retcode} {st : State}
    (h : (splitPackets none (zeros k) msgs >>= fun r => finish r.1 r.2) = .ok (ret, st)) :
    st = ⟨msgs, none⟩ := by
  cases k with
  | zero =>
    rw [zeros, List.replicate_zero, splitPackets] at h
    exact absurd h (by simp [strlen, bind, Except.bind])
  | succ k =>
    have hz : zeros (k + 1) = [] ++ NUL :: zeros k := rfl
    rw [hz, split_stop List.not_mem_nil (by simp)] at h
    cases k with
    | zero => exact absurd h (by simp [zeros, finish, strlen, bind, Except.bind])
    | succ k =>
      have hz' : zeros (k + 1) = [] ++ NUL :: zeros k := rfl
      rw [bind_ok_iff] at h
      obtain ⟨r, hr, h⟩ := h
      rw [← Except.ok.inj hr, hz', finish, strlen_append_nul _ List.not_mem_nil] at h
      exact (Prod.mk.inj (Except.ok.inj h)).2.symm

theorem split_zeros_ok (k : Nat) :
    ∃ ret, (splitPackets none (zeros (k + 2)) msgs >>= fun r => finish r.1 r.2) =
      .ok (ret, ⟨msgs, none⟩) := by
  have hz : zeros (k + 2) = [] ++ NUL :: zeros (k + 1) := rfl
  have hz' : zeros (k + 1) = [] ++ NUL :: zeros k := rfl
  rw [hz, split_stop List.not_mem_nil (by simp)]
  refine ⟨if msgs = [] then .error else .success, ?_⟩
  change finish msgs (zeros (k + 1)) = _
  rw [hz', finish, strlen_append_nul _ List.not_mem_nil]
  rfl

end

/-! ## One read -/

/-- One string with its NUL is pushed, whatever is left over. -/
theorem process_single (st : State) {s : List Byte} (hn : NUL ∉ s) :
    process st (s ++ [NUL]) = .ok (.success, { st with msgs := st.msgs ++ [cutAtLast LF s] }) := by
  have hb : buffer (s ++ [NUL]) = s ++ NUL :: List.replicate (INBUF - (s ++ [NUL]).length) NUL := by
    rw [buffer, List.append_assoc]
    rfl
  simp only [process, hb, strlen_append_nul _ hn, cstr_append_nul _ hn, List.length_append,
    List.length_singleton, if_true]

theorem process_loop (st : State) {bs : List Byte} (hf : bs.length ≤ INBUF - 2)
    (h : ∀ s, NUL ∉ s → bs ≠ s ++ [NUL]) :
    process st bs = splitPackets st.leftover (buffer bs) st.msgs >>= fun r => finish r.1 r.2 := by
  obtain ⟨k, hk⟩ := buffer_eq hf
  have hm : NUL ∈ buffer bs := by rw [hk]; simp
  have hc : bs.length ≠ (cstr (buffer bs)).length + 1 := by
    intro he
    obtain ⟨t, ht⟩ := eq_cstr_append hm
    refine h (cstr (buffer bs)) (nul_not_mem_cstr _) ?_
    have happ : bs ++ NUL :: NUL :: zeros k = (cstr (buffer bs) ++ [NUL]) ++ t := by
      rw [← hk, List.append_assoc]
      exact ht
    exact (List.append_inj happ (by simpa using he)).1
  rw [process]
  simp only [strlen, if_pos hm, if_neg hc]

end PowerGuru.Net.Tcpip
