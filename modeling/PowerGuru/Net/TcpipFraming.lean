import Mathlib.Data.List.Basic
import PowerGuru.Net.Tcpip

/-!
# Messages over arbitrary reads

A stream of messages, each behind a `<` and in front of "\n\0", divided into reads. The
messages come out right exactly when no read ends inside one.
-/
namespace PowerGuru.Net.TcpipFraming

open Lib.Bytes Common Tcpip

structure Message where
  text : List Byte
  marked : text.head? = some langle := by decide
  no_nul : NUL ∉ text := by decide

/-- A message on the wire. -/
def Message.line (m : Message) : List Byte := m.text ++ [LF]

def stream : List Message → List Byte
  | [] => []
  | m :: ms => m.line ++ NUL :: stream ms

def texts (ms : List Message) : List (List Byte) := ms.map Message.text

/-- Successive calls on one socket. -/
def session (fd : Int) : State → List (Nat → Attempt) → Except Fault State
  | st, [] => .ok st
  | st, port :: calls => do
      let r ← anydata fd st port
      session fd r.2 calls

/-- The calls push exactly the messages. -/
def Framed (fd : Int) (ms : List Message) (calls : List (Nat → Attempt)) : Prop :=
  ∃ st, session fd ⟨[], none⟩ calls = .ok st ∧ st.msgs = texts ms

/-- What the calls read. -/
def reads (fd : Int) (calls : List (Nat → Attempt)) : List (List Byte) :=
  calls.filterMap (delivered fd)

/-- The same session, from the bytes of each read. -/
def feed : State → List (List Byte) → Except Fault State
  | st, [] => .ok st
  | st, bs :: rs => do
      let r ← process st bs
      feed r.2 rs

theorem session_eq (fd : Int) (st : State) (calls : List (Nat → Attempt)) :
    session fd st calls = feed st (reads fd calls) := by
  induction calls generalizing st with
  | nil => rfl
  | cons port calls ih =>
    cases hd : delivered fd port with
    | none =>
      obtain ⟨ret, hret⟩ := anydata_none st hd
      rw [session, hret, reads, List.filterMap_cons_none hd]
      exact ih st
    | some bs =>
      rw [session, anydata_some st hd, reads, List.filterMap_cons_some hd, feed]
      congr 1
      funext r
      exact ih r.2

/-! ## Messages and their lines -/

theorem Message.text_ne_nil (m : Message) : m.text ≠ [] := by
  intro h
  have hm := m.marked
  rw [h] at hm
  exact absurd hm (by simp)

theorem Message.nul_not_mem_line (m : Message) : NUL ∉ m.line := by
  rw [line, List.mem_append, not_or]
  exact ⟨m.no_nul, by decide⟩

theorem Message.head_line (m : Message) : m.line.head? = some langle := by
  rw [line, List.head?_append_of_ne_nil _ m.text_ne_nil]
  exact m.marked

theorem Message.cut_line (m : Message) : cutAtLast LF m.line = m.text :=
  cutAtLast_append LF m.text List.not_mem_nil

theorem head_stream {q rest : List Byte} {ms : List Message} (h : q ++ rest = stream ms)
    (hq : q ≠ []) : q.head? = some langle := by
  cases ms with
  | nil => exact absurd (List.append_eq_nil_iff.mp h).1 hq
  | cons m ms =>
    have hh := congrArg List.head? h
    rw [List.head?_append_of_ne_nil _ hq, stream,
      List.head?_append_of_ne_nil _ (by simp [Message.line])] at hh
    rw [hh, m.head_line]

/-- A read ends behind a message, or inside one. -/
theorem cut_stream {r rest : List Byte} {ms : List Message} (h : r ++ rest = stream ms) :
    (∃ as bs, ms = as ++ bs ∧ r = stream as ∧ rest = stream bs) ∨
      ∃ as m bs p t, ms = as ++ m :: bs ∧ r = stream as ++ p ∧ p ≠ [] ∧ p ++ t = m.line ∧
        rest = t ++ NUL :: stream bs := by
  induction ms generalizing r with
  | nil =>
    obtain ⟨rfl, rfl⟩ := List.append_eq_nil_iff.mp h
    exact Or.inl ⟨[], [], rfl, rfl, rfl⟩
  | cons m ms ih =>
    by_cases hr : r = []
    · rw [hr, List.nil_append] at h
      exact Or.inl ⟨[], m :: ms, rfl, hr, h⟩
    rw [stream, List.append_eq_append_iff] at h
    rcases h with ⟨t, ht, hrest⟩ | ⟨a, ha, hrest⟩
    · exact Or.inr ⟨[], m, ms, r, t, rfl, rfl, hr, ht.symm, hrest⟩
    · cases a with
      | nil =>
        rw [List.append_nil] at ha
        exact Or.inr ⟨[], m, ms, r, [], rfl, rfl, hr, by rw [List.append_nil, ha], hrest.symm⟩
      | cons x a =>
        obtain ⟨rfl, htail⟩ := List.cons.inj hrest
        rcases ih htail.symm with ⟨as, bs, rfl, rfl, rfl⟩ |
          ⟨as, m', bs, p, t, rfl, rfl, hp, ht, rfl⟩
        · exact Or.inl ⟨m :: as, bs, rfl, ha, rfl⟩
        · refine Or.inr ⟨m :: as, m', bs, p, t, rfl, ?_, hp, ht, rfl⟩
          rw [ha, stream, List.append_assoc, List.cons_append]

theorem nul_not_mem_left {m : Message} {p t : List Byte} (h : p ++ t = m.line) : NUL ∉ p := by
  intro hp
  refine m.nul_not_mem_line ?_
  rw [← h]
  exact List.mem_append_left t hp

theorem nul_not_mem_right {m : Message} {p t : List Byte} (h : p ++ t = m.line) : NUL ∉ t := by
  intro ht
  refine m.nul_not_mem_line ?_
  rw [← h]
  exact List.mem_append_right p ht

theorem head_left {m : Message} {p t : List Byte} (hp : p ≠ []) (h : p ++ t = m.line) :
    p.head? = some langle := by
  have hh := congrArg List.head? h
  rwa [List.head?_append_of_ne_nil _ hp, m.head_line] at hh

/-! ## Reads that end behind a message -/

/-- The loop over whole messages, and whatever follows them. -/
theorem split_stream (ms : List Message) (rest : List Byte) (msgs : List (List Byte)) :
    splitPackets none (stream ms ++ rest) msgs = splitPackets none rest (msgs ++ texts ms) := by
  induction ms generalizing msgs with
  | nil => simp [stream, texts]
  | cons m ms ih =>
    rw [stream, List.append_assoc, List.cons_append, split_push m.nul_not_mem_line m.head_line, ih,
      m.cut_line]
    simp [texts]

theorem not_single {s q : List Byte} (hq : q ≠ []) (t : List Byte) (ht : NUL ∉ t) :
    s ++ NUL :: q ≠ t ++ [NUL] := by
  intro h
  have hd := congrArg List.dropLast h
  rw [List.dropLast_append_of_ne_nil (by simp), List.dropLast_cons_of_ne_nil hq,
    List.dropLast_concat] at hd
  exact ht (hd ▸ by simp)

theorem process_whole (st : State) (hst : st.leftover = none) {ms : List Message} (hms : ms ≠ [])
    (hf : (stream ms).length ≤ INBUF - 2) :
    ∃ ret, process st (stream ms) = .ok (ret, ⟨st.msgs ++ texts ms, none⟩) := by
  obtain ⟨m, ms', rfl⟩ := List.exists_cons_of_ne_nil hms
  cases ms' with
  | nil =>
    refine ⟨.success, ?_⟩
    rw [stream, stream, process_single st m.nul_not_mem_line, m.cut_line, hst]
    rfl
  | cons m' ms' =>
    obtain ⟨k, hk⟩ := buffer_eq hf
    have hne : stream (m' :: ms') ≠ [] := by simp [stream]
    have hz : NUL :: NUL :: zeros k = zeros (k + 2) := rfl
    rw [process_loop st hf fun t ht => not_single hne t ht, hst, hk, split_stream, hz]
    exact split_zeros_ok k

/-! ## Bytes that get lost -/

/-- The message starts among some bytes. -/
def marks (bs : List Byte) : Nat := bs.count langle

def weight (msgs : List (List Byte)) : Nat := marks msgs.flatten

@[simp] theorem marks_append (as bs : List Byte) : marks (as ++ bs) = marks as + marks bs :=
  List.count_append

@[simp] theorem marks_nil : marks [] = 0 := rfl

@[simp] theorem weight_append (as bs : List (List Byte)) :
    weight (as ++ bs) = weight as + weight bs := by
  simp [weight]

@[simp] theorem weight_singleton (s : List Byte) : weight [s] = marks s := by simp [weight]

theorem marks_nul (bs : List Byte) : marks (NUL :: bs) = marks bs :=
  List.count_cons_of_ne (by decide)

theorem marks_zeros (k : Nat) : marks (zeros k) = 0 := by
  rw [marks, zeros, List.count_replicate, if_neg (by decide)]

theorem marks_head {bs : List Byte} (h : bs.head? = some langle) :
    marks bs = marks bs.tail + 1 := by
  cases bs with
  | nil => exact absurd h (by simp)
  | cons b bs =>
    rw [Option.some.inj h]
    exact List.count_cons_self

theorem marks_cut (s : List Byte) : marks (cutAtLast LF s) ≤ marks s :=
  (cutAtLast_initial LF s).sublist.count_le langle

theorem marks_drop (n : Nat) (bs : List Byte) : marks (bs.drop n) ≤ marks bs :=
  (List.drop_sublist n bs).count_le langle

theorem Message.marks_line (m : Message) : marks m.line = marks m.text := by
  rw [line, marks_append]
  rfl

theorem marks_stream (ms : List Message) : marks (stream ms) = weight (texts ms) := by
  induction ms with
  | nil => rfl
  | cons m ms ih =>
    have ht : texts (m :: ms) = [m.text] ++ texts ms := rfl
    rw [stream, marks_append, marks_nul, m.marks_line, ih, ht, weight_append, weight_singleton]

theorem marks_cstr {ptr : List Byte} {cr : Nat} (h : strlen ptr = some cr) :
    marks ptr = marks (cstr ptr) + marks (ptr.drop (cr + 1)) := by
  have hm : NUL ∈ ptr := by
    by_contra hm
    rw [strlen, if_neg hm] at h
    exact absurd h (by simp)
  obtain ⟨t, ht⟩ := eq_cstr_append hm
  rw [strlen, if_pos hm, Option.some.injEq] at h
  rw [← h]
  generalize cstr ptr = s at ht ⊢
  have hd : ptr.drop (s.length + 1) = t := by rw [ht]; simp
  rw [hd, ht, marks_append, marks_nul]

/-- What the loop has pushed and not yet passed was there before, and nothing pushed is
taken back. -/
theorem split_bounds {leftover : Option (List Byte)} {ptr : List Byte} {msgs : List (List Byte)}
    {r : List (List Byte) × List Byte} (h : splitPackets leftover ptr msgs = .ok r) :
    msgs <+: r.1 ∧
      weight r.1 + marks r.2 ≤ weight msgs + marks (leftover.getD []) + marks ptr := by
  fun_induction splitPackets leftover ptr msgs with
  | case1 => exact absurd h (by simp)
  | case2 ptr msgs cr hcr l packet hp ih =>
    obtain ⟨hpre, hle⟩ := ih h
    have hc := marks_cut packet
    have hpk : marks packet = marks l + marks (cstr ptr) := marks_append _ _
    have hm := marks_cstr hcr
    have hd : marks (ptr.drop (cr + 2)) ≤ marks (ptr.drop (cr + 1)) := by
      have hd := marks_drop 1 (ptr.drop (cr + 1))
      rwa [List.drop_drop] at hd
    rw [weight_append, weight_singleton] at hle
    refine ⟨(List.prefix_append _ _).trans hpre, ?_⟩
    simp only [Option.getD_none, marks_nil, Option.getD_some] at hle ⊢
    omega
  | case3 ptr msgs cr hcr l packet hp =>
    rw [← Except.ok.inj h]
    have hd := marks_drop (cr + 2) ptr
    refine ⟨List.prefix_rfl, ?_⟩
    simp only
    omega
  | case4 ptr msgs cr hcr packet hp ih =>
    obtain ⟨hpre, hle⟩ := ih h
    have hc := marks_cut packet
    have hpk : marks packet = marks (cstr ptr) := rfl
    have hm := marks_cstr hcr
    rw [weight_append, weight_singleton] at hle
    refine ⟨(List.prefix_append _ _).trans hpre, ?_⟩
    simp only [Option.getD_none, marks_nil] at hle ⊢
    omega
  | case5 ptr msgs cr hcr packet hp =>
    rw [← Except.ok.inj h]
    have hd := marks_drop (cr + 1) ptr
    refine ⟨List.prefix_rfl, ?_⟩
    simp only
    omega

theorem finish_bounds {msgs : List (List Byte)} {ptr : List Byte} {ret : Retcode} {st : State}
    (h : finish msgs ptr = .ok (ret, st)) :
    st.msgs = msgs ∧ marks (st.leftover.getD []) ≤ marks ptr := by
  rw [finish] at h
  cases hs : strlen ptr with
  | none => rw [hs] at h; exact absurd h (by simp)
  | some n =>
    rw [hs] at h
    have hst := (Prod.mk.inj (Except.ok.inj h)).2
    rw [← hst]
    refine ⟨rfl, ?_⟩
    have hm := marks_cstr hs
    by_cases hn : 0 < n
    · simp only [if_pos hn, Option.getD_some]
      omega
    · simp only [if_neg hn, Option.getD_none, marks_nil]
      omega

theorem loop_bounds {leftover : Option (List Byte)} {ptr : List Byte} {msgs : List (List Byte)}
    {ret : Retcode} {st : State}
    (h : (splitPackets leftover ptr msgs >>= fun r => finish r.1 r.2) = .ok (ret, st)) :
    msgs <+: st.msgs ∧ weight st.msgs + marks (st.leftover.getD []) ≤
      weight msgs + marks (leftover.getD []) + marks ptr := by
  obtain ⟨r, hr, hf⟩ := bind_ok_iff.mp h
  obtain ⟨hpre, hle⟩ := split_bounds hr
  obtain ⟨hm, hl⟩ := finish_bounds hf
  rw [hm]
  exact ⟨hpre, by omega⟩

theorem process_bounds {st st' : State} {bs : List Byte} {ret : Retcode}
    (hf : bs.length ≤ INBUF - 2) (h : process st bs = .ok (ret, st')) :
    st.msgs <+: st'.msgs ∧ weight st'.msgs + marks (st'.leftover.getD []) ≤
      weight st.msgs + marks (st.leftover.getD []) + marks bs := by
  by_cases hs : ∃ s, NUL ∉ s ∧ bs = s ++ [NUL]
  · obtain ⟨s, hn, rfl⟩ := hs
    rw [process_single st hn] at h
    have hc := marks_cut s
    rw [← (Prod.mk.inj (Except.ok.inj h)).2]
    refine ⟨List.prefix_append _ _, ?_⟩
    simp only [weight_append, weight_singleton, marks_append]
    omega
  · rw [process_loop st hf fun s hn he => hs ⟨s, hn, he⟩] at h
    obtain ⟨k, hk⟩ := buffer_eq hf
    have hb : marks (buffer bs) = marks bs := by
      rw [hk, marks_append, marks_nul, marks_nul, marks_zeros]
      rfl
    rw [← hb]
    exact loop_bounds h

/-! ## After a read that ends inside a message -/

/-- How a session stands to the stream after the first such read; `rest` is what is still
to come. From each of these the messages can no longer come out right. -/
inductive Broken (ms : List Message) (rest : List Byte) (st : State) : Prop
  /-- Something else was pushed. -/
  | strayed : ¬ st.msgs <+: texts ms → Broken ms rest st
  /-- A message start is neither pushed, nor left over, nor to come. -/
  | lost : weight st.msgs + marks (st.leftover.getD []) + marks rest < weight (texts ms) →
      Broken ms rest st
  /-- The message was pushed before the end of its line was read. -/
  | early (as : List Message) (m : Message) (bs : List Message) (t : List Byte) :
      ms = as ++ m :: bs → st = ⟨texts as ++ [m.text], none⟩ → t = [] ∨ t = [LF] →
      rest = t ++ NUL :: stream bs → Broken ms rest st
  /-- The first part of the line is left over. -/
  | kept (as : List Message) (m : Message) (bs : List Message) (p t : List Byte) :
      ms = as ++ m :: bs → st = ⟨texts as, some p⟩ → p ≠ [] → p ++ t = m.line →
      rest = t ++ NUL :: stream bs → Broken ms rest st
  /-- The whole line is left over. -/
  | owed (as : List Message) (m : Message) (bs : List Message) :
      ms = as ++ m :: bs → st = ⟨texts as, some m.line⟩ → rest = stream bs → Broken ms rest st

/-- A read and what follows it have the messages of their stream. -/
theorem marks_of_stream {q rest : List Byte} {bs : List Message} (h : q ++ rest = stream bs) :
    marks q + marks rest = weight (texts bs) := by
  rw [← marks_append, h, marks_stream]

theorem weight_texts_append (as bs : List Message) :
    weight (texts (as ++ bs)) = weight (texts as) + weight (texts bs) := by
  simp [texts]

theorem weight_texts_cons (m : Message) (bs : List Message) :
    weight (texts (m :: bs)) = marks m.text + weight (texts bs) := by
  have ht : texts (m :: bs) = [m.text] ++ texts bs := rfl
  rw [ht, weight_append, weight_singleton]

/-- Pushing anything but the next message strays. -/
theorem stray {as bs : List Message} {m : Message} {x : List Byte} {st : State}
    (hx : x ≠ m.text) (h : texts as ++ [x] <+: st.msgs) : ¬ st.msgs <+: texts (as ++ m :: bs) := by
  intro hp
  obtain ⟨u, hu⟩ := h.trans hp
  have ht : texts (as ++ m :: bs) = texts as ++ m.text :: texts bs := by simp [texts]
  rw [ht, List.append_assoc] at hu
  exact hx (List.cons.inj (List.append_cancel_left hu)).1

theorem stray_end {as : List Message} {x : List Byte} {st : State}
    (h : texts as ++ [x] <+: st.msgs) : ¬ st.msgs <+: texts as := by
  intro hp
  have hl := (h.trans hp).length_le
  rw [List.length_append, List.length_singleton] at hl
  omega

/-- A line pushed too early lacks at most its newline. -/
theorem early_rest {m : Message} {p t : List Byte} (h : p ++ t = m.line)
    (hc : cutAtLast LF p = m.text) : t = [] ∨ t = [LF] := by
  have hle := (cutAtLast_initial LF p).length_le
  rw [hc] at hle
  have hl := congrArg List.length h
  simp only [Message.line, List.length_append, List.length_singleton] at hl
  cases t with
  | nil => exact Or.inl rfl
  | cons x t =>
    right
    have ht : t = [] := by
      rw [← List.length_eq_zero_iff]
      rw [List.length_cons] at hl
      omega
    rw [ht] at h ⊢
    have happ : p ++ [x] = m.text ++ [LF] := h
    exact (List.append_inj' happ rfl).2

theorem not_closed {a p : List Byte} (hn : NUL ∉ p) (hp : p ≠ []) (s : List Byte) :
    a ++ p ≠ s ++ [NUL] := by
  intro h
  have hl := congrArg List.getLast? h
  rw [List.getLast?_append_of_ne_nil _ hp, List.getLast?_concat] at hl
  exact hn (List.mem_of_getLast? hl)

/-- Whole messages and the first part of one: the part is pushed as a message. -/
theorem process_inside {msgs : List (List Byte)} {as : List Message} {m : Message} {p t : List Byte}
    {ret : Retcode} {st' : State} (hp : p ≠ []) (ht : p ++ t = m.line)
    (hf : (stream as ++ p).length ≤ INBUF - 2)
    (h : process ⟨msgs, none⟩ (stream as ++ p) = .ok (ret, st')) :
    st' = ⟨msgs ++ texts as ++ [cutAtLast LF p], none⟩ := by
  have hn := nul_not_mem_left ht
  obtain ⟨k, hk⟩ := buffer_eq hf
  have hz : NUL :: zeros k = zeros (k + 1) := rfl
  rw [process_loop _ hf fun s _ => not_closed hn hp s, hk, List.append_assoc, split_stream,
    split_push hn (head_left hp ht), hz] at h
  exact split_zeros _ h

/-- A read without a NUL completes the leftover. -/
theorem process_open {msgs : List (List Byte)} {l r : List Byte} {ret : Retcode} {st' : State}
    (hl : l.head? = some langle) (hn : NUL ∉ r) (hr : r ≠ []) (hf : r.length ≤ INBUF - 2)
    (h : process ⟨msgs, some l⟩ r = .ok (ret, st')) :
    st' = ⟨msgs ++ [cutAtLast LF (l ++ r)], none⟩ := by
  obtain ⟨k, hk⟩ := buffer_eq hf
  have hhead : (l ++ r).head? = some langle := by
    rw [List.head?_append_of_ne_nil _ (by rintro rfl; exact absurd hl (by simp))]
    exact hl
  rw [process_loop _ hf fun s _ => not_closed (a := []) hn hr s, hk, split_leftover hn hhead] at h
  exact split_zeros _ h

/-- A read with something behind its first NUL: the first string completes the leftover, and
what follows is one byte short. -/
theorem process_past {msgs : List (List Byte)} {l s q : List Byte} {ret : Retcode} {st' : State}
    (hl : l.head? = some langle) (hn : NUL ∉ s) (hq : q.head? = some langle)
    (hf : (s ++ NUL :: q).length ≤ INBUF - 2)
    (h : process ⟨msgs, some l⟩ (s ++ NUL :: q) = .ok (ret, st')) :
    msgs ++ [cutAtLast LF (l ++ s)] <+: st'.msgs ∧
      weight st'.msgs + marks (st'.leftover.getD []) + 1 ≤
        weight msgs + marks (cutAtLast LF (l ++ s)) + marks q := by
  have hne : q ≠ [] := by rintro rfl; exact absurd hq (by simp)
  obtain ⟨k, hk⟩ := buffer_eq hf
  have hhead : (l ++ s).head? = some langle := by
    rw [List.head?_append_of_ne_nil _ (by rintro rfl; exact absurd hl (by simp))]
    exact hl
  have htail : (q ++ NUL :: NUL :: zeros k).tail = q.tail ++ NUL :: NUL :: zeros k :=
    List.tail_append_of_ne_nil hne
  rw [process_loop _ hf (not_single hne), hk, List.append_assoc, List.cons_append,
    split_leftover hn hhead, htail] at h
  obtain ⟨hpre, hle⟩ := loop_bounds h
  have hm := marks_head hq
  refine ⟨hpre, ?_⟩
  simp only [weight_append, weight_singleton, marks_append, marks_nul, marks_zeros,
    Option.getD_none, marks_nil] at hle
  omega

/-- A read ends before the NUL of the line it is in, or behind it. -/
theorem cut_line {r rest t : List Byte} {bs : List Message}
    (h : r ++ rest = t ++ NUL :: stream bs) :
    (∃ u, r ++ u = t ∧ rest = u ++ NUL :: stream bs) ∨
      ∃ q, r = t ++ NUL :: q ∧ q ++ rest = stream bs := by
  rcases List.append_eq_append_iff.mp h with ⟨u, hu, hrest⟩ | ⟨a, ha, hrest⟩
  · exact Or.inl ⟨u, hu.symm, hrest⟩
  cases a with
  | nil =>
    rw [List.append_nil] at ha
    exact Or.inl ⟨[], by rw [List.append_nil, ha], hrest.symm⟩
  | cons x q =>
    obtain ⟨rfl, hq⟩ := List.cons.inj hrest
    exact Or.inr ⟨q, ha, hq.symm⟩

/-- What is left of a line is shorter than its message, once its newline is cut. -/
theorem cut_right {m : Message} {p t : List Byte} (hp : p ≠ []) (h : p ++ t = m.line) :
    cutAtLast LF t ≠ m.text := by
  intro hc
  by_cases ht : t = []
  · rw [ht] at hc
    exact m.text_ne_nil hc.symm
  · have hlast := congrArg List.getLast? h
    rw [List.getLast?_append_of_ne_nil _ ht, Message.line, List.getLast?_concat] at hlast
    have hlt := cutAtLast_length_lt (List.mem_of_getLast? hlast)
    have hl := congrArg List.length h
    have hpos := List.length_pos_iff.mpr hp
    rw [hc] at hlt
    simp only [Message.line, List.length_append, List.length_singleton] at hl
    omega

theorem step_kept {as bs : List Message} {m : Message} {p t r rest : List Byte} {ret : Retcode}
    {st' : State} (hp : p ≠ []) (ht : p ++ t = m.line) (hrest : r ++ rest = t ++ NUL :: stream bs)
    (hr : r ≠ []) (hf : r.length ≤ INBUF - 2)
    (h : process ⟨texts as, some p⟩ r = .ok (ret, st')) : Broken (as ++ m :: bs) rest st' := by
  have hhead := head_left hp ht
  have hnt := nul_not_mem_right ht
  rcases cut_line hrest with ⟨u, hu, hrest⟩ | ⟨q, rfl, hq⟩
  · -- the line is completed as far as the read goes
    have hn : NUL ∉ r := fun hm => hnt (hu ▸ List.mem_append_left u hm)
    have hst := process_open hhead hn hr hf h
    have hline : (p ++ r) ++ u = m.line := by rw [List.append_assoc, hu, ht]
    by_cases hc : cutAtLast LF (p ++ r) = m.text
    · rw [hc] at hst
      exact .early as m bs u rfl hst (early_rest hline hc) hrest
    · exact .strayed (stray hc (hst ▸ List.prefix_rfl))
  by_cases hqn : q = []
  · -- the end of the line is pushed as a message of its own
    rw [hqn, process_single _ hnt] at h
    have hst := (Prod.mk.inj (Except.ok.inj h)).2
    exact .strayed (stray (cut_right hp ht) (hst ▸ List.prefix_rfl))
  · -- the message comes out, and the start of the next one is skipped
    obtain ⟨-, hle⟩ := process_past hhead hnt (head_stream hq hqn) hf h
    rw [ht, m.cut_line] at hle
    have hms := marks_of_stream hq
    refine .lost ?_
    rw [weight_texts_append, weight_texts_cons]
    omega

theorem finish_string {msgs : List (List Byte)} {s rest : List Byte} {ret : Retcode} {st : State}
    (hn : NUL ∉ s) (h : finish msgs (s ++ NUL :: rest) = .ok (ret, st)) :
    st = ⟨msgs, if s = [] then none else some s⟩ := by
  rw [finish, strlen_append_nul rest hn, cstr_append_nul rest hn] at h
  have hst := (Prod.mk.inj (Except.ok.inj h)).2
  by_cases hs : s = []
  · simpa [hs] using hst.symm
  · simpa [hs, List.length_pos_iff] using hst.symm

/-- A first string that is no message is thrown out, and the next one left over. -/
theorem process_thrown {msgs : List (List Byte)} {bs s rest : List Byte} {ret : Retcode}
    {st' : State} (next : List Byte) (hc : ∀ t, NUL ∉ t → bs ≠ t ++ [NUL])
    (hb : buffer bs = s ++ NUL :: (next ++ NUL :: rest))
    (hs : s.head? ≠ some langle) (hn : NUL ∉ s) (hnext : NUL ∉ next) (hf : bs.length ≤ INBUF - 2)
    (h : process ⟨msgs, none⟩ bs = .ok (ret, st')) :
    st' = ⟨msgs, if next = [] then none else some next⟩ := by
  rw [process_loop _ hf hc, hb, split_stop hn hs] at h
  exact finish_string hnext h

/-- A string that is no message is thrown out, and the start of the next message is left over
or lost. -/
theorem step_next {as bs : List Message} {t q rest : List Byte} {ret : Retcode} {st' : State}
    (hnt : NUL ∉ t) (hhead : t.head? ≠ some langle) (hqn : q ≠ []) (hq : q ++ rest = stream bs)
    (hf : (t ++ NUL :: q).length ≤ INBUF - 2)
    (h : process ⟨texts as, none⟩ (t ++ NUL :: q) = .ok (ret, st')) :
    Broken (as ++ bs) rest st' := by
  obtain ⟨k, hk⟩ := buffer_eq hf
  cases bs with
  | nil => exact absurd (List.append_eq_nil_iff.mp hq).1 hqn
  | cons m' bs =>
    rcases cut_line hq with ⟨u, hu, hrest⟩ | ⟨q', rfl, hq'⟩
    · have hn := nul_not_mem_left hu
      rw [List.append_assoc, List.cons_append] at hk
      have hst := process_thrown _ (not_single hqn) hk hhead hnt hn hf h
      rw [if_neg hqn] at hst
      exact .kept as m' bs q u rfl hst hqn hu hrest
    · rw [List.append_assoc, List.cons_append, List.append_assoc, List.cons_append] at hk
      have hst := process_thrown _ (not_single hqn) hk hhead hnt m'.nul_not_mem_line hf h
      rw [if_neg (by simp [Message.line])] at hst
      by_cases hqn' : q' = []
      · rw [hqn', List.nil_append] at hq'
        exact .owed as m' bs rfl hst hq'
      · have hm := marks_head (head_stream hq' hqn')
        have hms := marks_of_stream hq'
        refine .lost ?_
        rw [weight_texts_append, weight_texts_cons, hst]
        simp only [Option.getD_some, m'.marks_line]
        omega

theorem step_early {as bs : List Message} {m : Message} {t r rest : List Byte} {ret : Retcode}
    {st' : State} (ht : t = [] ∨ t = [LF]) (hrest : r ++ rest = t ++ NUL :: stream bs)
    (hr : r ≠ []) (hf : r.length ≤ INBUF - 2)
    (h : process ⟨texts as ++ [m.text], none⟩ r = .ok (ret, st')) :
    Broken (as ++ m :: bs) rest st' := by
  have hnt : NUL ∉ t := by rcases ht with rfl | rfl <;> decide
  have hhead : t.head? ≠ some langle := by rcases ht with rfl | rfl <;> decide
  have hcut : cutAtLast LF t = [] := by rcases ht with rfl | rfl <;> rfl
  have hms : texts as ++ [m.text] = texts (as ++ [m]) := by simp [texts]
  have happ : as ++ m :: bs = (as ++ [m]) ++ bs := by simp
  obtain ⟨k, hk⟩ := buffer_eq hf
  rcases cut_line hrest with ⟨u, hu, hrest⟩ | ⟨q, rfl, hq⟩
  · -- a lone newline changes nothing
    have hn : NUL ∉ r := fun hm => hnt (hu ▸ List.mem_append_left u hm)
    have hrt : r = [LF] ∧ u = [] := by
      rcases ht with rfl | rfl
      · exact absurd (List.append_eq_nil_iff.mp hu).1 hr
      · cases r with
        | nil => exact absurd rfl hr
        | cons x r =>
          obtain ⟨rfl, he⟩ := List.cons.inj hu
          obtain ⟨rfl, rfl⟩ := List.append_eq_nil_iff.mp he
          exact ⟨rfl, rfl⟩
    obtain ⟨rfl, rfl⟩ := hrt
    have hst := process_thrown [] (fun s _ => not_closed (a := []) hn hr s) hk (by decide)
      hn List.not_mem_nil hf h
    exact .early as m bs [] rfl hst (Or.inl rfl) hrest
  by_cases hqn : q = []
  · -- an empty message is pushed
    rw [hqn, process_single _ hnt, hcut, hms] at h
    have hst := (Prod.mk.inj (Except.ok.inj h)).2
    refine .strayed ?_
    rw [happ, ← hst]
    cases bs with
    | nil =>
      rw [List.append_nil]
      exact stray_end List.prefix_rfl
    | cons m' bs => exact stray m'.text_ne_nil.symm List.prefix_rfl
  · -- the next message is left over
    rw [hms] at h
    rw [happ]
    exact step_next hnt hhead hqn hq hf h

theorem step_owed {as bs : List Message} {m : Message} {r rest : List Byte} {ret : Retcode}
    {st' : State} (hrest : r ++ rest = stream bs) (hr : r ≠ []) (hf : r.length ≤ INBUF - 2)
    (h : process ⟨texts as, some m.line⟩ r = .ok (ret, st')) : Broken (as ++ m :: bs) rest st' := by
  have hlong : ∀ s, m.line ++ s ≠ m.text := by
    intro s he
    have hl := congrArg List.length he
    simp only [Message.line, List.length_append, List.length_singleton] at hl
    omega
  have hhead := head_stream hrest hr
  cases bs with
  | nil => exact absurd (List.append_eq_nil_iff.mp hrest).1 hr
  | cons m' bs =>
    rcases cut_line hrest with ⟨u, hu, hrest'⟩ | ⟨q, rfl, hq⟩
    · have hst := process_open m.head_line (nul_not_mem_left hu) hr hf h
      by_cases hl : LF ∈ r
      · rw [cutAtLast_append_mem m.line hl] at hst
        exact .strayed (stray (hlong (cutAtLast LF r)) (hst ▸ List.prefix_rfl))
      · -- the message comes out, and the start of the next one is cut off with its newline
        have hcut : cutAtLast LF (m.line ++ r) = m.text := by
          rw [Message.line, List.append_assoc]
          exact cutAtLast_append LF m.text hl
        have hm := marks_head hhead
        have hms := marks_of_stream hrest
        refine .lost ?_
        rw [weight_texts_append, weight_texts_cons, hst, hcut, weight_append, weight_singleton]
        simp only [Option.getD_none, marks_nil]
        omega
    by_cases hqn : q = []
    · -- the next message overtakes the one left over
      rw [hqn, process_single _ m'.nul_not_mem_line, m'.cut_line] at h
      rw [hqn, List.nil_append] at hq
      have hst := (Prod.mk.inj (Except.ok.inj h)).2
      by_cases he : m'.text = m.text
      · refine .owed (as ++ [m]) m' bs (by simp) ?_ hq
        rw [← hst, Message.line, Message.line, he]
        simp [texts]
      · exact .strayed (stray he (hst ▸ List.prefix_rfl))
    · obtain ⟨hpre, -⟩ := process_past m.head_line m'.nul_not_mem_line (head_stream hq hqn) hf h
      have hl : LF ∈ m'.line := by simp [Message.line]
      rw [cutAtLast_append_mem m.line hl] at hpre
      exact .strayed (stray (hlong _) hpre)

/-- A broken session stays broken. -/
theorem step_broken {ms : List Message} {r rest : List Byte} {st st' : State} {ret : Retcode}
    (hb : Broken ms (r ++ rest) st) (hr : r ≠ []) (hf : r.length ≤ INBUF - 2)
    (h : process st r = .ok (ret, st')) : Broken ms rest st' := by
  obtain ⟨hpre, hle⟩ := process_bounds hf h
  cases hb with
  | strayed hs => exact .strayed fun hp => hs (hpre.trans hp)
  | lost hl =>
    rw [marks_append] at hl
    exact .lost (by omega)
  | early as m bs t hms hst ht hrest =>
    rw [hms]
    rw [hst] at h
    exact step_early ht hrest hr hf h
  | kept as m bs p t hms hst hp ht hrest =>
    rw [hms]
    rw [hst] at h
    exact step_kept hp ht hrest hr hf h
  | owed as m bs hms hst hrest =>
    rw [hms]
    rw [hst] at h
    exact step_owed hrest hr hf h

theorem broken_end {ms : List Message} {st : State} (hb : Broken ms [] st) :
    st.msgs ≠ texts ms := by
  intro he
  cases hb with
  | strayed hs => exact hs (he ▸ List.prefix_rfl)
  | lost hl =>
    rw [he] at hl
    omega
  | early as m bs t hms hst ht hrest => exact absurd hrest (by simp)
  | kept as m bs p t hms hst hp ht hrest => exact absurd hrest (by simp)
  | owed as m bs hms hst hrest =>
    rw [hst, hms] at he
    have hl := congrArg List.length he
    simp [texts] at hl

theorem feed_broken {ms : List Message} {rs : List (List Byte)} {st st' : State}
    (hb : Broken ms rs.flatten st) (hf : ∀ r ∈ rs, r ≠ [] ∧ r.length ≤ INBUF - 2)
    (h : feed st rs = .ok st') : st'.msgs ≠ texts ms := by
  induction rs generalizing st with
  | nil =>
    rw [← Except.ok.inj h]
    exact broken_end hb
  | cons r rs ih =>
    obtain ⟨x, hx, hrest⟩ := bind_ok_iff.mp h
    obtain ⟨hr, hfit⟩ := hf r List.mem_cons_self
    exact ih (step_broken hb hr hfit hx) (fun r' hr' => hf r' (List.mem_cons_of_mem r hr')) hrest

/-! ## Sessions -/

theorem getLast_stream {ms : List Message} (h : ms ≠ []) : (stream ms).getLast? = some NUL := by
  induction ms with
  | nil => exact absurd rfl h
  | cons m ms ih =>
    rw [stream, List.getLast?_append_of_ne_nil _ (List.cons_ne_nil _ _)]
    by_cases hms : ms = []
    · rw [hms]
      rfl
    · have hs : stream ms ≠ [] := by
        obtain ⟨m', ms', rfl⟩ := List.exists_cons_of_ne_nil hms
        simp [stream]
      rw [List.getLast?_cons_of_ne_nil hs]
      exact ih hms

/-- From a session that is in step with the stream. -/
theorem feed_framed_iff (done todo : List Message) {rs : List (List Byte)}
    (hf : ∀ r ∈ rs, r ≠ [] ∧ r.length ≤ INBUF - 2) (hrs : rs.flatten = stream todo) :
    (∃ st, feed ⟨texts done, none⟩ rs = .ok st ∧ st.msgs = texts (done ++ todo)) ↔
      ∀ r ∈ rs, r.getLast? = some NUL := by
  induction rs generalizing done todo with
  | nil =>
    have ht : todo = [] := by
      cases todo with
      | nil => rfl
      | cons m ms => exact absurd hrs.symm (by simp [stream])
    refine iff_of_true ⟨_, rfl, ?_⟩ (fun r hr => absurd hr List.not_mem_nil)
    rw [ht, List.append_nil]
  | cons r rs ih =>
    obtain ⟨hr, hfit⟩ := hf r List.mem_cons_self
    have hf' := fun r' hr' => hf r' (List.mem_cons_of_mem r hr')
    rw [List.flatten_cons] at hrs
    rcases cut_stream hrs with ⟨as, bs, rfl, rfl, hrest⟩ |
      ⟨as, m, bs, p, t, rfl, rfl, hp, ht, hrest⟩
    · -- the read ends behind a message, and the rest of the session is one of the same kind
      have has : as ≠ [] := by rintro rfl; exact hr rfl
      obtain ⟨ret, hret⟩ := process_whole ⟨texts done, none⟩ rfl has hfit
      have hst : texts done ++ texts as = texts (done ++ as) := by simp [texts]
      rw [feed, hret, List.forall_mem_cons, and_iff_right (getLast_stream has), ← List.append_assoc,
        ← ih (done ++ as) bs hf' hrest, ← hst]
      rfl
    · -- the read ends inside a message
      refine iff_of_false ?_ ?_
      · rintro ⟨st, hst, hmsgs⟩
        obtain ⟨x, hx, hfeed⟩ := bind_ok_iff.mp hst
        have hin := process_inside hp ht hfit hx
        have hdone : texts done ++ texts as = texts (done ++ as) := by simp [texts]
        rw [← List.append_assoc] at hmsgs
        have hb : Broken ((done ++ as) ++ m :: bs) rs.flatten x.2 := by
          rw [hdone] at hin
          by_cases hc : cutAtLast LF p = m.text
          · rw [hc] at hin
            exact .early (done ++ as) m bs t rfl hin (early_rest ht hc) hrest
          · exact .strayed (stray hc (hin ▸ List.prefix_rfl))
        exact feed_broken hb hf' hfeed hmsgs
      · intro h
        have hlast := h _ List.mem_cons_self
        rw [List.getLast?_append_of_ne_nil _ hp] at hlast
        exact nul_not_mem_left ht (List.mem_of_getLast? hlast)

theorem reads_fit {fd : Int} {calls : List (Nat → Attempt)} :
    ∀ r ∈ reads fd calls, r ≠ [] ∧ r.length ≤ INBUF - 2 := by
  intro r hr
  obtain ⟨port, -, hd⟩ := List.mem_filterMap.mp hr
  exact delivered_fits hd

/-- One call that reads some bytes at once. -/
def reading (bs : List Byte) (hne : bs ≠ [] := by decide)
    (hf : bs.length ≤ INBUF - 2 := by decide) : Nat → Attempt := fun _ => .data bs hne hf

def hello : Message := ⟨bytes "<hello/>", by decide, by decide⟩

/-- A message cut in its middle comes out as two. -/
theorem cut_hello_not_framed :
    ¬ Framed 3 [hello] [reading (bytes "<hel"), reading (bytes "lo/>\n" ++ [NUL])] := by
  intro h
  simp only [Framed, session_eq] at h
  have hs := (feed_framed_iff [] [hello] reads_fit rfl).mp h
  exact absurd (hs (bytes "<hel") List.mem_cons_self) (by decide)

/-- The messages come out once each and in order exactly when every read ends behind one. -/
theorem framed_iff (fd : Int) (ms : List Message) (calls : List (Nat → Attempt))
    (h : (reads fd calls).flatten = stream ms) :
    Framed fd ms calls ↔ ∀ r ∈ reads fd calls, r.getLast? = some NUL := by
  simp only [Framed, session_eq]
  exact feed_framed_iff [] ms reads_fit h

/-- Two messages in one read, a third in the next. -/
theorem hello_framed :
    Framed 3 [hello, hello, hello] [reading (stream [hello, hello]), reading (stream [hello])] := by
  refine (framed_iff 3 _ _ ?_).mpr ?_
  · rfl
  · decide

end PowerGuru.Net.TcpipFraming
