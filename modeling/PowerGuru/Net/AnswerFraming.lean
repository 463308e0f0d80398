import PowerGuru.Net.TcpipFraming
import PowerGuru.Net.Exchange

/-!
# Several answers in one read

A daemon ends its answers with a NUL and puts a line end behind the answer to a command.
Where another answer follows that in the same read, the line end stands in front of it and
`anydata` throws it out.
-/
namespace PowerGuru.Net.AnswerFraming

open Lib.Bytes Common Tcpip TcpipFraming Messages Encodings NodeEffects Exchange

/-- An answer, and whether it is the one to a command. -/
structure Answer where
  text : List Byte
  command : Bool
  marked : text.head? = some langle
  no_nul : NUL ∉ text
  no_lf : LF ∉ text

def Answer.wire (a : Answer) : List Byte :=
  a.text ++ NUL :: if a.command then bytes "\r\n" else []

def wires (as : List Answer) : List Byte := as.flatMap Answer.wire

def said (as : List Answer) : List (List Byte) := as.map Answer.text

/-- No answer stands behind the one to a command. -/
def CommandsLast (as : List Answer) : Prop := ∀ a ∈ as.dropLast, a.command = false

theorem Answer.text_ne_nil (a : Answer) : a.text ≠ [] := by
  intro h
  have hm := a.marked
  rw [h] at hm
  exact absurd hm (by simp)

theorem Answer.wire_plain {a : Answer} (h : a.command = false) : a.wire = a.text ++ [NUL] := by
  rw [wire, h]
  rfl

theorem Answer.wire_command {a : Answer} (h : a.command = true) :
    a.wire = a.text ++ NUL :: bytes "\r\n" := by
  rw [wire, h]
  rfl

theorem wires_cons (a : Answer) (as : List Answer) : wires (a :: as) = a.wire ++ wires as :=
  List.flatMap_cons

/-- An answer is pushed as it is. -/
theorem split_answer (a : Answer) (rest : List Byte) (msgs : List (List Byte)) :
    splitPackets none (a.text ++ NUL :: rest) msgs =
      splitPackets none rest (msgs ++ [a.text]) := by
  rw [split_push a.no_nul a.marked, cutAtLast_of_not_mem a.no_lf]

theorem split_answers {as : List Answer} (h : ∀ a ∈ as, a.command = false) (rest : List Byte)
    (msgs : List (List Byte)) :
    splitPackets none (wires as ++ rest) msgs = splitPackets none rest (msgs ++ said as) := by
  induction as generalizing msgs with
  | nil => rw [wires, List.flatMap_nil, said, List.map_nil, List.append_nil, List.nil_append]
  | cons a as ih =>
    obtain ⟨ha, has⟩ := List.forall_mem_cons.mp h
    have hsplit : wires (a :: as) ++ rest = a.text ++ NUL :: (wires as ++ rest) := by
      rw [wires_cons, a.wire_plain ha, List.append_assoc, List.append_assoc]
      rfl
    rw [hsplit, split_answer, ih has, List.append_assoc]
    rfl

/-! ## Reads in which the answer to a command is the last -/

/-- The line end is a string of its own, which no message begins. -/
theorem split_lineEnd (rest : List Byte) (msgs : List (List Byte)) :
    splitPackets none (bytes "\r\n" ++ NUL :: rest) msgs = .ok (msgs, rest) :=
  split_stop (by decide) (by decide)

theorem process_commandsLast (msgs : List (List Byte)) {read : List Answer} (hne : read ≠ [])
    (hlast : CommandsLast read) (hf : (wires read).length ≤ INBUF - 2) :
    ∃ ret, process ⟨msgs, none⟩ (wires read) = .ok (ret, ⟨msgs ++ said read, none⟩) := by
  obtain ⟨as, a, rfl⟩ := (List.eq_nil_or_concat read).resolve_left hne
  rw [CommandsLast, List.concat_eq_append, List.dropLast_concat] at hlast
  rw [List.concat_eq_append] at hf ⊢
  have hwires : wires (as ++ [a]) = wires as ++ a.wire := by simp [wires]
  have hsaid : said (as ++ [a]) = said as ++ [a.text] := by simp [said]
  rw [hwires] at hf ⊢
  rw [hsaid, ← List.append_assoc]
  obtain ⟨k, hk⟩ := buffer_eq hf
  by_cases hcommand : a.command = true
  · have hopen : ∀ s, NUL ∉ s → wires as ++ a.wire ≠ s ++ [NUL] := by
      intro s hs
      rw [a.wire_command hcommand, ← List.append_assoc]
      exact not_single (by decide) s hs
    have hbuffer : buffer (wires as ++ a.wire) =
        wires as ++ (a.text ++ NUL :: (bytes "\r\n" ++ NUL :: (NUL :: zeros k))) := by
      rw [hk, a.wire_command hcommand]
      simp
    rw [process_loop _ hf hopen, hbuffer, split_answers hlast, split_answer, split_lineEnd]
    exact ⟨_, rfl⟩
  · have hplain := a.wire_plain (by simpa using hcommand)
    have hbuffer : buffer (wires as ++ a.wire) = wires as ++ (a.text ++ NUL :: zeros (k + 2)) := by
      rw [hk, hplain]
      simp [zeros, List.replicate_succ]
    cases as with
    | nil =>
      have hcut := cutAtLast_of_not_mem a.no_lf
      refine ⟨.success, ?_⟩
      rw [hplain, wires, List.flatMap_nil, List.nil_append, process_single _ a.no_nul, hcut, said,
        List.map_nil, List.append_nil]
    | cons b as =>
      have hopen : ∀ s, NUL ∉ s → wires (b :: as) ++ a.wire ≠ s ++ [NUL] := by
        intro s hs
        have hb := b.wire_plain (hlast b List.mem_cons_self)
        rw [wires_cons, hb, hplain, List.append_assoc, List.append_assoc]
        exact not_single (by simp) s hs
      rw [process_loop _ hf hopen, hbuffer, split_answers hlast, split_answer]
      exact split_zeros_ok k

/-! ## Reads in which something follows it -/

theorem marks_wire (a : Answer) : marks a.wire = marks a.text := by
  unfold Answer.wire
  split
  · rw [marks_append, marks_nul]
    rfl
  · rw [marks_append, marks_nul]
    rfl

theorem marks_wires (as : List Answer) : marks (wires as) = weight (said as) := by
  induction as with
  | nil => rfl
  | cons a as ih =>
    have hsaid : said (a :: as) = [a.text] ++ said as := rfl
    rw [wires_cons, marks_append, marks_wire, ih, hsaid, weight_append, weight_singleton]

theorem marks_text_pos (a : Answer) : 0 < marks a.text := by
  rw [marks_head a.marked]
  exact Nat.succ_pos _

/-- The first answer to a command that is not the last of its read. -/
theorem not_commandsLast {read : List Answer} (h : ¬ CommandsLast read) :
    ∃ as a b bs, read = as ++ a :: b :: bs ∧ (∀ a ∈ as, a.command = false) ∧
      a.command = true := by
  induction read with
  | nil => exact absurd (fun a ha => absurd ha List.not_mem_nil) h
  | cons a read ih =>
    cases read with
    | nil => exact absurd (fun a ha => absurd ha List.not_mem_nil) h
    | cons b read =>
      by_cases ha : a.command = true
      · exact ⟨[], a, b, read, rfl, fun a ha => absurd ha List.not_mem_nil, ha⟩
      · have hrest : ¬ CommandsLast (b :: read) := by
          intro hr
          refine h ?_
          intro c hc
          rw [List.dropLast_cons_cons, List.mem_cons] at hc
          rcases hc with rfl | hc
          · simpa using ha
          · exact hr c hc
        obtain ⟨as, c, d, ds, hread, has, hc⟩ := ih hrest
        refine ⟨a :: as, c, d, ds, by rw [hread]; rfl, ?_, hc⟩
        rw [List.forall_mem_cons]
        exact ⟨by simpa using ha, has⟩

/-- The answer behind the line end is neither pushed nor left over. -/
theorem process_lost {msgs : List (List Byte)} {read : List Answer} (h : ¬ CommandsLast read)
    (hf : (wires read).length ≤ INBUF - 2) {ret : Retcode} {st : State}
    (hp : process ⟨msgs, none⟩ (wires read) = .ok (ret, st)) :
    weight st.msgs + marks (st.leftover.getD []) < weight msgs + weight (said read) := by
  obtain ⟨as, a, b, bs, rfl, has, ha⟩ := not_commandsLast h
  obtain ⟨k, hk⟩ := buffer_eq hf
  have hwires : wires (as ++ a :: b :: bs) = wires as ++ (a.text ++ NUL :: (bytes "\r\n" ++
      (b.wire ++ wires bs))) := by
    simp [wires, a.wire_command ha]
  have hopen : ∀ s, NUL ∉ s → wires (as ++ a :: b :: bs) ≠ s ++ [NUL] := by
    intro s hs
    rw [hwires, ← List.append_assoc]
    exact not_single (by simp [bytes]) s hs
  have hnul : NUL ∉ bytes "\r\n" ++ b.text := by
    rw [List.mem_append, not_or]
    exact ⟨by decide, b.no_nul⟩
  have hhead : (bytes "\r\n" ++ b.text).head? ≠ some langle := by
    rw [List.head?_append_of_ne_nil _ (by decide)]
    decide
  have htext : ∃ tail, b.wire = b.text ++ NUL :: tail ∧ marks tail = 0 := by
    unfold Answer.wire
    split
    · exact ⟨_, rfl, rfl⟩
    · exact ⟨_, rfl, rfl⟩
  obtain ⟨tail, htail, hmarks⟩ := htext
  have hbuffer : buffer (wires (as ++ a :: b :: bs)) = wires as ++ (a.text ++ NUL ::
      ((bytes "\r\n" ++ b.text) ++ NUL :: (tail ++ (wires bs ++ zeros (k + 2))))) := by
    rw [hk, hwires, htail]
    simp [zeros, List.replicate_succ]
  rw [process_loop _ hf hopen, hbuffer, split_answers has, split_answer,
    split_stop hnul hhead] at hp
  obtain ⟨hst, hle⟩ := finish_bounds hp
  have hsaid : said (as ++ a :: b :: bs) = said as ++ ([a.text] ++ ([b.text] ++ said bs)) := by
    simp [said]
  have hpos := marks_text_pos b
  rw [hst, hsaid]
  simp only [weight_append, weight_singleton, marks_append, marks_wires, marks_zeros,
    hmarks] at hle ⊢
  omega

/-! ## Sessions -/

theorem feed_bounds {st st' : State} {rs : List (List Byte)}
    (hf : ∀ r ∈ rs, r.length ≤ INBUF - 2) (h : feed st rs = .ok st') :
    weight st'.msgs ≤ weight st.msgs + marks (st.leftover.getD []) + marks rs.flatten := by
  induction rs generalizing st with
  | nil =>
    rw [← Except.ok.inj h]
    omega
  | cons r rs ih =>
    obtain ⟨hr, hrest⟩ := List.forall_mem_cons.mp hf
    obtain ⟨x, hx, hfeed⟩ := bind_ok_iff.mp h
    have hstep := (process_bounds hr hx).2
    have hall := ih hrest hfeed
    rw [List.flatten_cons, marks_append]
    omega

theorem marks_reads (reads : List (List Answer)) :
    marks (reads.map wires).flatten = weight (said reads.flatten) := by
  induction reads with
  | nil => rfl
  | cons read reads ih =>
    have hsaid : said (read :: reads).flatten = said read ++ said reads.flatten := by simp [said]
    rw [List.map_cons, List.flatten_cons, marks_append, ih, marks_wires, hsaid, weight_append]

theorem feed_iff (msgs : List (List Byte)) {reads : List (List Answer)}
    (hf : ∀ read ∈ reads, read ≠ [] ∧ (wires read).length ≤ INBUF - 2) :
    (∃ st, feed ⟨msgs, none⟩ (reads.map wires) = .ok st ∧
      st.msgs = msgs ++ said reads.flatten) ↔ ∀ read ∈ reads, CommandsLast read := by
  induction reads generalizing msgs with
  | nil => exact iff_of_true ⟨_, rfl, by simp [said]⟩ fun read hr => absurd hr List.not_mem_nil
  | cons read reads ih =>
    obtain ⟨⟨hne, hfit⟩, hrest⟩ := List.forall_mem_cons.mp hf
    have hsaid : msgs ++ said (read :: reads).flatten =
        (msgs ++ said read) ++ said reads.flatten := by
      simp [said]
    rw [List.forall_mem_cons]
    by_cases hlast : CommandsLast read
    · obtain ⟨ret, hret⟩ := process_commandsLast msgs hne hlast hfit
      rw [and_iff_right hlast, ← ih (msgs ++ said read) hrest, List.map_cons, feed, hret, hsaid]
      rfl
    · refine iff_of_false ?_ fun h => hlast h.1
      rintro ⟨st, hst, hmsgs⟩
      obtain ⟨x, hx, hfeed⟩ := bind_ok_iff.mp hst
      have hlost := process_lost hlast hfit hx
      have hfits : ∀ r ∈ reads.map wires, r.length ≤ INBUF - 2 := by
        intro r hr
        obtain ⟨read, hread, rfl⟩ := List.mem_map.mp hr
        exact (hrest read hread).2
      have hall := feed_bounds hfits hfeed
      rw [hmsgs, hsaid, marks_reads, weight_append, weight_append] at hall
      omega

/-! ## What a daemon answers -/

theorem delivered_wire (a : Answer) : Messages.delivered a.wire = a.text := by
  have hwire : a.wire = ends a.text ++ if a.command then bytes "\r\n" else [] := by
    rw [Answer.wire, ends, List.append_assoc]
    rfl
  rw [hwire, delivered_ends a.no_nul a.no_lf]

/-- A message of the daemon as an answer. -/
def wrappedAnswer (type : XmlMsg) (inner : List Byte) (command : Bool)
    (hl : XmlText.legal (wrapped type inner) = true) (hlf : LF ∉ inner) : Answer :=
  ⟨wrapped type inner, command, rfl, XmlText.nul_not_mem_of_legal hl,
    MeterQuery.lf_not_mem_wrapped type hlf⟩

theorem answers_cases {daemon : Msgs} {r : Request} (h : r.Clean daemon) :
    r.answers daemon = [] ∨ ∃ a : Answer, r.answers daemon = [a.wire] ∧
      a.command = decide (r.type = .command) := by
  unfold Request.answers
  by_cases htype : r.type = .config
  · have hvalid : XmlText.validName (bytes "config") = true := by decide
    have hlf : LF ∉ warningInner (bytes "config") := by decide
    refine Or.inr ⟨wrappedAnswer .status _ false (legal_warning hvalid) hlf, ?_, ?_⟩
    · rw [if_pos htype, warning_eq]
      rfl
    · rw [htype]
      rfl
  · rw [if_neg htype]
    cases hreply : r.reply daemon with
    | none => exact Or.inl rfl
    | some p =>
      obtain ⟨type, val⟩ := p
      obtain ⟨hv, -⟩ := plain_reply h hreply
      have hlegal := (legal_response type r.valid val).trans hv.1
      have hlf := lf_not_mem_tagged r.valid hv.2.2.2.1
      refine Or.inr ⟨wrappedAnswer type _ (decide (r.type = .command)) hlegal hlf, ?_, rfl⟩
      dsimp only
      rw [responseCreate_eq type (nul_not_mem_name r.valid), Answer.wire, ends, List.append_assoc]
      simp only [wrappedAnswer, decide_eq_true_eq]
      rfl

/-- The requests that are answered at all. -/
def answered (daemon : Msgs) (requests : List Request) : List Request :=
  requests.filter fun r => r.answers daemon ≠ []

theorem answers_of_requests {daemon : Msgs} {requests : List Request}
    (h : ∀ r ∈ requests, r.Clean daemon) :
    ∃ as : List Answer, as.map Answer.wire = requests.flatMap (Request.answers daemon) ∧
      as.map Answer.command =
        (answered daemon requests).map fun r => decide (r.type = .command) := by
  induction requests with
  | nil => exact ⟨[], rfl, rfl⟩
  | cons r requests ih =>
    obtain ⟨hr, hrest⟩ := List.forall_mem_cons.mp h
    obtain ⟨as, hwires, hcommands⟩ := ih hrest
    rw [answered] at hcommands
    rw [List.flatMap_cons, ← hwires, answered, List.filter_cons]
    rcases answers_cases hr with hno | ⟨a, ha, hcommand⟩
    · refine ⟨as, by rw [hno]; rfl, ?_⟩
      rw [if_neg (by simp [hno])]
      exact hcommands
    · refine ⟨a :: as, by rw [ha]; rfl, ?_⟩
      rw [if_pos (by simp [ha]), List.map_cons, List.map_cons, hcommand, hcommands]

theorem commandsLast_iff {as : List Answer} {requests : List Request}
    (h : as.map Answer.command = requests.map fun r => decide (r.type = .command)) :
    CommandsLast as ↔ ∀ r ∈ requests.dropLast, r.type ≠ .command := by
  have hdrop := congrArg List.dropLast h
  rw [← List.map_dropLast, ← List.map_dropLast] at hdrop
  have hall : CommandsLast as ↔ ∀ c ∈ as.dropLast.map Answer.command, c = false := by
    rw [CommandsLast, List.forall_mem_map]
  rw [hall, hdrop, List.forall_mem_map]
  simp only [decide_eq_false_iff_not, ne_eq]

/-- The answers of a daemon, with those of one group of requests in each read, arrive once each and
in their order if and only if no read has an answer behind the one to a command. -/
theorem answers_arrive_iff (fd : Int) {calls : List (Nat → Attempt)} {daemon : Msgs}
    {groups : List (List Request)} (hclean : ∀ group ∈ groups, ∀ r ∈ group, r.Clean daemon)
    (h : reads fd calls =
      groups.map fun group => (group.flatMap (Request.answers daemon)).flatten) :
    (∃ st, session fd ⟨[], none⟩ calls = .ok st ∧
        st.msgs = (groups.flatten.flatMap (Request.answers daemon)).map Messages.delivered) ↔
      ∀ group ∈ groups, ∀ r ∈ (answered daemon group).dropLast, r.type ≠ .command := by
  have hgroups : ∃ reads : List (List Answer),
      reads.map wires = groups.map (fun group => (group.flatMap (Request.answers daemon)).flatten) ∧
      said reads.flatten =
        (groups.flatten.flatMap (Request.answers daemon)).map Messages.delivered ∧
      ((∀ read ∈ reads, CommandsLast read) ↔
        ∀ group ∈ groups, ∀ r ∈ (answered daemon group).dropLast, r.type ≠ .command) := by
    clear h
    induction groups with
    | nil => exact ⟨[], rfl, rfl, by simp⟩
    | cons group groups ih =>
      obtain ⟨hgroup, hrest⟩ := List.forall_mem_cons.mp hclean
      obtain ⟨reads, hwires, hsaid, hlast⟩ := ih hrest
      obtain ⟨as, has, hcommands⟩ := answers_of_requests hgroup
      refine ⟨as :: reads, ?_, ?_, ?_⟩
      · rw [List.map_cons, List.map_cons, hwires, wires, List.flatMap_def, has]
      · have htexts : said as =
            (group.flatMap (Request.answers daemon)).map Messages.delivered := by
          rw [← has, List.map_map]
          exact List.map_congr_left fun a _ => (delivered_wire a).symm
        rw [List.flatten_cons, List.flatten_cons, List.flatMap_append, List.map_append, ← hsaid,
          ← htexts, said, List.map_append]
        rfl
      · rw [List.forall_mem_cons, List.forall_mem_cons, hlast, commandsLast_iff hcommands]
  obtain ⟨answers, hwires, hsaid, hlast⟩ := hgroups
  have hfit : ∀ read ∈ answers, read ≠ [] ∧ (wires read).length ≤ INBUF - 2 := by
    intro read hread
    have hmem : wires read ∈ reads fd calls := by
      rw [h, ← hwires]
      exact List.mem_map_of_mem hread
    obtain ⟨hne, hle⟩ := reads_fit _ hmem
    exact ⟨by rintro rfl; exact hne rfl, hle⟩
  rw [session_eq, h, ← hwires, ← hsaid, ← hlast]
  exact feed_iff [] hfit

/-- The answers to a command and to a meter, as a client may find them. -/
def relayAndHertz : List Request :=
  [⟨.command, bytes "relay", by decide, by decide⟩,
    ⟨.meter, bytes "hertz", by decide, meter_asked⟩]

/-- A daemon that has just been started. -/
def daemon : Msgs := init (MeterQuery.fresh .daemon)

/-- Both in one read. -/
def bothAnswers : List Byte :=
  (relayAndHertz.flatMap (Request.answers daemon)).flatten

theorem bothAnswers_read : bothAnswers ≠ [] ∧ bothAnswers.length ≤ INBUF - 2 := by
  decide +kernel

theorem relayAndHertz_lost :
    ¬ ∃ st, session 3 ⟨[], none⟩
        [reading bothAnswers bothAnswers_read.1 bothAnswers_read.2] = .ok st ∧
      st.msgs = ([relayAndHertz].flatten.flatMap (Request.answers daemon)).map
        Messages.delivered := by
  have hclean : ∀ group ∈ [relayAndHertz], ∀ r ∈ group, r.Clean daemon := by
    intro group hg r hr htype
    rw [List.mem_singleton.mp hg] at hr
    simp only [relayAndHertz, List.mem_cons, List.not_mem_nil, or_false] at hr
    rcases hr with rfl | rfl
    · exact absurd htype (by decide)
    · decide
  have hanswered : answered daemon relayAndHertz = relayAndHertz := by
    simp [answered, relayAndHertz, Request.answers, Request.reply, responseCreate, ends]
  rw [answers_arrive_iff 3 hclean rfl]
  intro h
  have hlast := h relayAndHertz (List.mem_singleton_self _)
    ⟨.command, bytes "relay", by decide, by decide⟩
  rw [hanswered] at hlast
  exact hlast List.mem_cons_self rfl

end PowerGuru.Net.AnswerFraming
