import PowerGuru.Daemon.ClientHandler

/-!
# A stream of commands and the reads it arrives in

TCP keeps the bytes and their order, not the boundaries of the texts. The handler takes
every read for one document.
-/
namespace PowerGuru.Daemon.CommandStream

open Lib.Bytes Common Net.Xml Net.Commands ClientHandler

/-- A command that a client sends. -/
structure Command where
  cmd : Cmd
  args : List Byte
  sent : cmd ≠ .result ∧ cmd ≠ .event := by decide

def Command.text (c : Command) : List Byte := createCommand c.cmd c.args []

/-- The text without its final newline. -/
def Command.bare (c : Command) : List Byte :=
  bytes "<command>" ++ createBody c.cmd c.args ++ bytes "</command>"

theorem Command.text_eq (c : Command) : c.text = c.bare ++ [LF] := by
  rw [text, createCommand, if_neg c.sent.1, bare, List.append_assoc _ _ [LF]]
  rfl

def stream (cs : List Command) : List Byte := cs.flatMap Command.text

/-! ## What a text stands for -/

def leaf (name text : List Byte) : Node := .element name [] (if text = [] then [] else [.text text])

def Command.node (c : Command) : Node :=
  match c.cmd with
  | .list => leaf (bytes "list") c.args
  | .poll => leaf (bytes "poll") c.args
  | .helo =>
      .element (bytes "helo") []
        (leaf (bytes "hostname") (hostname c.args) ::
          match user c.args with
          | none => []
          | some u => [leaf (bytes "user") u])
  | _ => leaf (bytes "nop") c.args

def Command.document (c : Command) : Node := .element (bytes "command") [] [c.node]

/-- libxml2 reads the text, with its newline or without, as its document. -/
def ReadsBack (libxml : Libxml) (c : Command) : Prop :=
  libxml (arrived c.text) = some c.document ∧ libxml (arrived c.bare) = some c.document

def Command.tree (c : Command) : XML := (extractNode c.document).toOption

theorem filled_leaf (name text : List Byte) : (leaf name text).filled := by
  by_cases h : text = []
  · simp [leaf, h, Node.filled, filledAll]
  · simp [leaf, h, Node.filled, filledAll]

theorem Command.elements_document (c : Command) : c.document.elements = [c.node] := by
  have hn : c.node.isElement = true := by unfold node; split <;> rfl
  change [c.node].filter Node.isElement = [c.node]
  rw [List.filter_cons_of_pos hn]
  rfl

theorem Command.name_eq_helo_iff (c : Command) : c.node.name = bytes "helo" ↔ c.cmd = .helo := by
  unfold node
  cases c.cmd with
  | helo => exact iff_of_true rfl rfl
  | nop => exact iff_of_false (show bytes "nop" ≠ bytes "helo" by decide) (by decide)
  | list => exact iff_of_false (show bytes "list" ≠ bytes "helo" by decide) (by decide)
  | poll => exact iff_of_false (show bytes "poll" ≠ bytes "helo" by decide) (by decide)
  | result => exact iff_of_false (show bytes "nop" ≠ bytes "helo" by decide) (by decide)
  | event => exact iff_of_false (show bytes "nop" ≠ bytes "helo" by decide) (by decide)

theorem Command.greets_iff (c : Command) : Greets c.document ↔ c.cmd = .helo := by
  rw [← c.name_eq_helo_iff]
  constructor
  · rintro ⟨n, ns, hn, hname⟩
    rw [c.elements_document] at hn
    rwa [(List.cons.inj hn).1]
  · exact fun h => ⟨c.node, [], c.elements_document, h⟩

theorem Command.filled_node (c : Command) : c.node.filled := by
  unfold node
  split
  · exact filled_leaf _ _
  · exact filled_leaf _ _
  · split
    · simp [Node.filled, filledAll, filled_leaf]
    · simp [Node.filled, filledAll, filled_leaf]
  · exact filled_leaf _ _

theorem Command.sound_document (c : Command) : Sound c.document := by
  refine ⟨?_, c.node, [], c.elements_document, ?_⟩
  · simp [document, Node.filled, filledAll, c.filled_node]
  · intro h
    have hc := c.name_eq_helo_iff.mp h
    have he : (leaf (bytes "hostname") (hostname c.args)).isElement = true := rfl
    simp [node, hc, Node.elements, Node.children, he]

/-! ## The work a client is owed -/

inductive Work where
  | execute (xml : XML)
  | reply

def work : Event → Option Work
  | .executed xml => some (.execute xml)
  | .answered _ => some .reply
  | _ => none

/-- Every command but a helo, executed once and answered once, in the order sent. -/
def owed (cs : List Command) : List Work :=
  (cs.filter fun c => c.cmd != .helo).flatMap fun c => [.execute c.tree, .reply]

def Served (libxml : Libxml) (host user : List Byte) (hello : Received) (cs : List Command)
    (rs : List Received) : Prop :=
  (clientHandler libxml host user (hello :: rs)).1.filterMap work = owed cs

/-! ## Reads that keep the boundaries -/

/-- A read is one command with its newline or without it. After one without, reads that
are not marked may follow, of the newline and of helos only. The flag says that the newline
is still to come. -/
inductive Aligned : Bool → List Command → List Received → Prop
  | done : Aligned false [] []
  | whole {c : Command} {cs : List Command} {r : Received} {rs : List Received} :
      r.error = none → r.bytes = c.text → Aligned false cs rs → Aligned false (c :: cs) (r :: rs)
  | bare {c : Command} {cs : List Command} {r : Received} {rs : List Received} :
      r.error = none → r.bytes = c.bare → Aligned true cs rs → Aligned false (c :: cs) (r :: rs)
  | skip {helos cs : List Command} {pieces rs : List Received} (newline : Bool) :
      (∀ c ∈ helos, c.cmd = .helo) →
      (∀ r ∈ pieces, r.error = none ∧ r.bytes.head? ≠ some langle) →
      pieces.flatMap Received.bytes ++ (if newline then [LF] else []) = LF :: stream helos →
      Aligned newline cs rs → Aligned true (helos ++ cs) (pieces ++ rs)

/-- Aligned reads deliver the stream. -/
theorem aligned_bytes {newline : Bool} {cs : List Command} {rs : List Received}
    (h : Aligned newline cs rs) :
    rs.flatMap Received.bytes = (if newline then [LF] else []) ++ stream cs := by
  induction h with
  | done => rfl
  | whole he hb _ ih => simp [stream, hb, ih]
  | bare he hb _ ih => simp [stream, hb, ih, Command.text_eq]
  | skip newline hh hp hb _ ih =>
    rw [List.flatMap_append, ih, ← List.append_assoc, hb]
    simp [stream]

theorem head_arrived (b : List Byte) :
    (arrived b).head? = some langle ↔ b.head? = some langle := by
  cases b with
  | nil => exact iff_of_false (by decide) (by simp)
  | cons x xs => exact Iff.rfl

theorem head_bare (c : Command) : c.bare.head? = some langle := rfl

theorem head_text (c : Command) : c.text.head? = some langle := by
  rw [c.text_eq]
  rfl

theorem owed_cons (c : Command) (cs : List Command) :
    owed (c :: cs) = (if c.cmd = .helo then [] else [.execute c.tree, .reply]) ++ owed cs := by
  by_cases h : c.cmd = .helo
  · simp [owed, h]
  · simp [owed, h]

theorem owed_helos {helos : List Command} (h : ∀ c ∈ helos, c.cmd = .helo) (cs : List Command) :
    owed (helos ++ cs) = owed cs := by
  have hf : helos.filter (fun c => c.cmd != .helo) = [] := by
    rw [List.filter_eq_nil_iff]
    intro c hc
    simp [h c hc]
  simp [owed, hf]

section
variable {libxml : Libxml}

theorem work_unmarked {pieces : List Received} (rs : List Received)
    (h : ∀ r ∈ pieces, r.error = none ∧ r.bytes.head? ≠ some langle) :
    (loop libxml (pieces ++ rs)).1.filterMap work = (loop libxml rs).1.filterMap work := by
  induction pieces with
  | nil => rfl
  | cons r pieces ih =>
    obtain ⟨he, hm⟩ := h r List.mem_cons_self
    have hmark : (arrived r.bytes).head? ≠ some langle := fun hh => hm ((head_arrived _).mp hh)
    rw [List.cons_append, loop, if_neg (by simp [he]), process_unmarked libxml hmark]
    simpa [List.filterMap_cons, work] using ih fun r' hr' => h r' (List.mem_cons_of_mem r hr')

/-- A read that holds one command does that command's work. -/
theorem work_command {c : Command} {r : Received} (rs : List Received) (he : r.error = none)
    (hm : (arrived r.bytes).head? = some langle) (hp : libxml (arrived r.bytes) = some c.document) :
    (loop libxml (r :: rs)).1.filterMap work =
      (if c.cmd = .helo then [] else [.execute c.tree, .reply]) ++
        (loop libxml rs).1.filterMap work := by
  rw [loop, if_neg (by simp [he])]
  by_cases hc : c.cmd = .helo
  · obtain ⟨value, hes⟩ := process_greeting hm hp c.sound_document (c.greets_iff.mpr hc)
    rw [hes]
    simp [List.filterMap_cons, work, hc]
  · obtain ⟨x, hx, hes⟩ := process_command hm hp c.sound_document (fun h => hc (c.greets_iff.mp h))
    rw [hes]
    simp [List.filterMap_cons, work, hc, Command.tree, hx, Except.toOption]

theorem loop_served {newline : Bool} {cs : List Command} {rs : List Received}
    (h : Aligned newline cs rs) (hx : ∀ c ∈ cs, ReadsBack libxml c) :
    (loop libxml rs).1.filterMap work = owed cs := by
  induction h with
  | done => rfl
  | @whole c cs r rs he hb _ ih =>
    have hm : (arrived r.bytes).head? = some langle := by rw [head_arrived, hb, head_text]
    have hp : libxml (arrived r.bytes) = some c.document := by
      rw [hb]
      exact (hx c List.mem_cons_self).1
    rw [work_command rs he hm hp, ih fun c' hc' => hx c' (List.mem_cons_of_mem c hc'), owed_cons]
  | @bare c cs r rs he hb _ ih =>
    have hm : (arrived r.bytes).head? = some langle := by rw [head_arrived, hb, head_bare]
    have hp : libxml (arrived r.bytes) = some c.document := by
      rw [hb]
      exact (hx c List.mem_cons_self).2
    rw [work_command rs he hm hp, ih fun c' hc' => hx c' (List.mem_cons_of_mem c hc'), owed_cons]
  | skip newline hh hp hb _ ih =>
    rw [work_unmarked _ hp, ih fun c' hc' => hx c' (List.mem_append_right _ hc'), owed_helos hh]

end

/-! ## Runs -/

def nop : Command := ⟨.nop, [], by decide⟩

/-- A parser that knows one document. -/
def onlyNop : Libxml := fun s =>
  if cstr s = nop.text ∨ cstr s = nop.bare then some nop.document else none

def read (b : List Byte) (h : b.length ≤ 4096 := by decide) : Received := ⟨b, none, h⟩

/-- The padding is not part of the C string. -/
theorem cstr_arrived {b : List Byte} (h : NUL ∉ b) : cstr (arrived b) = b := by
  unfold arrived
  cases 4096 - b.length with
  | zero => rw [List.replicate_zero, List.append_nil, cstr_of_not_mem h]
  | succ k => rw [List.replicate_succ, cstr_append_nul _ h]

theorem onlyNop_reads : ReadsBack onlyNop nop := by
  constructor
  · rw [onlyNop, cstr_arrived (by decide), if_pos (Or.inl rfl)]
  · rw [onlyNop, cstr_arrived (by decide), if_pos (Or.inr rfl)]

/-- Two NOPs that arrive in one read are neither executed nor answered. -/
theorem coalesced_not_served :
    ¬ Served onlyNop (bytes "pi") (bytes "pg") (read (bytes "x")) [nop, nop]
      [read (nop.text ++ nop.text)] := by
  have hb : ¬ Harmless onlyNop (arrived (nop.text ++ nop.text)) := by
    intro h
    obtain ⟨root, hp, -⟩ := h rfl
    rw [onlyNop, cstr_arrived (by decide), if_neg (by decide)] at hp
    exact absurd hp (by simp)
  obtain ⟨f, hf⟩ := loop_crash (r := read (nop.text ++ nop.text)) (by decide) hb []
  intro h
  rw [Served, clientHandler, hf] at h
  have hlen : ([] : List Work).length = (owed [nop, nop]).length := congrArg List.length h
  exact absurd hlen (by decide)

/-- In every run whose reads keep the boundaries of the commands, each command is executed
once and answered once, in the order sent. -/
theorem commands_served {libxml : Libxml} {cs : List Command} {rs : List Received}
    (hx : ∀ c ∈ cs, ReadsBack libxml c) (h : Aligned false cs rs) (host user : List Byte)
    (hello : Received) : Served libxml host user hello cs rs := by
  have hl := loop_served h hx
  simpa [Served, clientHandler, List.filterMap_cons, work] using hl

/-- Two NOPs, the second cut before its newline. -/
theorem two_nops_served :
    Served onlyNop (bytes "pi") (bytes "pg") (read (bytes "x")) [nop, nop]
      [read nop.text, read nop.bare, read [LF]] := by
  refine commands_served ?_ ?_ _ _ _
  · intro c hc
    simp only [List.mem_cons, List.not_mem_nil, or_false, or_self] at hc
    rw [hc]
    exact onlyNop_reads
  · refine .whole rfl rfl (.bare rfl rfl ?_)
    change Aligned true ([] ++ []) ([read [LF]] ++ [])
    exact .skip false (by simp) (by decide) rfl .done

end PowerGuru.Daemon.CommandStream
