import PowerGuru.Client.ActionTable
import PowerGuru.Client.Replies
import PowerGuru.Daemon.CommandTexts

/-!
# From the keyboard to the screen

The client's two threads and the daemon's handler on one connection. What is typed becomes
commands, the commands are answered with themselves in front of the result, and the answers, 4120
bytes each, are read into an array of 1024.
-/
namespace PowerGuru.Client.Session

open Lib.Bytes Net.Xml Net.XmlText Net.Commands Net.RoundTrip Console ActionTable Replies
open Daemon.CommandStream (Command)
open Daemon.CommandTexts

/-! ## What is typed -/

theorem lookup_sent (action : List Byte) :
    (words.lookup action).getD .nop ≠ .result ∧ (words.lookup action).getD .nop ≠ .event := by
  cases h : words.lookup action with
  | none => decide
  | some c =>
    have hall : ∀ p ∈ words, p.2 ≠ .result ∧ p.2 ≠ .event := by decide
    exact hall _ (Lib.AssocMap.mem_of_lookup h)

/-- The command that a line becomes. A word that is no action stands for NOP. -/
def commandOf (line : List Byte) : Command :=
  ⟨(words.lookup (split line).1).getD .nop, (split line).2, lookup_sent _⟩

theorem convertAction_fst {t : Table} (ht : NopElse t) (action : List Byte) :
    (convertAction t action).1 = (words.lookup action).getD .nop := by
  cases h : words.lookup action with
  | some c =>
    have hc := t.initial (action, c) (Lib.AssocMap.mem_of_lookup h)
    rw [convertAction_some hc]
    rfl
  | none =>
    apply convertAction_foreign ht
    intro ha
    obtain ⟨p, hp, rfl⟩ := List.mem_map.mp ha
    have hsome := commands.initial p hp
    rw [show commands.entries = words from rfl, h] at hsome
    exact absurd hsome (by simp)

theorem enter_text {console : Handler} (ht : NopElse console.cmd) (line : List Byte) :
    (console.enter line).1 = (commandOf line).text ∧ NopElse (console.enter line).2.cmd := by
  have hfst := convertAction_fst ht (split line).1
  constructor
  · have hstr : (console.enter line).1 =
        createCommand (convertAction console.cmd (split line).1).1 (split line).2 console.str := rfl
    rw [hstr, hfst]
    exact createCommand_str (lookup_sent _).1 _ _ _
  · exact convertAction_nopElse ht (split line).1

/-- Whatever was looked up before, a line is sent as its command. -/
theorem run_texts {console : Handler} (ht : NopElse console.cmd) (lines : List (List Byte)) :
    console.run lines = lines.map fun l => (commandOf l).text := by
  induction lines generalizing console with
  | nil => rfl
  | cons line lines ih =>
    obtain ⟨htext, hnext⟩ := enter_text ht line
    rw [Handler.run, htext, ih hnext, List.map_cons]

/-! ## What the client reads -/

/-- The reads of so many bytes that are there, each as long as the array if there are enough. -/
def readAll (pending : List Byte) : List Received :=
  if pending = [] then []
  else ⟨pending.take 1024, List.length_take_le _ _⟩ :: readAll (pending.drop 1024)
termination_by pending.length
decreasing_by
  rename_i h
  rw [List.length_drop]
  have hpos := List.length_pos_iff.mpr h
  omega

theorem readAll_nil : readAll [] = [] := by
  rw [readAll, if_pos rfl]

theorem readAll_of_ne_nil {pending : List Byte} (h : pending ≠ []) :
    readAll pending =
      ⟨pending.take 1024, List.length_take_le _ _⟩ :: readAll (pending.drop 1024) := by
  rw [readAll, if_neg h]

theorem readSome_full (buf : Buffer) {r : Received} (h : r.bytes.length = 1024) :
    (buf.readSome r).bytes = r.bytes := by
  have hdrop : buf.bytes.drop r.bytes.length = [] := by
    rw [h, ← buf.length_eq, List.drop_length]
  show r.bytes ++ buf.bytes.drop r.bytes.length = r.bytes
  rw [hdrop, List.append_nil]

/-- A text and the zeros behind it, as far as the array goes. -/
theorem take_padded {t : List Byte} (ht : t.length ≤ 1024) {k : Nat} (hk : 1024 ≤ t.length + k)
    (more : List Byte) :
    (t ++ (List.replicate k NUL ++ more)).take 1024 =
        t ++ List.replicate (1024 - t.length) NUL ∧
      (t ++ (List.replicate k NUL ++ more)).drop 1024 =
        List.replicate (t.length + k - 1024) NUL ++ more := by
  obtain ⟨m, rfl⟩ : ∃ m, k = (1024 - t.length) + m := ⟨k - (1024 - t.length), by omega⟩
  have hfront : (t ++ List.replicate (1024 - t.length) NUL).length = 1024 := by
    rw [List.length_append, List.length_replicate]
    omega
  have hsplit : t ++ (List.replicate (1024 - t.length + m) NUL ++ more) =
      (t ++ List.replicate (1024 - t.length) NUL) ++ (List.replicate m NUL ++ more) := by
    rw [List.replicate_add]
    simp only [List.append_assoc]
  have hm : t.length + (1024 - t.length + m) - 1024 = m := by omega
  rw [hsplit, hm]
  exact ⟨List.take_left' hfront, List.drop_left' hfront⟩

section
variable {libxml : Libxml} {buf : Buffer} {t : List Byte}

/-- A text that leaves no room for a NUL is read past the end of the array. -/
theorem loop_long (hn : NUL ∉ t) (ht : 1024 ≤ t.length) (more : List Byte)
    (later : List Received) :
    (loop libxml buf (readAll (t ++ more) ++ later)).2 = .overread := by
  have hne : t ++ more ≠ [] := by
    intro h
    rw [(List.append_eq_nil_iff.mp h).1] at ht
    exact absurd ht (by decide)
  have hchunk : (t ++ more).take 1024 = t.take 1024 := List.take_append_of_le_length ht
  have hfull : ((t ++ more).take 1024).length = 1024 := by
    rw [hchunk, List.length_take]
    omega
  have hstr : (buf.readSome ⟨(t ++ more).take 1024, List.length_take_le _ _⟩).str = none := by
    rw [Buffer.str, readSome_full buf hfull]
    apply if_neg
    intro hm
    have hmem : NUL ∈ (t ++ more).take 1024 := hm
    rw [hchunk] at hmem
    exact hn (List.mem_of_mem_take hmem)
  rw [readAll_of_ne_nil hne, List.cons_append, loop_overread hstr]

/-- What is read of a text: it ends the handler, or leaves the array to what comes next. -/
theorem loop_text {r : Received} (h : (buf.readSome r).str = some t) (later : List Received) :
    (∀ f, handle libxml t = .error f → (loop libxml buf (r :: later)).2 = .crashed f) ∧
      ∀ es, handle libxml t = .ok es → loop libxml buf (r :: later) =
        (⟨some t, es⟩ :: (loop libxml (buf.readSome r) later).1,
          (loop libxml (buf.readSome r) later).2) := by
  constructor
  · intro f hf
    rw [loop_crashed h hf]
  · intro es hes
    rw [loop, h]
    dsimp only
    rw [hes]

variable (libxml buf) in
/-- The zeros behind a text end it, and clear the array for the next read. -/
theorem loop_padded (hn : NUL ∉ t) (ht : t.length < 1024) {k : Nat} (hk : 1024 ≤ t.length + k)
    (more : List Byte) (later : List Received) :
    ∃ buf' : Buffer, buf'.Holds t ∧
      (∀ f, handle libxml t = .error f →
        (loop libxml buf (readAll (t ++ (List.replicate k NUL ++ more)) ++ later)).2 =
          .crashed f) ∧
      ∀ es, handle libxml t = .ok es →
        loop libxml buf (readAll (t ++ (List.replicate k NUL ++ more)) ++ later) =
          (⟨some t, es⟩ :: (loop libxml buf'
              (readAll (List.replicate (t.length + k - 1024) NUL ++ more) ++ later)).1,
            (loop libxml buf'
              (readAll (List.replicate (t.length + k - 1024) NUL ++ more) ++ later)).2) := by
  obtain ⟨htake, hdrop⟩ := take_padded (Nat.le_of_lt ht) hk more
  have hne : t ++ (List.replicate k NUL ++ more) ≠ [] := by
    intro h
    have hlength := congrArg List.length h
    rw [List.length_append, List.length_append, List.length_replicate, List.length_nil] at hlength
    omega
  have hfull : ((t ++ (List.replicate k NUL ++ more)).take 1024).length = 1024 := by
    rw [htake, List.length_append, List.length_replicate]
    omega
  have hholds : (buf.readSome ⟨(t ++ (List.replicate k NUL ++ more)).take 1024,
      List.length_take_le _ _⟩).Holds t := by
    refine ⟨hn, ?_⟩
    rw [readSome_full buf hfull]
    exact htake
  rw [readAll_of_ne_nil hne, hdrop, List.cons_append]
  exact ⟨_, hholds, loop_text (hholds.str ht) _⟩

variable (libxml) in
/-- A text with nothing behind it is whole if it covers the last one. -/
theorem loop_last {s : List Byte} (hs : buf.Holds s) (hn : NUL ∉ t) (hne : t ≠ [])
    (hl : s.length ≤ t.length) (ht : t.length < 1024) (later : List Received) :
    ∃ buf' : Buffer, buf'.Holds t ∧ ∀ es, handle libxml t = .ok es →
      loop libxml buf (readAll t ++ later) =
        (⟨some t, es⟩ :: (loop libxml buf' later).1, (loop libxml buf' later).2) := by
  obtain ⟨r, hr, hread⟩ : ∃ r : Received, r.bytes = t ∧ readAll t = [r] := by
    refine ⟨⟨t.take 1024, List.length_take_le _ _⟩, List.take_of_length_le (Nat.le_of_lt ht), ?_⟩
    rw [readAll_of_ne_nil hne, List.drop_of_length_le (Nat.le_of_lt ht), readAll_nil]
  have hholds : (buf.readSome r).Holds t := by
    rw [← hr]
    exact readSome_holds hs (hr ▸ hn) (hr ▸ hl)
  rw [hread, List.singleton_append]
  exact ⟨_, hholds, (loop_text (hholds.str ht) later).2⟩

end

/-! ## What is shown -/

/-- All that the reads led to. -/
def screen (handled : List Handled) : List Event := handled.flatMap Handled.events

/-- Of an answer the client shows three empty lines and the result. -/
def answerShown : List Event :=
  [.printed [], .printed [], .printed [], .junk (bytes "result") (bytes "Iko Iko")]

/-- The value of the root, which is the text in a command. -/
def commandShown (value : List Byte) : List Event :=
  if value = bytes "help" then [.helloWorld] else []

section
variable {libxml : Libxml}

theorem handle_tree {t : List Byte} (hm : t.head? = some langle) {root : Node}
    (ht : libxml t = some root) {x : XMLNode} (hx : extractNode root = .ok x) :
    handle libxml t = .ok
      (if x.name = bytes "command" then commandShown x.value
        else if x.name = bytes "data" then [.data x.value]
        else [.junk x.name x.value]) := by
  have hlength : ¬ t.length = 0 := by
    intro h
    rw [List.length_eq_zero_iff.mp h] at hm
    exact absurd hm (by simp)
  have hparse : parseMem libxml none t = .ok (true, some x) := by
    rw [parseMem, if_neg hlength, ht]
    simp only [hx]
    rfl
  rw [handle, if_pos hm, hparse]
  show (if x.name = bytes "command" then Except.ok (commandShown x.value)
    else if x.name = bytes "data" then .ok [.data x.value] else .ok [.junk x.name x.value]) = _
  by_cases hcommand : x.name = bytes "command"
  · rw [if_pos hcommand, if_pos hcommand]
  · rw [if_neg hcommand, if_neg hcommand]
    by_cases hdata : x.name = bytes "data"
    · rw [if_pos hdata, if_pos hdata]
    · rw [if_neg hdata, if_neg hdata]

/-- What libxml2 rejects ends the handler. -/
theorem handle_rejected {t : List Byte} (hm : t.head? = some langle) (ht : libxml t = none) :
    handle libxml t = .error .noDocument := by
  have hlength : ¬ t.length = 0 := by
    intro h
    rw [List.length_eq_zero_iff.mp h] at hm
    exact absurd hm (by simp)
  have hparse : parseMem libxml none t = .ok (false, none) := by
    rw [parseMem, if_neg hlength, ht]
  rw [handle, if_pos hm, hparse]
  rfl

theorem handle_blank : handle libxml [] = .ok [.printed []] := rfl

variable (hlib : ReadsPadded libxml)

include hlib

theorem handle_command {c : Command} (h : PlainArgs c) :
    handle libxml c.text = .ok (commandShown (firstLine c.node.getContent)) := by
  have hwhole := whole_text h
  obtain ⟨x, hx⟩ := (extractNode_ok_iff c.document).mpr c.sound_document.1
  have htree : libxml c.text = some c.document :=
    (libxml_text hlib hwhole.begins (nul_not_mem_of_legal hwhole.legal)).trans hwhole.alone
  have hname : x.name = bytes "command" := (extractNode_spec hx).1
  have hvalue : x.value = valueOf [c.node] := extractNode_value hx
  rw [handle_tree hwhole.begins.head htree hx, if_pos hname, hvalue]
  rfl

theorem handle_result :
    handle libxml resultText = .ok [.junk (bytes "result") (bytes "Iko Iko")] := by
  have hx : extractNode (.element (bytes "result") [] [.text (bytes "Iko Iko")]) =
      .ok ⟨bytes "result", bytes "Iko Iko", [], []⟩ :=
    extractNode_leaf (bytes "result") (show Verbatim (bytes "Iko Iko") by decide)
  have htree : libxml resultText =
      some (.element (bytes "result") [] [.text (bytes "Iko Iko")]) :=
    (libxml_text hlib whole_result.begins (nul_not_mem_of_legal whole_result.legal)).trans
      whole_result.alone
  rw [handle_tree whole_result.begins.head htree hx, if_neg (by decide), if_neg (by decide)]

/-- A document with a command behind it ends the handler, in one way or the other. -/
theorem loop_followed {x : List Byte} {root : Node} (hx : Whole x root) {c : Command}
    (hc : PlainArgs c) (buf : Buffer) (more : List Byte) (later : List Received) :
    (loop libxml buf (readAll (x ++ (answer c ++ more)) ++ later)).2 ≠ .waiting := by
  have hwhole := whole_text hc
  have hn : NUL ∉ x ++ c.text := by
    rw [List.mem_append, not_or]
    exact ⟨nul_not_mem_of_legal hx.legal, nul_not_mem_of_legal hwhole.legal⟩
  have hpending : x ++ (answer c ++ more) = (x ++ c.text) ++
      (List.replicate (4096 - c.text.length) NUL ++ (resultText ++ more)) := by
    rw [answer_eq, List.append_assoc]
  by_cases hlong : 1024 ≤ (x ++ c.text).length
  · rw [hpending, loop_long hn hlong]
    decide
  · have hk : 1024 ≤ (x ++ c.text).length + (4096 - c.text.length) := by
      rw [List.length_append]
      omega
    have hrejected : libxml (x ++ c.text) = none := by
      rw [libxml_text hlib (hx.begins.append _) hn, Command.text, createCommand_body c.sent.1]
      exact hx.followed _
    have hhead : (x ++ c.text).head? = some langle := (hx.begins.append c.text).head
    obtain ⟨_, -, hcrash, -⟩ := loop_padded libxml buf hn
      (Nat.lt_of_not_le hlong) hk (resultText ++ more) later
    rw [hpending, hcrash _ (handle_rejected hhead hrejected)]
    decide

end

section
variable {libxml : Libxml}

variable (libxml) in
/-- An array of zeros is an empty line. -/
theorem loop_blank (buf : Buffer) {k : Nat} (hk : 1024 ≤ k) (more : List Byte)
    (later : List Received) :
    ∃ buf' : Buffer, buf'.Holds [] ∧
      loop libxml buf (readAll (List.replicate k NUL ++ more) ++ later) =
        (⟨some [], [.printed []]⟩ ::
            (loop libxml buf' (readAll (List.replicate (k - 1024) NUL ++ more) ++ later)).1,
          (loop libxml buf' (readAll (List.replicate (k - 1024) NUL ++ more) ++ later)).2) := by
  have hk' : 1024 ≤ ([] : List Byte).length + k := by
    rw [List.length_nil]
    omega
  obtain ⟨buf', hholds, -, hok⟩ :=
    loop_padded libxml buf List.not_mem_nil (by decide) hk' more later
  refine ⟨buf', hholds, ?_⟩
  have hread := hok _ handle_blank
  rw [List.nil_append, List.length_nil, Nat.zero_add] at hread
  exact hread

variable (hlib : ReadsPadded libxml)

include hlib

/-- The first four arrays of an answer: the command itself, and zeros. -/
theorem loop_front {c : Command} (hc : PlainArgs c)
    (hvalue : firstLine c.node.getContent ≠ bytes "help") (hshort : c.text.length < 1024)
    (buf : Buffer) (more : List Byte) (later : List Received) :
    ∃ (buf' : Buffer) (handled : List Handled), buf'.Holds [] ∧
      screen handled = [.printed [], .printed [], .printed []] ∧
      loop libxml buf (readAll (answer c ++ more) ++ later) =
        (handled ++ (loop libxml buf' (readAll (resultText ++ more) ++ later)).1,
          (loop libxml buf' (readAll (resultText ++ more) ++ later)).2) := by
  have hn := nul_not_mem_of_legal (whole_text hc).legal
  have hk : 1024 ≤ c.text.length + (4096 - c.text.length) := by omega
  have hzeros : c.text.length + (4096 - c.text.length) - 1024 = 3072 := by omega
  have hcommand : handle libxml c.text = .ok [] := by
    rw [handle_command hlib hc, commandShown, if_neg hvalue]
  obtain ⟨buf1, -, -, h1⟩ := loop_padded libxml buf hn hshort hk (resultText ++ more) later
  obtain ⟨buf2, -, h2⟩ := loop_blank libxml buf1 (show 1024 ≤ 3072 by decide)
    (resultText ++ more) later
  obtain ⟨buf3, -, h3⟩ := loop_blank libxml buf2 (show 1024 ≤ 2048 by decide)
    (resultText ++ more) later
  obtain ⟨buf4, hholds, h4⟩ := loop_blank libxml buf3 (show 1024 ≤ 1024 by decide)
    (resultText ++ more) later
  refine ⟨buf4, [⟨some c.text, []⟩, ⟨some [], [.printed []]⟩, ⟨some [], [.printed []]⟩,
    ⟨some [], [.printed []]⟩], hholds, rfl, ?_⟩
  have hnone : List.replicate (1024 - 1024) NUL ++ (resultText ++ more) = resultText ++ more := rfl
  rw [answer_eq, h1 _ hcommand, hzeros, h2, show 3072 - 1024 = 2048 from rfl, h3,
    show 2048 - 1024 = 1024 from rfl, h4, hnone]
  rfl

/-- An answer that is read alone. -/
theorem loop_answer {c : Command} (hc : PlainArgs c)
    (hvalue : firstLine c.node.getContent ≠ bytes "help") (hshort : c.text.length < 1024)
    (buf : Buffer) (later : List Received) :
    ∃ (buf' : Buffer) (handled : List Handled), screen handled = answerShown ∧
      loop libxml buf (readAll (answer c) ++ later) =
        (handled ++ (loop libxml buf' later).1, (loop libxml buf' later).2) := by
  obtain ⟨buf', handled, hholds, hscreen, hfront⟩ := loop_front hlib hc hvalue hshort buf [] later
  obtain ⟨buf'', -, hlast⟩ := loop_last libxml hholds
    (nul_not_mem_of_legal whole_result.legal) (show resultText ≠ [] by decide) (Nat.zero_le _)
    (show resultText.length < 1024 by decide) later
  refine ⟨buf'', handled ++ [⟨some resultText, [.junk (bytes "result") (bytes "Iko Iko")]⟩], ?_, ?_⟩
  · rw [screen, List.flatMap_append, ← screen, hscreen]
    rfl
  · rw [List.append_nil, List.append_nil] at hfront
    rw [hfront, hlast _ (handle_result hlib)]
    simp

/-! ## What is there when the client reads -/

/-- The reads of what has come in, one burst of whole texts after the other. -/
def readBursts (bursts : List (List (List Byte))) : List Received :=
  bursts.flatMap fun b => readAll b.flatten

/-- No text of a burst is behind another. -/
def Single (bursts : List (List (List Byte))) : Prop := ∀ b ∈ bursts, b.length ≤ 1

/-- The texts in the command are plain, and its value is not `help`. -/
def Ordinary (c : Command) : Prop := PlainArgs c ∧ firstLine c.node.getContent ≠ bytes "help"

omit hlib in
theorem readBursts_cons (b : List (List Byte)) (bursts : List (List (List Byte))) :
    readBursts (b :: bursts) = readAll b.flatten ++ readBursts bursts := List.flatMap_cons

omit hlib in
theorem loop_overlong {x : List Byte} (hn : NUL ∉ x) (hlong : ¬ x.length < 1024) (buf : Buffer)
    (more : List Byte) (later : List Received) :
    (loop libxml buf (readAll (x ++ more) ++ later)).2 ≠ .waiting := by
  rw [loop_long hn (Nat.le_of_not_lt hlong)]
  decide

theorem answers_shown {bursts : List (List (List Byte))} {cs : List Command}
    (h : bursts.flatten = cs.map answer) (hcs : ∀ c ∈ cs, Ordinary c) (buf : Buffer) :
    ((loop libxml buf (readBursts bursts)).2 = .waiting ↔
      Single bursts ∧ ∀ c ∈ cs, c.text.length < 1024) ∧
    ((loop libxml buf (readBursts bursts)).2 = .waiting →
      screen (loop libxml buf (readBursts bursts)).1 = cs.flatMap fun _ => answerShown) := by
  induction bursts generalizing cs buf with
  | nil =>
    obtain rfl : cs = [] := List.map_eq_nil_iff.mp h.symm
    exact ⟨iff_of_true rfl ⟨by simp [Single], by simp⟩, fun _ => rfl⟩
  | cons b bursts ih =>
    rw [readBursts_cons]
    rw [List.flatten_cons] at h
    match b, h with
    | [], h =>
      rw [List.nil_append] at h
      have hsingle : Single ([] :: bursts) ↔ Single bursts := by simp [Single]
      rw [hsingle, List.flatten_nil, readAll_nil, List.nil_append]
      exact ih h hcs buf
    | [w], h =>
      obtain ⟨c, cs', rfl, rfl, hrest⟩ := List.map_eq_cons_iff.mp h.symm
      obtain ⟨hc, hcs'⟩ := List.forall_mem_cons.mp hcs
      have hsingle : Single ([answer c] :: bursts) ↔ Single bursts := by simp [Single]
      have hflat : [answer c].flatten = answer c := List.append_nil _
      rw [hsingle, hflat, List.forall_mem_cons]
      by_cases hshort : c.text.length < 1024
      · obtain ⟨buf', handled, hscreen, hloop⟩ :=
          loop_answer hlib hc.1 hc.2 hshort buf (readBursts bursts)
        obtain ⟨hiff, hshown⟩ := ih hrest.symm hcs' buf'
        rw [hloop, and_iff_right hshort]
        refine ⟨hiff, ?_⟩
        intro hwaiting
        rw [screen, List.flatMap_append, ← screen, ← screen, hscreen, hshown hwaiting,
          List.flatMap_cons]
      · have hlong : (loop libxml buf (readAll (answer c) ++ readBursts bursts)).2 ≠ .waiting := by
          rw [← List.append_nil (answer c), answer_eq]
          exact loop_overlong (nul_not_mem_of_legal (whole_text hc.1).legal) hshort buf _ _
        exact ⟨iff_of_false hlong fun hall => hshort hall.2.1, fun hw => absurd hw hlong⟩
    | w :: w' :: ws, h =>
      obtain ⟨c, cs', rfl, rfl, hrest⟩ := List.map_eq_cons_iff.mp h.symm
      obtain ⟨c', cs'', rfl, rfl, -⟩ := List.map_eq_cons_iff.mp hrest
      obtain ⟨hc, hcs'⟩ := List.forall_mem_cons.mp hcs
      have hc' := hcs' c' List.mem_cons_self
      have hno : ¬ Single ((answer c :: answer c' :: ws) :: bursts) := by
        intro hsingle
        have hlength := hsingle _ List.mem_cons_self
        simp at hlength
      have hflat : (answer c :: answer c' :: ws).flatten =
          answer c ++ (answer c' ++ ws.flatten) := by
        rw [List.flatten_cons, List.flatten_cons]
      have hends : (loop libxml buf (readAll (answer c :: answer c' :: ws).flatten ++
          readBursts bursts)).2 ≠ .waiting := by
        rw [hflat]
        by_cases hshort : c.text.length < 1024
        · obtain ⟨buf', handled, -, -, hfront⟩ := loop_front hlib hc.1 hc.2 hshort buf
            (answer c' ++ ws.flatten) (readBursts bursts)
          rw [hfront]
          exact loop_followed hlib whole_result hc'.1 buf' ws.flatten (readBursts bursts)
        · rw [answer_eq]
          exact loop_overlong (nul_not_mem_of_legal (whole_text hc.1).legal) hshort buf _ _
      exact ⟨iff_of_false hends fun hall => hno hall.1, fun hw => absurd hw hends⟩

/-- The same with the HELO of the daemon in front. -/
theorem greeted_shown {bursts : List (List (List Byte))} {g : Command} {cs : List Command}
    (h : bursts.flatten = g.text :: cs.map answer) (hg : PlainArgs g)
    (hcs : ∀ c ∈ cs, Ordinary c) :
    ((loop libxml Buffer.clear (readBursts bursts)).2 = .waiting ↔
      Single bursts ∧ g.text.length < 1024 ∧ ∀ c ∈ cs, c.text.length < 1024) ∧
    ((loop libxml Buffer.clear (readBursts bursts)).2 = .waiting →
      screen (loop libxml Buffer.clear (readBursts bursts)).1 =
        commandShown (firstLine g.node.getContent) ++ cs.flatMap fun _ => answerShown) := by
  have hwhole := whole_text hg
  have hn := nul_not_mem_of_legal hwhole.legal
  induction bursts with
  | nil => exact absurd h (by simp)
  | cons b bursts ih =>
    rw [readBursts_cons]
    rw [List.flatten_cons] at h
    match b, h with
    | [], h =>
      rw [List.nil_append] at h
      have hsingle : Single ([] :: bursts) ↔ Single bursts := by simp [Single]
      rw [hsingle, List.flatten_nil, readAll_nil, List.nil_append]
      exact ih h
    | [w], h =>
      obtain ⟨rfl, hrest⟩ : w = g.text ∧ bursts.flatten = cs.map answer := by simpa using h
      have hsingle : Single ([g.text] :: bursts) ↔ Single bursts := by simp [Single]
      have hflat : [g.text].flatten = g.text := List.append_nil _
      rw [hsingle, hflat]
      by_cases hshort : g.text.length < 1024
      · have hne : g.text ≠ [] := by
          intro hnil
          have hhead := hwhole.begins.head
          rw [hnil] at hhead
          exact absurd hhead (by simp)
        obtain ⟨buf', -, hlast⟩ := loop_last libxml clear_holds hn hne (Nat.zero_le _) hshort
          (readBursts bursts)
        obtain ⟨hiff, hshown⟩ := answers_shown hlib hrest hcs buf'
        rw [hlast _ (handle_command hlib hg), and_iff_right hshort]
        refine ⟨hiff, ?_⟩
        intro hwaiting
        rw [screen, List.flatMap_cons, ← screen, hshown hwaiting]
      · have hlong : (loop libxml Buffer.clear (readAll g.text ++ readBursts bursts)).2 ≠
            .waiting := by
          rw [← List.append_nil g.text]
          exact loop_overlong hn hshort _ _ _
        exact ⟨iff_of_false hlong fun hall => hshort hall.2.1, fun hw => absurd hw hlong⟩
    | w :: w' :: ws, h =>
      obtain ⟨rfl, hrest⟩ := List.cons.inj h
      obtain ⟨c, cs', rfl, rfl, -⟩ := List.map_eq_cons_iff.mp hrest.symm
      have hno : ¬ Single ((g.text :: answer c :: ws) :: bursts) := by
        intro hsingle
        have hlength := hsingle _ List.mem_cons_self
        simp at hlength
      have hends := loop_followed hlib hwhole (hcs c List.mem_cons_self).1 Buffer.clear ws.flatten
        (readBursts bursts)
      exact ⟨iff_of_false hends fun hall => hno hall.1, fun hw => absurd hw hends⟩

end

/-! ## A session -/

/-- The HELO with which the daemon answers the first read. -/
def greeting (host user : List Byte) : Command := ⟨.helo, host ++ blank :: user, by decide⟩

theorem greeting_args {host : List Byte} (h : blank ∉ host) (user : List Byte) :
    hostname (host ++ blank :: user) = host ∧
      Net.Commands.user (host ++ blank :: user) = some user := by
  have hall : ∀ b ∈ host, (b != blank) = true :=
    fun b hb => bne_iff_ne.mpr fun he => h (he ▸ hb)
  constructor
  · rw [hostname, List.takeWhile_append_of_pos hall]
    simp
  · rw [Net.Commands.user, if_pos (by simp), List.dropWhile_append_of_pos hall]
    simp

theorem greeting_plain {host user : List Byte} (h : blank ∉ host) (hh : Plain host)
    (hu : Plain user) : PlainArgs (greeting host user) := by
  obtain ⟨hhost, huser⟩ := greeting_args h user
  refine ⟨?_, ?_⟩
  · show Plain (hostname (host ++ blank :: user))
    rwa [hhost]
  · intro u hu'
    have hsome : some u = some user := hu'.symm.trans huser
    rw [Option.some.inj hsome]
    exact hu

theorem leaf_characters (name text : List Byte) :
    (Daemon.CommandStream.leaf name text).characters = text := by
  unfold Daemon.CommandStream.leaf
  by_cases h : text = []
  · rw [if_pos h, h]
    rfl
  · rw [if_neg h]
    simp [Node.characters, charactersAll]

theorem greeting_value {host user : List Byte} (h : blank ∉ host) (hh : Plain host)
    (hu : Plain user) : firstLine (greeting host user).node.getContent = host ++ user := by
  obtain ⟨hhost, huser⟩ := greeting_args h user
  have hnode : (greeting host user).node.getContent = host ++ user := by
    have hargs : (greeting host user).args = host ++ blank :: user := rfl
    have hcmd : (greeting host user).cmd = .helo := rfl
    simp [Command.node, hcmd, hargs, hhost, huser, Node.getContent, Node.characters,
      charactersAll, leaf_characters]
  rw [hnode]
  apply firstLine_of_not_mem
  rw [List.mem_append, not_or]
  exact ⟨hh.2.2.2.1, hu.2.2.2.1⟩

/-- What is typed behind the first word has a blank in front. -/
theorem split_args (line : List Byte) : (split line).2 = [] ∨ ∃ r, (split line).2 = blank :: r := by
  unfold split
  split
  · next hm =>
    cases hd : line.dropWhile (· != blank) with
    | nil => exact Or.inl rfl
    | cons b r =>
      have hb := List.head?_dropWhile_not (· != blank) line
      rw [hd] at hb
      have hblank : b = blank := by simpa using hb
      exact Or.inr ⟨r, by rw [hblank]⟩
  · exact Or.inl rfl

theorem plain_tail {r : List Byte} (h : Plain (blank :: r)) : Plain r := by
  obtain ⟨hlegal, hlt, hamp, hlf, hcr, hend⟩ := h
  refine ⟨(legal_cons (by decide) r).symm.trans hlegal, fun hm => hlt (List.mem_cons_of_mem _ hm),
    fun hm => hamp (List.mem_cons_of_mem _ hm), fun hm => hlf (List.mem_cons_of_mem _ hm),
    fun hm => hcr (List.mem_cons_of_mem _ hm), ?_⟩
  rw [occursIn, Bool.or_eq_false_iff] at hend
  exact hend.2

/-- A line with plain text behind its first word. -/
theorem commandOf_plain {line : List Byte} (h : Plain (split line).2) :
    PlainArgs (commandOf line) := by
  unfold PlainArgs
  have hargs : (commandOf line).args = (split line).2 := rfl
  cases hcmd : (commandOf line).cmd with
  | helo =>
    dsimp only
    rw [hargs]
    rcases split_args line with hnil | ⟨r, hr⟩
    · rw [hnil]
      exact ⟨by decide, fun u hu => absurd hu (by simp [Net.Commands.user])⟩
    · rw [hr] at h ⊢
      refine ⟨by simpa [hostname] using (show Plain [] by decide), ?_⟩
      intro u hu
      have hsome : some u = some r := by
        rw [← hu]
        simp [Net.Commands.user]
      rw [Option.some.inj hsome]
      exact plain_tail h
  | nop => exact h
  | list => exact h
  | poll => exact h
  | result => exact h
  | event => exact h

theorem commandOf_ordinary {line : List Byte} (h : Plain (split line).2)
    (hhelo : (commandOf line).cmd ≠ .helo) : Ordinary (commandOf line) := by
  refine ⟨commandOf_plain h, ?_⟩
  have hcontent : (commandOf line).node.getContent = (split line).2 := by
    have hargs : (commandOf line).args = (split line).2 := rfl
    unfold Command.node
    rw [hargs]
    cases hcmd : (commandOf line).cmd with
    | helo => exact absurd hcmd hhelo
    | list => exact leaf_characters (bytes "list") _
    | poll => exact leaf_characters (bytes "poll") _
    | nop => exact leaf_characters (bytes "nop") _
    | result => exact leaf_characters (bytes "nop") _
    | event => exact leaf_characters (bytes "nop") _
  rw [hcontent, firstLine_of_not_mem h.2.2.2.1]
  rcases split_args line with hnil | ⟨r, hr⟩
  · rw [hnil]
    decide
  · rw [hr]
    intro he
    exact absurd (List.cons.inj he).1 (by decide)

/-- The client's handler goes on if and only if every text is read before the next one comes in,
and none fills the array. Then the answer to each command is shown, and no other one. -/
theorem session_shown {libxml : Libxml} (hlib : ReadsPadded libxml)
    {host user : List Byte} (hblank : blank ∉ host) (hhost : Plain host) (huser : Plain user)
    {lines : List (List Byte)} (hlines : ∀ l ∈ lines, Plain (split l).2)
    {rs : List Daemon.ClientHandler.Received} (hrs : Arrives rs (Handler.start.run lines))
    (hello : Daemon.ClientHandler.Received) {bursts : List (List (List Byte))}
    (hbursts : bursts.flatten =
      (Daemon.ClientHandler.clientHandler libxml host user (hello :: rs)).1.filterMap written)
    (clientHost clientUser : List Byte) :
    ((daemonHandler libxml clientHost clientUser (readBursts bursts)).2.2 = .waiting ↔
      Single bursts ∧ (greeting host user).text.length < 1024 ∧
        ∀ c ∈ answered (lines.map commandOf), c.text.length < 1024) ∧
    ((daemonHandler libxml clientHost clientUser (readBursts bursts)).2.2 = .waiting →
      screen (daemonHandler libxml clientHost clientUser (readBursts bursts)).2.1 =
        commandShown (host ++ user) ++
          (answered (lines.map commandOf)).flatMap fun _ => answerShown) := by
  have hplain : ∀ c ∈ lines.map commandOf, PlainArgs c := by
    intro c hc
    obtain ⟨l, hl, rfl⟩ := List.mem_map.mp hc
    exact commandOf_plain (hlines l hl)
  have hordinary : ∀ c ∈ answered (lines.map commandOf), Ordinary c := by
    intro c hc
    obtain ⟨hmem, hhelo⟩ := List.mem_filter.mp hc
    obtain ⟨l, hl, rfl⟩ := List.mem_map.mp hmem
    exact commandOf_ordinary (hlines l hl) (by simpa using hhelo)
  have htexts : Arrives rs ((lines.map commandOf).map Command.text) := by
    rw [List.map_map]
    have hrun : Handler.start.run lines = lines.map fun l => (commandOf l).text :=
      run_texts commands_nopElse lines
    exact hrun ▸ hrs
  have hwritten : bursts.flatten =
      (greeting host user).text :: (answered (lines.map commandOf)).map answer :=
    hbursts.trans (handler_written hlib htexts hplain host user hello)
  have hshown := greeted_shown hlib hwritten (greeting_plain hblank hhost huser) hordinary
  rw [greeting_value hblank hhost huser] at hshown
  exact hshown

/-- A libxml2 that takes a NUL for the end of the text. -/
def untilNul : Libxml := fun s => document (cstr s)

theorem readsPadded_untilNul : ReadsPadded untilNul := by
  intro t _ hn k
  have hcut : cstr (t ++ List.replicate k NUL) = t := by
    rw [cstr_append hn]
    cases k with
    | zero => exact List.append_nil t
    | succ k => exact List.append_nil t
  rw [untilNul, hcut]

def typedNop : Command := commandOf (bytes "nop")

def readNop : Daemon.ClientHandler.Received := Daemon.CommandStream.read typedNop.text

/-- The answers to two NOPs come in before the first is read. -/
theorem hasty_ends :
    (daemonHandler untilNul (bytes "pc") (bytes "pg")
      (readBursts [[(greeting (bytes "pi") (bytes "pg")).text],
        [answer typedNop, answer typedNop]])).2.2 ≠ .waiting := by
  have hlib : ReadsPadded untilNul := readsPadded_untilNul
  have hrs : Arrives [readNop, readNop] (Handler.start.run [bytes "nop", bytes "nop"]) :=
    ⟨by decide, by decide⟩
  have hnops : Arrives [readNop, readNop] ([typedNop, typedNop].map Command.text) :=
    ⟨by decide, by decide⟩
  have hplain : ∀ c ∈ [typedNop, typedNop], PlainArgs c := by
    intro c hc
    have hnop : c = typedNop := by simpa using hc
    rw [hnop]
    exact commandOf_plain (by decide)
  have hbursts : [[(greeting (bytes "pi") (bytes "pg")).text],
      [answer typedNop, answer typedNop]].flatten = (Daemon.ClientHandler.clientHandler untilNul
        (bytes "pi") (bytes "pg") [readNop, readNop, readNop]).1.filterMap written :=
    (handler_written hlib hnops hplain (bytes "pi") (bytes "pg") readNop).symm
  have hsession := session_shown hlib (show blank ∉ bytes "pi" by decide) (by decide)
    (show Plain (bytes "pg") by decide) (by decide) hrs readNop hbursts (bytes "pc") (bytes "pg")
  intro hwaiting
  have hsingle := (hsession.1.mp hwaiting).1 [answer typedNop, answer typedNop] (by simp)
  exact absurd hsingle (by decide)

end PowerGuru.Client.Session
