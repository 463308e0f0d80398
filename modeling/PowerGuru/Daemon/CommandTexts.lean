import PowerGuru.Daemon.CommandStream
import PowerGuru.Net.XmlRoundTrip

/-!
# Commands and their answers as documents

A command is a document, and so is the result behind it in an answer. What libxml2 does not read is
a document with a command behind it.
-/
namespace PowerGuru.Daemon.CommandTexts

open Lib.Bytes Net.Xml Net.XmlText Net.Commands Net.RoundTrip ClientHandler CommandStream

/-! ## What libxml2 makes of it -/

/-- The root, and then nothing but what may stand behind it. -/
theorem document_behind {tag : TagName} {z r : List Byte} {children : List Node}
    (hc : content (tag.start ++ z).length [bytes "xml"] z = some (children, tag.stop ++ r)) :
    document (tag.start ++ z) =
      if legal (tag.start ++ z) = true ∧ misc (r.length + 1) r = true then
        some (.element tag.name [] children)
      else none := by
  have hstart : tag.start ++ z = 60 :: (tag.name ++ 62 :: z) := by simp [TagName.start]
  have hstrip : strip (bytes "<") (60 :: (tag.name ++ 62 :: z)) = some (tag.name ++ 62 :: z) :=
    strip_append [60] _
  by_cases hl : legal (tag.start ++ z) = true
  · rw [document, if_pos hl, hstart, hstrip]
    dsimp only
    rw [element_tag, ← hstart, hc, enclosed, closeTag_stop]
    simp only [Option.map_some, hl, true_and]
  · rw [document, if_neg hl, if_neg fun h => hl h.1]

/-- No second element. -/
theorem misc_element {blanks : List Byte} (hb : blanks.all isS = true) (n : Nat) (y : List Byte) :
    misc n (blanks ++ (commandTag.start ++ y)) = false := by
  have hdrop : (blanks ++ (commandTag.start ++ y)).dropWhile isS = commandTag.start ++ y := by
    rw [List.dropWhile_append_of_pos (List.all_eq_true.mp hb)]
    rfl
  cases n with
  | zero => rfl
  | succ n =>
    rw [misc, hdrop]
    rfl

def resultTag : TagName := ⟨bytes "result", by decide, by decide, by decide⟩

/-- The text begins like a command or a result. -/
def Begins (x : List Byte) : Prop := ∃ tag ∈ [commandTag, resultTag], ∃ s, x = tag.start ++ s

theorem Begins.head {x : List Byte} (h : Begins x) : x.head? = some langle := by
  obtain ⟨tag, -, s, rfl⟩ := h
  rfl

theorem Begins.append {x : List Byte} (h : Begins x) (y : List Byte) : Begins (x ++ y) := by
  obtain ⟨tag, htag, s, rfl⟩ := h
  exact ⟨tag, htag, s ++ y, List.append_assoc _ _ _⟩

/-- A text that is read as a document, but not with a command behind it. -/
structure Whole (x : List Byte) (root : Node) : Prop where
  begins : Begins x
  legal : legal x = true
  alone : document x = some root
  followed : ∀ y, document (x ++ (commandTag.start ++ y)) = none

theorem whole_of_content {tag : TagName} (htag : tag ∈ [commandTag, resultTag]) (fuel : Nat)
    {inner blanks : List Byte} {children : List Node}
    (hfuel : fuel ≤ (tag.start ++ inner).length) (hb : blanks.all isS = true)
    (hl : legal (tag.start ++ (inner ++ (tag.stop ++ blanks))) = true)
    (hc : ∀ k scope r, content (k + fuel) scope (inner ++ (tag.stop ++ r)) =
      some (children, tag.stop ++ r)) :
    Whole (tag.start ++ (inner ++ (tag.stop ++ blanks))) (.element tag.name [] children) := by
  have hread : ∀ r, content (tag.start ++ (inner ++ (tag.stop ++ r))).length [bytes "xml"]
      (inner ++ (tag.stop ++ r)) = some (children, tag.stop ++ r) := by
    intro r
    have hlength : fuel ≤ (tag.start ++ (inner ++ (tag.stop ++ r))).length := by
      simp only [List.length_append] at hfuel ⊢
      omega
    obtain ⟨k, hk⟩ := Nat.exists_eq_add_of_le' hlength
    rw [hk, hc]
  refine ⟨⟨tag, htag, _, rfl⟩, hl, ?_, ?_⟩
  · have hmisc : misc (blanks.length + 1) blanks = true := by
      have hdrop : blanks.dropWhile isS = [] :=
        List.dropWhile_eq_nil_iff.mpr (List.all_eq_true.mp hb)
      rw [misc, hdrop]
      rfl
    rw [document_behind (hread blanks), if_pos ⟨hl, hmisc⟩]
  · intro y
    have hmisc := misc_element hb ((blanks ++ (commandTag.start ++ y)).length + 1) y
    rw [List.append_assoc, List.append_assoc, List.append_assoc,
      document_behind (hread (blanks ++ (commandTag.start ++ y))), hmisc]
    exact if_neg (by simp)

/-- What stands behind a command that is answered. -/
def resultText : List Byte := createCommand .result (bytes "Iko Iko") []

theorem whole_result :
    Whole resultText (.element (bytes "result") [] [.text (bytes "Iko Iko")]) := by
  have hverbatim : Verbatim (bytes "Iko Iko") := by decide
  have htext : resultText =
      resultTag.start ++ (bytes "Iko Iko" ++ (resultTag.stop ++ [])) := by decide
  rw [htext]
  refine whole_of_content (by simp) 2 (by decide) rfl (by decide) ?_
  intro k scope r
  exact content_leaf hverbatim resultTag k scope r

/-- The texts in a command are plain. -/
def PlainArgs (c : Command) : Prop :=
  match c.cmd with
  | .helo => Plain (hostname c.args) ∧ ∀ u, user c.args = some u → Plain u
  | _ => Plain c.args

theorem whole_tagged {cmd : Cmd} {tag : TagName} (h : tagOf cmd = some tag) {args : List Byte}
    (hp : Plain args) :
    Whole (createCommand cmd args [])
      (.element commandTag.name [] [.element tag.name [] (leaf args)]) := by
  have htext : createCommand cmd args [] = commandTag.start ++
      ((tag.start ++ (args ++ tag.stop)) ++ (commandTag.stop ++ [LF])) := by
    rw [createCommand_text h, behind]
    simp only [List.append_assoc]
  have hlegal : legal (createCommand cmd args []) = true := by
    rw [createCommand_text h, legal_text h]
    exact hp.1
  have hstart : commandTag.start.length = 9 := rfl
  rw [htext] at hlegal ⊢
  refine whole_of_content (by simp) 3 ?_ rfl hlegal ?_
  · rw [List.length_append, hstart]
    omega
  · intro k scope r
    rw [List.append_assoc, List.append_assoc, content_tagged hp.2, content_stop]
    rfl

/-- The children of a HELO. -/
def peer (host : List Byte) (user : Option (List Byte)) : List Byte :=
  tagged hostnameTag.name host ++
    match user with
    | none => []
    | some u => tagged userTag.name u

def peerNodes (host : List Byte) (user : Option (List Byte)) : List Node :=
  .element hostnameTag.name [] (leaf host) ::
    match user with
    | none => []
    | some u => [.element userTag.name [] (leaf u)]

theorem content_peer {host : List Byte} (hh : Verbatim host) {user : Option (List Byte)}
    (hu : ∀ u, user = some u → Verbatim u) (tag : TagName) (k : Nat) (scope : Scope)
    (r : List Byte) :
    content (k + 5) scope (peer host user ++ (tag.stop ++ r)) =
      some (peerNodes host user, tag.stop ++ r) := by
  unfold peer peerNodes
  cases user with
  | none =>
    rw [tagged_eq, List.append_nil, List.append_assoc, List.append_assoc, content_tagged hh,
      content_stop]
    rfl
  | some u =>
    dsimp only
    rw [tagged_eq, tagged_eq]
    simp only [List.append_assoc]
    rw [content_tagged hh, content_tagged (hu u rfl), content_stop]
    rfl

theorem legal_peer {host : List Byte} (hh : legal host = true) {user : Option (List Byte)}
    (hu : ∀ u, user = some u → legal u = true) {z : List Byte} (hz : legal (60 :: z) = true) :
    legal (peer host user ++ 60 :: z) = true := by
  have hfront : ∀ w : List Byte, w.all isAscii = true → ∀ x y : List Byte, legal x = true →
      legal (60 :: y) = true → legal (w ++ (x ++ 60 :: y)) = true := by
    intro w hw x y hx hy
    rw [legal_between hw, hx, hy]
    rfl
  have hstop : ∀ tag : TagName, tag.stop.all isAscii = true →
      legal (60 :: (47 :: (tag.name ++ [62]) ++ 60 :: z)) = true := by
    intro tag htag
    rw [← stop_cons, legal_ascii_append htag]
    exact hz
  unfold peer
  cases user with
  | none =>
    rw [tagged_eq, List.append_nil, List.append_assoc, List.append_assoc]
    exact hfront hostnameTag.start (by decide) host _ hh (hstop hostnameTag (by decide))
  | some u =>
    dsimp only
    rw [tagged_eq, tagged_eq]
    simp only [List.append_assoc]
    have huser := hfront (hostnameTag.stop ++ userTag.start) (by decide) u _ (hu u rfl)
      (hstop userTag (by decide))
    rw [List.append_assoc] at huser
    exact hfront hostnameTag.start (by decide) host _ hh huser

theorem whole_helo {args : List Byte} (hh : Plain (hostname args))
    (hu : ∀ u, user args = some u → Plain u) :
    Whole (createCommand .helo args [])
      (.element commandTag.name [] [.element heloTag.name []
        (peerNodes (hostname args) (user args))]) := by
  have hbody : createBody .helo args =
      heloTag.start ++ (peer (hostname args) (user args) ++ heloTag.stop) := by
    rw [← tagged_eq]
    unfold createBody peer
    cases user args with
    | none =>
      rw [List.append_nil]
      rfl
    | some u => rfl
  have htext : createCommand .helo args [] = commandTag.start ++
      ((heloTag.start ++ (peer (hostname args) (user args) ++ heloTag.stop)) ++
        (commandTag.stop ++ [LF])) := by
    rw [createCommand_body (by decide), hbody]
  have hlegal : legal (createCommand .helo args []) = true := by
    have hpeer := legal_peer hh.1 (fun u h => (hu u h).1)
      (show legal (60 :: (47 :: (heloTag.name ++ [62]) ++ (commandTag.stop ++ [LF]))) = true by
        decide)
    rw [htext, List.append_assoc, List.append_assoc, ← List.append_assoc commandTag.start,
      legal_ascii_append (by decide)]
    exact hpeer
  have hstart : commandTag.start.length = 9 := rfl
  rw [htext] at hlegal ⊢
  refine whole_of_content (by simp) 6 ?_ rfl hlegal ?_
  · rw [List.length_append, hstart]
    omega
  · intro k scope r
    rw [List.append_assoc, List.append_assoc, content_tag,
      content_peer hh.2 (fun u h => (hu u h).2), enclosed, closeTag_stop]
    simp only [Option.map_some, Option.bind_some, content_stop]

theorem whole_text {c : Command} (h : PlainArgs c) : Whole c.text c.document := by
  obtain ⟨cmd, args, hsent⟩ := c
  cases cmd with
  | nop => exact whole_tagged (show tagOf .nop = some nopTag from rfl) h
  | list => exact whole_tagged (show tagOf .list = some listTag from rfl) h
  | poll => exact whole_tagged (show tagOf .poll = some pollTag from rfl) h
  | helo =>
    have hwhole := whole_helo h.1 h.2
    have hdocument : Command.document ⟨.helo, args, hsent⟩ =
        .element commandTag.name [] [.element heloTag.name []
          (peerNodes (hostname args) (user args))] := by
      unfold Command.document Command.node peerNodes
      cases user args <;> rfl
    rw [hdocument]
    exact hwhole
  | result => exact absurd rfl hsent.1
  | event => exact absurd rfl hsent.2

/-! ## What the daemon writes -/

/-- What the handler puts on the socket. -/
def written : Event → Option (List Byte)
  | .acknowledged text => some text
  | .answered reply => some reply
  | _ => none

/-- The answer to a command: the whole array it was read into, and the result. -/
def answer (c : Command) : List Byte :=
  createCommand .result (bytes "Iko Iko") (arrived c.text)

theorem answer_eq (c : Command) (more : List Byte) :
    answer c ++ more = c.text ++
      (List.replicate (4096 - c.text.length) NUL ++ (resultText ++ more)) := by
  simp [answer, createCommand, arrived, resultText]

/-- The commands that are answered. -/
def answered (cs : List Command) : List Command := cs.filter fun c => c.cmd != .helo

/-- Every text arrives in a read of its own. What is not marked may come between them. -/
structure Arrives (rs : List Received) (texts : List (List Byte)) : Prop where
  no_error : ∀ r ∈ rs, r.error = none
  texts_eq : (rs.filter fun r => r.bytes.head? == some langle).map (·.bytes) = texts

/-- Such a text is read as it is, and any zeros behind it as its end. -/
def ReadsPadded (libxml : Libxml) : Prop :=
  ∀ t, Begins t → NUL ∉ t → ∀ k, libxml (t ++ List.replicate k NUL) = document t

section
variable {libxml : Libxml} (hlib : ReadsPadded libxml)

include hlib

theorem libxml_text {t : List Byte} (ht : Begins t) (h : NUL ∉ t) : libxml t = document t := by
  have hread := hlib t ht h 0
  rwa [List.replicate_zero, List.append_nil] at hread

theorem libxml_arrived {c : Command} (h : PlainArgs c) :
    libxml (arrived c.text) = some c.document := by
  have hwhole := whole_text h
  exact (hlib _ hwhole.begins (nul_not_mem_of_legal hwhole.legal) _).trans hwhole.alone

theorem loop_written {rs : List Received} {cs : List Command}
    (h : Arrives rs (cs.map Command.text)) (hp : ∀ c ∈ cs, PlainArgs c) :
    (loop libxml rs).1.filterMap written = (answered cs).map answer := by
  induction rs generalizing cs with
  | nil =>
    have hcs : cs = [] := List.map_eq_nil_iff.mp h.texts_eq.symm
    rw [hcs]
    rfl
  | cons r rs ih =>
    obtain ⟨hr, hrs⟩ := List.forall_mem_cons.mp h.no_error
    have heof : r.error ≠ some .eof := by simp [hr]
    by_cases hm : r.bytes.head? = some langle
    · have htexts := h.texts_eq
      rw [List.filter_cons_of_pos (by simpa using hm), List.map_cons] at htexts
      obtain ⟨c, cs', hcs⟩ : ∃ c cs', cs = c :: cs' := by
        apply List.exists_cons_of_ne_nil
        rintro rfl
        exact absurd htexts (by simp)
      subst hcs
      obtain ⟨hbytes, hrest⟩ := List.cons.inj htexts
      obtain ⟨hc, hcs⟩ := List.forall_mem_cons.mp hp
      have hmarked : (arrived r.bytes).head? =
          some langle := (head_arrived _).mpr hm
      have htree : libxml (arrived r.bytes) = some c.document := by
        rw [hbytes]
        exact libxml_arrived hlib hc
      have hlater := ih ⟨hrs, hrest⟩ hcs
      by_cases hhelo : c.cmd = .helo
      · obtain ⟨value, hes⟩ := process_greeting hmarked htree c.sound_document
          (c.greets_iff.mpr hhelo)
        have hout : answered (c :: cs') = answered cs' := List.filter_cons_of_neg (by simp [hhelo])
        rw [loop_ok heof hes, hout, ← hlater]
        rfl
      · obtain ⟨x, -, hes⟩ := process_command hmarked htree c.sound_document
          (fun hg => hhelo (c.greets_iff.mp hg))
        have hin : answered (c :: cs') = c :: answered cs' :=
          List.filter_cons_of_pos (by simp [hhelo])
        rw [loop_ok heof hes, hin, List.map_cons, ← hlater, answer, ← hbytes]
        rfl
    · have hmarked : (arrived r.bytes).head? ≠
          some langle :=
        fun hh => hm ((head_arrived _).mp hh)
      have htexts := h.texts_eq
      rw [List.filter_cons_of_neg (by simpa using hm)] at htexts
      rw [loop_ok heof
        (process_unmarked libxml hmarked), ← ih ⟨hrs, htexts⟩ hp]
      rfl

/-- First a HELO of its own, then an answer to each command. -/
theorem handler_written {rs : List Received} {cs : List Command}
    (h : Arrives rs (cs.map Command.text)) (hp : ∀ c ∈ cs, PlainArgs c) (host user : List Byte)
    (hello : Received) :
    (clientHandler libxml host user (hello :: rs)).1.filterMap written =
      createCommand .helo (host ++ blank :: user) [] :: (answered cs).map answer := by
  rw [← loop_written hlib h hp]
  rfl

end

end PowerGuru.Daemon.CommandTexts
