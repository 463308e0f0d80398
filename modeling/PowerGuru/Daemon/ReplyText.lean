import PowerGuru.Daemon.ClientRuns

/-!
# The texts of commands and replies

`createCommand` gets a string to hold its result. The handler gives it the request.
-/
namespace PowerGuru.Daemon.ReplyText

open Lib.Bytes Net.Xml Net.Commands ClientHandler ClientRuns

/-- Only RESULT keeps what the string held before. -/
theorem createCommand_same_iff (cmd : Cmd) (args s t : List Byte) :
    createCommand cmd args s = createCommand cmd args t ↔ cmd ≠ .result ∨ s = t := by
  by_cases hcmd : cmd = .result
  · rw [createCommand, if_pos hcmd, createCommand, if_pos hcmd, List.append_left_inj]
    simp [hcmd]
  · rw [createCommand, if_neg hcmd, createCommand, if_neg hcmd]
    simp [hcmd]

/-- What is written for a command is made of the command alone. -/
def Own : Event → Prop
  | .answered reply => reply = createCommand .result (bytes "Iko Iko") []
  | _ => True

/-- The message is parsed and is no helo. -/
def IsCommand (libxml : Libxml) (str : List Byte) : Prop :=
  str.head? = some langle ∧ ∃ root, libxml str = some root ∧ ¬ Greets root

/-- No message up to the end of the connection, or up to one that the handler does not survive,
is a command. -/
def Commandless (libxml : Libxml) : List Received → Prop
  | [] => True
  | r :: rs =>
      r.error = some .eof ∨ ¬ Harmless libxml (arrived r.bytes) ∨
        (¬ IsCommand libxml (arrived r.bytes) ∧ Commandless libxml rs)

section
variable {libxml : Libxml}

/-- A message is answered if it is a command, with itself in front of the result. -/
theorem process_own_iff {str : List Byte} {es : List Event} (h : process libxml str = .ok es) :
    (∀ e ∈ es, Own e) ↔ ¬ IsCommand libxml str := by
  have hharmless := (process_ok_iff str).mp ⟨es, h⟩
  by_cases hm : str.head? = some langle
  · obtain ⟨root, hp, hs⟩ := hharmless hm
    by_cases hg : Greets root
    · obtain ⟨value, hes⟩ := process_greeting hm hp hs hg
      obtain rfl := Except.ok.inj (h.symm.trans hes)
      simp [Own, IsCommand, hp, hg]
    · obtain ⟨x, -, hes⟩ := process_command hm hp hs hg
      obtain rfl := Except.ok.inj (h.symm.trans hes)
      have hcommand : IsCommand libxml str := ⟨hm, root, hp, hg⟩
      have hne : str ≠ [] := by
        rintro rfl
        exact absurd hm (by simp)
      refine iff_of_false ?_ (fun hno => hno hcommand)
      intro hall
      have hreply : Own (.answered (createCommand .result (bytes "Iko Iko") str)) :=
        hall _ (by simp)
      rw [Own, createCommand_same_iff] at hreply
      exact hreply.elim (fun hcmd => hcmd rfl) hne
  · rw [process_unmarked libxml hm] at h
    obtain rfl := Except.ok.inj h
    simp [IsCommand, hm]

theorem loop_own_iff (rs : List Received) :
    (∀ e ∈ (loop libxml rs).1, Own e) ↔ Commandless libxml rs := by
  induction rs with
  | nil => simp [loop, Commandless]
  | cons r rs ih =>
    by_cases he : r.error = some .eof
    · rw [loop_eof he]
      simp [Commandless, he, Own]
    by_cases hb : Harmless libxml (arrived r.bytes)
    · obtain ⟨es, hes⟩ := (process_ok_iff _).mpr hb
      rw [loop_ok he hes, List.cons_append, List.forall_mem_cons, List.forall_mem_append,
        process_own_iff hes, ih]
      simp [Commandless, he, hb, Own]
    · obtain ⟨f, hf⟩ := loop_crash he hb rs
      rw [hf]
      simp [Commandless, he, hb, Own]

end

/-- The string that a RESULT is made in shows, and a NOP is sent back. -/
theorem nop_returned :
    createCommand .result (bytes "Iko Iko") (bytes "abc") ≠
        createCommand .result (bytes "Iko Iko") [] ∧
      ¬ ∀ e ∈ (clientHandler readsNop (bytes "pi") (bytes "pg") [garbage, nop]).1, Own e := by
  constructor
  · decide
  · have hharmless : Harmless readsNop (arrived nop.bytes) :=
      fun _ => ⟨nopDocument, nop_parsed, nopDocument_sound⟩
    have hcommand : IsCommand readsNop (arrived nop.bytes) :=
      ⟨nop_marked, nopDocument, nop_parsed, nopDocument_greets_not⟩
    intro h
    have hloop : ∀ e ∈ (loop readsNop [nop]).1, Own e :=
      fun e he => h e (List.mem_cons_of_mem _ (List.mem_cons_of_mem _ he))
    rcases (loop_own_iff [nop]).mp hloop with he | hb | ⟨hno, -⟩
    · exact absurd he (by decide)
    · exact hb hharmless
    · exact hno hcommand

/-- A command's text is its own unless it is a RESULT, and what the handler writes is until a
command is answered. -/
theorem texts_own_iff (libxml : Libxml) (host user : List Byte) (hello : Received)
    (rs : List Received) :
    (∀ cmd args s t, createCommand cmd args s = createCommand cmd args t ↔
        cmd ≠ .result ∨ s = t) ∧
      ((∀ e ∈ (clientHandler libxml host user (hello :: rs)).1, Own e) ↔
        Commandless libxml rs) := by
  refine ⟨createCommand_same_iff, ?_⟩
  rw [← loop_own_iff, clientHandler]
  simp [Own]

end PowerGuru.Daemon.ReplyText
