import PowerGuru.Daemon.ClientHandler

/-!
# Whole runs of `client_handler`

What the handler does over any sequence of reads: when it survives them, and when it
keeps the order of the handshake.
-/
namespace PowerGuru.Daemon.ClientRuns

open Lib.Bytes Net.Xml Net.Commands ClientHandler

variable (libxml : Libxml)

/-! ## Crashes -/

/-- Every message before the end of the connection is harmless. -/
def AllHarmless : List Received → Prop
  | [] => True
  | r :: rs => r.error = some .eof ∨ Harmless libxml (arrived r.bytes) ∧ AllHarmless rs

theorem loop_survives_iff (rs : List Received) :
    (∀ f, (loop libxml rs).2 ≠ .crashed f) ↔ AllHarmless libxml rs := by
  induction rs with
  | nil => simp [loop, AllHarmless]
  | cons r rs ih =>
    by_cases he : r.error = some .eof
    · rw [loop_eof he]
      simp [AllHarmless, he]
    by_cases hb : Harmless libxml (arrived r.bytes)
    · obtain ⟨es, hes⟩ := (process_ok_iff _).mpr hb
      rw [loop_ok he hes, ih]
      simp [AllHarmless, he, hb]
    · obtain ⟨f, hf⟩ := loop_crash he hb rs
      rw [hf]
      simp [AllHarmless, he, hb]

/-- A lone `<`, which no XML parser accepts. -/
def lone : Received := ⟨[langle], none, by decide⟩

theorem lone_angle_crashes :
    ¬ ∀ f,
      (clientHandler (fun _ => none) (bytes "pi") (bytes "pg") [lone, lone]).2 ≠ .crashed f := by
  have hb : ¬ Harmless (fun _ => none) (arrived lone.bytes) := by
    intro h
    obtain ⟨root, hp, -⟩ := h rfl
    exact absurd hp (by simp)
  obtain ⟨f, hf⟩ := loop_crash (by decide) hb []
  intro h
  apply h f
  rw [clientHandler, hf]

/-- The handler follows no bad pointer exactly if every marked message it reads parses to
a tree without empty attributes whose first child exists, and is no childless helo. -/
theorem handler_survives_iff (host user : List Byte) (hello : Received) (rs : List Received) :
    (∀ f, (clientHandler libxml host user (hello :: rs)).2 ≠ .crashed f) ↔ AllHarmless libxml rs :=
  loop_survives_iff libxml rs

/-! ## The handshake -/

/-- A well-formed `<command><helo>…</helo></command>`. -/
def isHelo (r : Received) : Bool :=
  match libxml (arrived r.bytes) with
  | some root =>
      root.name == bytes "command" &&
        (root.elements.map Node.name).head? == some (bytes "helo")
  | none => false

/-- Commands are executed and answered only after a helo, and nothing is processed or
written after a read that failed. -/
def Orderly : Bool → Bool → List Event → Prop
  | _, _, [] => True
  | greeted, failed, .received r :: es =>
      Orderly (greeted || isHelo libxml r) (failed || r.error.isSome) es
  | greeted, failed, .acknowledged _ :: es => failed = false ∧ Orderly greeted failed es
  | greeted, failed, .hostname _ :: es => failed = false ∧ Orderly greeted failed es
  | greeted, failed, .executed _ :: es =>
      greeted = true ∧ failed = false ∧ Orderly greeted failed es
  | greeted, failed, .answered _ :: es =>
      greeted = true ∧ failed = false ∧ Orderly greeted failed es

/-- The reads keep the handshake themselves: no message follows a failed read, and no
command comes before a helo. Reads behind the end of the run do not count. -/
def Polite : Bool → Bool → List Received → Prop
  | _, _, [] => True
  | greeted, failed, r :: rs =>
      let greeted' := greeted || isHelo libxml r
      let failed' := failed || r.error.isSome
      r.error = some .eof ∨ ¬ Harmless libxml (arrived r.bytes) ∨
        ((∀ root, (arrived r.bytes).head? = some langle → libxml (arrived r.bytes) = some root →
          failed' = false ∧ (Greets root ∨ greeted' = true)) ∧ Polite greeted' failed' rs)

theorem loop_orderly_iff (greeted failed : Bool) (rs : List Received) :
    Orderly libxml greeted failed (loop libxml rs).1 ↔ Polite libxml greeted failed rs := by
  induction rs generalizing greeted failed with
  | nil => simp [loop, Orderly, Polite]
  | cons r rs ih =>
    by_cases he : r.error = some .eof
    · rw [loop_eof he]
      simp [Orderly, Polite, he]
    by_cases hb : Harmless libxml (arrived r.bytes)
    · by_cases hm : (arrived r.bytes).head? = some langle
      · obtain ⟨root, hp, hs⟩ := hb hm
        by_cases hg : Greets root
        · obtain ⟨value, hes⟩ := process_greeting hm hp hs hg
          rw [loop_ok he hes]
          simp [Orderly, Polite, he, hb, hm, hp, hg, ih]
        · obtain ⟨x, -, hes⟩ := process_command hm hp hs hg
          rw [loop_ok he hes]
          simp only [List.cons_append, List.nil_append, Orderly, Polite, he, hb, hm, hp, hg, ih,
            Bool.or_eq_false_iff, Option.some.injEq, forall_const, forall_eq', not_true_eq_false,
            false_or]
          tauto
      · rw [loop_ok he (process_unmarked libxml hm)]
        simp [Orderly, Polite, he, hb, hm, ih]
    · obtain ⟨f, hf⟩ := loop_crash he hb rs
      rw [hf]
      simp [Orderly, Polite, he, hb]

def nopDocument : Node := .element (bytes "command") [] [.element (bytes "nop") [] []]

/-- The answer of a parser to the one document of the run below. -/
def readsNop : Libxml := fun s => if s.head? = some langle then some nopDocument else none

def garbage : Received := ⟨bytes "x", none, by decide⟩

def nop : Received := ⟨createCommand .nop [] [], none, by decide⟩

theorem nop_marked : (arrived nop.bytes).head? = some langle := rfl

theorem nop_parsed : readsNop (arrived nop.bytes) = some nopDocument := if_pos nop_marked

theorem nopDocument_sound : Sound nopDocument := by
  refine ⟨?_, _, _, rfl, ?_⟩
  · simp [nopDocument, Node.filled, filledAll]
  · intro h
    exact absurd h (by decide)

theorem nopDocument_greets_not : ¬ Greets nopDocument := by
  rintro ⟨n, ns, hn, hname⟩
  obtain ⟨rfl, -⟩ := List.cons.inj hn
  exact absurd hname (by decide)

/-- A NOP is executed for a client that never sent a helo. -/
theorem nop_without_helo :
    ¬ Orderly readsNop false false
      (clientHandler readsNop (bytes "pi") (bytes "pg") [garbage, nop]).1 := by
  obtain ⟨x, -, hes⟩ :=
    process_command nop_marked nop_parsed nopDocument_sound nopDocument_greets_not
  have hhelo : isHelo readsNop nop = false := by
    rw [isHelo, nop_parsed]
    decide
  have hgarbage : isHelo readsNop garbage = false := rfl
  rw [clientHandler, loop_ok (by decide) hes]
  intro h
  simp [Orderly, hhelo, hgarbage] at h

/-- The handler keeps the order of the handshake exactly if the peer does: the first read
succeeds, and the reads after it are polite. -/
theorem handler_orderly_iff (host user : List Byte) (hello : Received) (rs : List Received) :
    Orderly libxml false false (clientHandler libxml host user (hello :: rs)).1 ↔
      hello.error = none ∧ Polite libxml (isHelo libxml hello) false rs := by
  have hfirst : Orderly libxml false false (clientHandler libxml host user (hello :: rs)).1 ↔
      hello.error.isSome = false ∧
        Orderly libxml (isHelo libxml hello) hello.error.isSome (loop libxml rs).1 := by
    simp [clientHandler, Orderly]
  rw [hfirst, loop_orderly_iff]
  cases hello.error with
  | none => simp
  | some e => simp

end PowerGuru.Daemon.ClientRuns
