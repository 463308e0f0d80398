import PowerGuru.Net.Commands

/-!
# `client_handler`

One read is one message: the handler blocks for a first read it never looks at,
answers with a HELO, and from then on hands every read that starts with `<` to the parser.
-/
namespace PowerGuru.Daemon.ClientHandler

open Lib.Bytes Common Net.Xml Net.Commands

inductive IoError where
  | eof
  | other
  deriving DecidableEq, Repr

/-- The result of one `read_some`. -/
structure Received where
  bytes : List Byte
  error : Option IoError
  size_le : bytes.length ≤ 4096

inductive Event where
  | received (r : Received)
  /-- The HELO that answers the first read. -/
  | acknowledged (text : List Byte)
  | hostname (value : List Byte)
  | executed (xml : XML)
  | answered (reply : List Byte)

inductive Ending where
  /-- The handler blocks in `read_some`. -/
  | waiting
  | closed
  | crashed (f : Fault)
  deriving DecidableEq

/-- The array after `memset` and the read; all 4096 bytes become the message. -/
def arrived (bs : List Byte) : List Byte := bs ++ List.replicate (4096 - bs.length) NUL

def langle : Byte := 60

section
variable (libxml : Libxml)

/-- The body of the loop after the check for eof. `parseMem`'s result is ignored. -/
def process (str : List Byte) : Except Fault (List Event) :=
  if str.head? = some langle then do
    let parsed ← parseMem libxml none str
    let node ← deref (← first parsed.2)
    if node.name = bytes "helo" then do
      let child ← childGet0 node
      return [.hostname child.value]
    else do
      let reply ← execCommand parsed.2 str
      return [.executed parsed.2, .answered reply]
  else return []

/-- Of all errors only eof ends the loop. -/
def loop : List Received → List Event × Ending
  | [] => ([], .waiting)
  | r :: rs =>
      if r.error = some .eof then ([.received r], .closed)
      else
        match process libxml (arrived r.bytes) with
        | .ok es =>
            let rest := loop rs
            (.received r :: es ++ rest.1, rest.2)
        | .error f => ([.received r], .crashed f)

def clientHandler (host user : List Byte) : List Received → List Event × Ending
  | [] => ([], .waiting)
  | r :: rs =>
      let rest := loop libxml rs
      (.received r :: .acknowledged (createCommand .helo (host ++ blank :: user) []) :: rest.1,
        rest.2)

/-! ## What a message does -/

/-- The tree has no empty attribute and a first child, which is not a childless helo. -/
def Sound (root : Node) : Prop :=
  root.filled ∧ ∃ n ns, root.elements = n :: ns ∧ (n.name = bytes "helo" → n.elements ≠ [])

/-- A text that the handler survives. -/
def Harmless (str : List Byte) : Prop :=
  str.head? = some langle → ∃ root, libxml str = some root ∧ Sound root

/-- A helo in the handler's eyes: it does not look at the name of the root. -/
def Greets (root : Node) : Prop := ∃ n ns, root.elements = n :: ns ∧ n.name = bytes "helo"

theorem process_unmarked {str : List Byte} (h : str.head? ≠ some langle) :
    process libxml str = .ok [] := if_neg h

variable {libxml}

theorem parseMem_marked {str : List Byte} (h : str.head? = some langle) (xml : XML) :
    parseMem libxml xml str =
      match libxml str with
      | none => .ok (false, xml)
      | some root => do
          let nodes ← extractNode root
          return (true, some nodes) := by
  have hne : str.length ≠ 0 := by
    intro h0
    rw [List.length_eq_zero_iff.mp h0] at h
    exact absurd h (by simp)
  exact if_neg hne

/-- A helo only sets the host name. -/
theorem process_greeting {str : List Byte} {root : Node} (h : str.head? = some langle)
    (hp : libxml str = some root) (hs : Sound root) (hg : Greets root) :
    ∃ value, process libxml str = .ok [.hostname value] := by
  obtain ⟨hf, n, ns, hn, hc⟩ := hs
  obtain ⟨n', ns', hn', hname⟩ := hg
  obtain ⟨rfl, -⟩ : n = n' ∧ ns = ns' := by rw [hn] at hn'; simpa using hn'
  obtain ⟨x, hx⟩ := (extractNode_ok_iff root).mpr hf
  have hkids := (extractNode_spec hx).2
  rw [hn] at hkids
  obtain ⟨y, ys, hy, -, hxs⟩ := List.forall₂_cons_left_iff.mp hkids
  obtain ⟨hyname, hykids⟩ := extractNode_spec hy
  cases hyc : y.children with
  | nil =>
    rw [hyc, List.forall₂_nil_right_iff] at hykids
    exact absurd hykids (hc hname)
  | cons z zs =>
    refine ⟨z.value, ?_⟩
    rw [process, if_pos h, parseMem_marked h, hp]
    simp [bind, Except.bind, pure, Except.pure, hx, first, hxs, deref, hyname, hname, childGet0,
      hyc]

/-- Anything else is executed and answered. -/
theorem process_command {str : List Byte} {root : Node} (h : str.head? = some langle)
    (hp : libxml str = some root) (hs : Sound root) (hg : ¬ Greets root) :
    ∃ x, extractNode root = .ok x ∧ process libxml str =
      .ok [.executed (some x), .answered (createCommand .result (bytes "Iko Iko") str)] := by
  obtain ⟨hf, n, ns, hn, -⟩ := hs
  have hname : n.name ≠ bytes "helo" := fun he => hg ⟨n, ns, hn, he⟩
  obtain ⟨x, hx⟩ := (extractNode_ok_iff root).mpr hf
  have hkids := (extractNode_spec hx).2
  rw [hn] at hkids
  obtain ⟨y, ys, hy, -, hxs⟩ := List.forall₂_cons_left_iff.mp hkids
  have hyname := (extractNode_spec hy).1
  refine ⟨x, hx, ?_⟩
  rw [process, if_pos h, parseMem_marked h, hp]
  simp [bind, Except.bind, pure, Except.pure, hx, first, hxs, deref, hyname, hname, execCommand,
    nameGet]

/-- What is not harmless follows a pointer to nowhere. -/
theorem process_crash {str : List Byte} (h : ¬ Harmless libxml str) :
    ∃ f, process libxml str = .error f := by
  obtain ⟨hm, hno⟩ := Classical.not_imp.mp h
  rw [process, if_pos hm, parseMem_marked hm]
  cases hp : libxml str with
  | none => exact ⟨.noDocument, rfl⟩
  | some root =>
    cases hx : extractNode root with
    | error f => exact ⟨f, by simp [bind, Except.bind, hx]⟩
    | ok x =>
      have hf : root.filled := (extractNode_ok_iff root).mp ⟨x, hx⟩
      have hkids := (extractNode_spec hx).2
      cases hn : root.elements with
      | nil =>
        rw [hn, List.forall₂_nil_left_iff] at hkids
        exact ⟨.noChild, by simp [bind, Except.bind, pure, Except.pure, hx, first, hkids, deref]⟩
      | cons n ns =>
        rw [hn] at hkids
        obtain ⟨y, ys, hy, -, hxs⟩ := List.forall₂_cons_left_iff.mp hkids
        obtain ⟨hyname, hykids⟩ := extractNode_spec hy
        have hbad : n.name = bytes "helo" ∧ n.elements = [] := by
          by_contra hc
          refine hno ⟨root, hp, hf, n, ns, hn, fun hname he => hc ⟨hname, he⟩⟩
        rw [hbad.2, List.forall₂_nil_left_iff] at hykids
        exact ⟨.badIndex, by
          simp [bind, Except.bind, pure, Except.pure, hx, first, hxs, deref, hyname, hbad.1,
            childGet0, hykids]⟩

theorem process_ok_iff (str : List Byte) :
    (∃ es, process libxml str = .ok es) ↔ Harmless libxml str := by
  constructor
  · rintro ⟨es, he⟩
    by_contra h
    obtain ⟨f, hf⟩ := process_crash h
    rw [hf] at he
    exact absurd he (by simp)
  · intro h
    by_cases hm : str.head? = some langle
    · obtain ⟨root, hp, hs⟩ := h hm
      by_cases hg : Greets root
      · obtain ⟨value, he⟩ := process_greeting hm hp hs hg
        exact ⟨_, he⟩
      · obtain ⟨x, -, he⟩ := process_command hm hp hs hg
        exact ⟨_, he⟩
    · exact ⟨_, process_unmarked libxml hm⟩

/-! ## One read of the loop -/

theorem loop_eof {r : Received} (h : r.error = some .eof) (rs : List Received) :
    loop libxml (r :: rs) = ([.received r], .closed) := if_pos h

theorem loop_crash {r : Received} (h : r.error ≠ some .eof)
    (hb : ¬ Harmless libxml (arrived r.bytes)) (rs : List Received) :
    ∃ f, loop libxml (r :: rs) = ([.received r], .crashed f) := by
  obtain ⟨f, hf⟩ := process_crash hb
  exact ⟨f, by rw [loop, if_neg h, hf]⟩

theorem loop_ok {r : Received} (h : r.error ≠ some .eof) {es : List Event}
    (he : process libxml (arrived r.bytes) = .ok es) (rs : List Received) :
    loop libxml (r :: rs) = (.received r :: es ++ (loop libxml rs).1, (loop libxml rs).2) := by
  rw [loop, if_neg h, he]

end

end PowerGuru.Daemon.ClientHandler
