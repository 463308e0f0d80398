import PowerGuru.Net.Commands

/-!
# The client's `daemon_handler`

One array of 1024 bytes takes every read. It is cleared once, before the loop, and turned
into a string as a C string.
-/
namespace PowerGuru.Client.Replies

open Lib.Bytes Common Net.Xml Net.Commands

/-- The array `bytes`. -/
structure Buffer where
  bytes : List Byte
  length_eq : bytes.length = 1024

/-- After `memset`. -/
def Buffer.clear : Buffer := ⟨List.replicate 1024 NUL, List.length_replicate⟩

/-- What one `read_some` delivers; nothing if it fails. -/
structure Received where
  bytes : List Byte
  size_le : bytes.length ≤ 1024

def Buffer.readSome (buf : Buffer) (r : Received) : Buffer where
  bytes := r.bytes ++ buf.bytes.drop r.bytes.length
  length_eq := by
    have h := buf.length_eq
    have hr := r.size_le
    rw [List.length_append, List.length_drop]
    omega

/-- `str = bytes.data()`; without a NUL it runs past the array. -/
def Buffer.str (buf : Buffer) : Option (List Byte) :=
  if NUL ∈ buf.bytes then some (cstr buf.bytes) else none

inductive Event where
  | helloWorld
  | data (value : List Byte)
  | junk (name value : List Byte)
  | printed (text : List Byte)
  deriving DecidableEq

/-- The byte `<`. -/
def langle : Byte := 60

/-- `xml.valueGet()`. -/
def valueGet (xml : XML) : Except Fault (List Byte) :=
  match xml with
  | none => .error .noDocument
  | some nodes => .ok nodes.value

section
variable (libxml : Libxml)

/-- `parseMem`'s result is ignored. -/
def handle (str : List Byte) : Except Fault (List Event) :=
  if str.head? = some langle then do
    let parsed ← parseMem libxml none str
    let name ← nameGet parsed.2
    let value ← valueGet parsed.2
    if name = bytes "command" then
      return if value = bytes "help" then [.helloWorld] else []
    else if name = bytes "data" then return [.data value]
    else return [.junk name value]
  else return [.printed str]

inductive Ending where
  /-- The handler blocks in `read_some`. -/
  | waiting
  | overread
  | crashed (f : Fault)
  deriving DecidableEq

/-- What became of one read. -/
structure Handled where
  text : Option (List Byte)
  events : List Event

def loop (buf : Buffer) : List Received → List Handled × Ending
  | [] => ([], .waiting)
  | r :: rs =>
      let bytes := buf.readSome r
      match bytes.str with
      | none => ([⟨none, []⟩], .overread)
      | some str =>
          match handle libxml str with
          | .error f => ([⟨some str, []⟩], .crashed f)
          | .ok es =>
              let rest := loop bytes rs
              (⟨some str, es⟩ :: rest.1, rest.2)

/-- The greeting, and what the reads after it lead to. -/
def daemonHandler (host user : List Byte) (rs : List Received) :
    List Byte × List Handled × Ending :=
  (createCommand .helo (host ++ blank :: user) [], loop libxml Buffer.clear rs)

/-- The strings made of the reads, as far as the handler gets. -/
def texts (handled : List Handled) : List (Option (List Byte)) := handled.map Handled.text

/-- The handler goes on after this text. -/
def Survives (str : List Byte) : Prop := ∃ es, handle libxml str = .ok es

/-- No read has a NUL, fills the array or is shorter than the one before it, up to one that
ends the handler. -/
def Growing (length : Nat) : List Received → Prop
  | [] => True
  | r :: rs =>
      (NUL ∉ r.bytes ∧ length ≤ r.bytes.length ∧ r.bytes.length < 1024) ∧
        (Survives libxml r.bytes → Growing r.bytes.length rs)

/-! ## One read -/

/-- The array holds a string and, from its end on, zeros. -/
def Buffer.Holds (buf : Buffer) (s : List Byte) : Prop :=
  NUL ∉ s ∧ buf.bytes = s ++ List.replicate (1024 - s.length) NUL

theorem clear_holds : Buffer.clear.Holds [] := ⟨List.not_mem_nil, rfl⟩

variable {libxml}

theorem readSome_bytes {buf : Buffer} {s : List Byte} (h : buf.Holds s) (r : Received) :
    (buf.readSome r).bytes = r.bytes ++ s.drop r.bytes.length ++
      List.replicate (1024 - s.length - (r.bytes.length - s.length)) NUL := by
  show r.bytes ++ buf.bytes.drop r.bytes.length = _
  rw [h.2, List.drop_append, List.drop_replicate, List.append_assoc]

theorem readSome_holds {buf : Buffer} {s : List Byte} (h : buf.Holds s) {r : Received}
    (hr : NUL ∉ r.bytes) (hl : s.length ≤ r.bytes.length) : (buf.readSome r).Holds r.bytes := by
  refine ⟨hr, ?_⟩
  have hn : 1024 - s.length - (r.bytes.length - s.length) = 1024 - r.bytes.length := by omega
  rw [readSome_bytes h, List.drop_of_length_le hl, List.append_nil, hn]

theorem Buffer.Holds.str {buf : Buffer} {s : List Byte} (h : buf.Holds s)
    (hl : s.length < 1024) : buf.str = some s := by
  obtain ⟨k, hk⟩ : ∃ k, 1024 - s.length = k + 1 := ⟨1023 - s.length, by omega⟩
  have hb : buf.bytes = s ++ NUL :: List.replicate k NUL := by
    rw [h.2, hk, List.replicate_succ]
  have hm : NUL ∈ buf.bytes := by simp [hb]
  rw [Buffer.str, if_pos hm, hb, cstr_append_nul _ h.1]

/-- What a read must be like for its text to be its bytes. -/
theorem str_readSome_iff {buf : Buffer} {s : List Byte} (h : buf.Holds s) (r : Received) :
    (buf.readSome r).str = some r.bytes ↔
      NUL ∉ r.bytes ∧ s.length ≤ r.bytes.length ∧ r.bytes.length < 1024 := by
  constructor
  · intro ht
    unfold Buffer.str at ht
    split at ht
    · rename_i hm
      rw [Option.some.injEq] at ht
      have hn : NUL ∉ r.bytes := ht ▸ nul_not_mem_cstr _
      obtain ⟨t, hc⟩ := eq_cstr_append hm
      have hlen := congrArg List.length hc
      rw [(buf.readSome r).length_eq, ht, List.length_append, List.length_cons] at hlen
      refine ⟨hn, ?_, by omega⟩
      -- What the last text leaves behind the read has no NUL.
      by_contra hlt
      rw [ht, readSome_bytes h, List.append_assoc, List.append_right_inj] at hc
      cases hd : s.drop r.bytes.length with
      | nil =>
        have := List.drop_eq_nil_iff.mp hd
        omega
      | cons b d =>
        rw [hd, List.cons_append] at hc
        have hb : b ∈ s := List.mem_of_mem_drop (hd ▸ List.mem_cons_self)
        exact h.1 ((List.cons.inj hc).1 ▸ hb)
    · exact absurd ht (by simp)
  · intro hr
    obtain ⟨hn, hl, hlt⟩ := hr
    exact (readSome_holds h hn hl).str hlt

/-! ## The run -/

section
variable {buf : Buffer} {r : Received} {rs : List Received}

theorem loop_overread (h : (buf.readSome r).str = none) :
    loop libxml buf (r :: rs) = ([⟨none, []⟩], .overread) := by
  simp only [loop, h]

theorem loop_crashed {str : List Byte} {f : Fault} (h : (buf.readSome r).str = some str)
    (hf : handle libxml str = .error f) :
    loop libxml buf (r :: rs) = ([⟨some str, []⟩], .crashed f) := by
  simp only [loop, h, hf]

theorem loop_handled {str : List Byte} {es : List Event} (h : (buf.readSome r).str = some str)
    (he : handle libxml str = .ok es) :
    (loop libxml buf (r :: rs)).1 = ⟨some str, es⟩ :: (loop libxml (buf.readSome r) rs).1 := by
  simp only [loop, h, he]

/-- The first text of a run is the one its first read makes. -/
theorem texts_loop_cons (libxml : Libxml) (buf : Buffer) (r : Received) (rs : List Received) :
    ∃ ts, texts (loop libxml buf (r :: rs)).1 = (buf.readSome r).str :: ts := by
  cases h : (buf.readSome r).str with
  | none => exact ⟨[], by rw [loop_overread h]; rfl⟩
  | some str =>
    cases hh : handle libxml str with
    | error f => exact ⟨[], by rw [loop_crashed h hh]; rfl⟩
    | ok es => exact ⟨_, by rw [loop_handled h hh]; rfl⟩

end

theorem loop_exact_iff {buf : Buffer} {s : List Byte} (h : buf.Holds s) (rs : List Received) :
    texts (loop libxml buf rs).1 <+: rs.map (fun r => some r.bytes) ↔
      Growing libxml s.length rs := by
  induction rs generalizing buf s with
  | nil => exact iff_of_true List.prefix_rfl trivial
  | cons r rs ih =>
    rw [Growing, ← str_readSome_iff h r, List.map_cons]
    by_cases ht : (buf.readSome r).str = some r.bytes
    · rw [and_iff_right ht]
      obtain ⟨hn, hl, -⟩ := (str_readSome_iff h r).mp ht
      cases hh : handle libxml r.bytes with
      | error f =>
        have hs : ¬ Survives libxml r.bytes := by
          intro hs
          obtain ⟨es, he⟩ := hs
          rw [hh] at he
          exact absurd he (by simp)
        rw [loop_crashed ht hh]
        refine iff_of_true ?_ fun hs' => absurd hs' hs
        exact List.prefix_append [some r.bytes] _
      | ok es =>
        have hs : Survives libxml r.bytes := ⟨es, hh⟩
        have hrest := ih (readSome_holds h hn hl)
        rw [loop_handled ht hh, forall_prop_of_true hs, ← hrest]
        show some r.bytes :: texts _ <+: _ ↔ _
        rw [List.cons_prefix_cons, and_iff_right rfl]
    · refine iff_of_false ?_ fun hg => ht hg.1
      intro hp
      obtain ⟨ts, hts⟩ := texts_loop_cons libxml buf r rs
      rw [hts, List.cons_prefix_cons] at hp
      exact ht hp.1

/-- Every text is the bytes of its read exactly if the reads are free of NUL, leave room for
one and never get shorter. -/
theorem daemonHandler_exact_iff (libxml : Libxml) (host user : List Byte) (rs : List Received) :
    texts (daemonHandler libxml host user rs).2.1 <+: rs.map (fun r => some r.bytes) ↔
      Growing libxml 0 rs := loop_exact_iff clear_holds rs

end

/-- After `hello` a read of `ok` prints `okllo`. -/
theorem daemonHandler_leaks :
    texts (daemonHandler (fun _ => none) [] []
      [⟨bytes "hello", by decide⟩, ⟨bytes "ok", by decide⟩]).2.1 =
      [some (bytes "hello"), some (bytes "okllo")] ∧
    ¬ texts (daemonHandler (fun _ => none) [] []
      [⟨bytes "hello", by decide⟩, ⟨bytes "ok", by decide⟩]).2.1 <+:
      [some (bytes "hello"), some (bytes "ok")] := by
  decide +kernel

end PowerGuru.Client.Replies
