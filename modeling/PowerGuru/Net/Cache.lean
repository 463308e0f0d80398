import Mathlib.Order.Bounds.Basic
import PowerGuru.Net.Messages

/-!
# The cache of values

`_cache` is taken as the class declares it, a `std::map` from texts to texts that all objects
of a program share; its definition in `msgs.cc`, with pointers for keys, does not fit that.
`cacheAdd` copies the text that it is given the name in; `cacheGet` goes through the map and
compares C strings.
-/
namespace PowerGuru.Net.Cache

open Lib.Bytes Lib.AssocMap Messages

/-- The entries as an iterator meets them, ordered by their keys. -/
def entries (m : Msgs) : List (List Byte × List Byte) :=
  m.cache.mergeSort fun a b => decide (a.1 ≤ b.1)

/-- The loop of `cacheGet`, with the text in `_body`. -/
def getLoop (name : List Byte) : List Byte → List (List Byte × List Byte) → List Byte
  | body, [] => body
  | _, (tag, str) :: rest =>
      -- `_body.str("")`
      if cstr tag = cstr name then
        if str.length ≠ 0 then str else []
      else getLoop name [] rest

def cacheGet (m : Msgs) (name : List Byte) : List Byte := getLoop name [] (entries m)

/-! ## Histories -/

/-- The string objects of a program, and the cache. -/
structure Program where
  strings : Nat → List Byte
  msgs : Msgs

inductive Op where
  /-- A string object gets another text. -/
  | store (object : Nat) (name : List Byte)
  /-- `cacheAdd` with the name in a string object. -/
  | add (object : Nat) (str : List Byte)
  /-- `init` of an object in this mode. -/
  | init (mode : NetMode)

def step (p : Program) : Op → Program
  | .store object name => { p with strings := Function.update p.strings object name }
  | .add object str => { p with msgs := cacheAdd p.msgs (p.strings object) str }
  | .init mode => { p with msgs := init { p.msgs with netMode := mode } }

def run (p : Program) (ops : List Op) : Program := ops.foldl step p

/-- What a history adds, each value under the text that the name had then. -/
def additions (strings : Nat → List Byte) : List Op → List (List Byte × List Byte)
  | [] => []
  | .store object name :: ops => additions (Function.update strings object name) ops
  | .add object str :: ops => (strings object, str) :: additions strings ops
  | .init mode :: ops => (if mode = .daemon then preload else []) ++ additions strings ops

/-- The value that was added last under this text. -/
def lastAdded (added : List (List Byte × List Byte)) (name : List Byte) : List Byte :=
  ((added.filter (·.1 == name)).getLast?.map Prod.snd).getD []

/-- The texts under which something was added and that `strcmp` takes for the name. -/
def alike (added : List (List Byte × List Byte)) (name : List Byte) : Set (List Byte) :=
  {key | key ∈ added.map Prod.fst ∧ cstr key = cstr name}

/-! ## The map -/

/-- The loop takes the first entry that compares equal. -/
theorem getLoop_eq (name : List Byte) (es : List (List Byte × List Byte)) :
    getLoop name [] es =
      ((es.find? fun e => decide (cstr e.1 = cstr name)).map Prod.snd).getD [] := by
  induction es with
  | nil => rfl
  | cons e es ih =>
    obtain ⟨tag, str⟩ := e
    rw [getLoop]
    split
    · next heq =>
      rw [List.find?_cons_of_pos (by simpa using heq)]
      split
      · rfl
      · next hempty => rw [List.length_eq_zero_iff.mp (by omega : str.length = 0)]; rfl
    · next hne => rw [List.find?_cons_of_neg (by simpa using hne), ih]

theorem entries_sorted (m : Msgs) : (entries m).Pairwise fun a b => a.1 ≤ b.1 := by
  have htrans (a b c : List Byte × List Byte) (hab : decide (a.1 ≤ b.1) = true)
      (hbc : decide (b.1 ≤ c.1) = true) : decide (a.1 ≤ c.1) = true :=
    decide_eq_true (List.le_trans (of_decide_eq_true hab) (of_decide_eq_true hbc))
  have htotal (a b : List Byte × List Byte) :
      (decide (a.1 ≤ b.1) || decide (b.1 ≤ a.1)) = true := by
    simpa using List.le_total a.1 b.1
  exact (List.pairwise_mergeSort htrans htotal m.cache).imp of_decide_eq_true

theorem mem_entries {m : Msgs} {e : List Byte × List Byte} : e ∈ entries m ↔ e ∈ m.cache :=
  (List.mergeSort_perm _ _).mem_iff

/-- The first entry that compares equal has the least text of those. -/
theorem cacheGet_least {m : Msgs} (h : Functional m.cache) {name key : List Byte}
    (hleast : IsLeast (alike m.cache name) key) :
    cacheGet m name = Messages.cacheGet m key := by
  obtain ⟨⟨hkey, hname⟩, hbound⟩ := hleast
  obtain ⟨e, he, rfl⟩ := List.mem_map.mp hkey
  have hsome : ((entries m).find? fun e => decide (cstr e.1 = cstr name)).isSome = true :=
    List.find?_isSome.mpr ⟨e, mem_entries.mpr he, decide_eq_true hname⟩
  obtain ⟨f, hf⟩ := Option.isSome_iff_exists.mp hsome
  obtain ⟨hfname, front, behind, hentries, hfront⟩ := List.find?_eq_some_iff_append.mp hf
  have hfmem : f ∈ m.cache := mem_entries.mp (List.mem_of_find?_eq_some hf)
  have hfe : f.1 ≤ e.1 := by
    have hin : e ∈ front ++ f :: behind := hentries ▸ mem_entries.mpr he
    have hsorted := entries_sorted m
    rw [hentries] at hsorted
    rcases List.mem_append.mp hin with hin | hin
    · exact absurd (decide_eq_true hname) (by simpa using hfront e hin)
    · rcases List.mem_cons.mp hin with rfl | hin
      · exact List.le_refl _
      · exact (List.pairwise_cons.mp (List.pairwise_append.mp hsorted).2.1).1 e hin
  have hef : e.1 ≤ f.1 := hbound ⟨List.mem_map_of_mem hfmem, of_decide_eq_true hfname⟩
  have hlookup : m.cache.lookup e.1 = some f.2 :=
    (lookup_eq_some_iff h).mpr (List.le_antisymm hfe hef ▸ hfmem)
  rw [cacheGet, getLoop_eq, hf, Messages.cacheGet, hlookup]
  rfl

theorem cacheGet_none {m : Msgs} {name : List Byte} (h : alike m.cache name = ∅) :
    cacheGet m name = [] := by
  have hnone : ((entries m).find? fun e => decide (cstr e.1 = cstr name)) = none := by
    rw [List.find?_eq_none]
    intro e he heq
    have hmem : e.1 ∈ alike m.cache name :=
      ⟨List.mem_map_of_mem (mem_entries.mp he), of_decide_eq_true heq⟩
    rw [h] at hmem
    exact hmem
  rw [cacheGet, getLoop_eq, hnone]
  rfl

/-- Without NULs the name itself is the only text that is taken for it. -/
theorem alike_whole {added : List (List Byte × List Byte)} {name key : List Byte}
    (hname : NUL ∉ name) (hadded : ∀ e ∈ added, NUL ∉ e.1) (h : key ∈ alike added name) :
    key = name := by
  obtain ⟨hkey, hsame⟩ := h
  obtain ⟨e, he, rfl⟩ := List.mem_map.mp hkey
  rwa [cstr_of_not_mem (hadded e he), cstr_of_not_mem hname] at hsame

/-- Which is what the other functions take `cacheGet` for. -/
theorem cacheGet_eq {m : Msgs} (h : Functional m.cache) {name : List Byte} (hname : NUL ∉ name)
    (hwhole : ∀ e ∈ m.cache, NUL ∉ e.1) : cacheGet m name = Messages.cacheGet m name := by
  by_cases hmem : name ∈ alike m.cache name
  · refine cacheGet_least h ⟨hmem, fun key hkey => ?_⟩
    rw [alike_whole hname hwhole hkey]
    exact List.le_refl name
  · have hnone : ∀ key, key ∉ alike m.cache name :=
      fun key hkey => hmem (alike_whole hname hwhole hkey ▸ hkey)
    have hlookup : m.cache.lookup name = none := by
      rw [List.lookup_eq_none_iff]
      intro e he
      rw [bne_iff_ne]
      rintro rfl
      exact hnone e.1 ⟨List.mem_map_of_mem he, rfl⟩
    rw [cacheGet_none (Set.eq_empty_of_forall_notMem hnone), Messages.cacheGet, hlookup]
    rfl

/-! ## The run -/

/-- A history assigns what it adds, in its order. -/
theorem run_cache (p : Program) (ops : List Op) :
    (run p ops).msgs.cache = assignAll p.msgs.cache (additions p.strings ops) := by
  induction ops generalizing p with
  | nil => rfl
  | cons op ops ih =>
    rw [run, List.foldl_cons, ← run, ih]
    cases op with
    | store object name => rfl
    | add object str => rfl
    | init mode =>
      rw [step, additions, Messages.init]
      split
      · next hmode => rw [assignAll, assignAll, assignAll, List.foldl_append]
      · rfl

section
variable (strings : Nat → List Byte) (m : Msgs) (ops : List Op)

theorem run_get (key : List Byte) :
    Messages.cacheGet (run ⟨strings, { m with cache := [] }⟩ ops).msgs key =
      lastAdded (additions strings ops) key := by
  rw [Messages.cacheGet, run_cache, lookup_assignAll, lastAdded]
  simp

theorem run_functional :
    Functional (run ⟨strings, { m with cache := [] }⟩ ops).msgs.cache := by
  rw [run_cache]
  exact functional_nil.assignAll _

/-- The texts in the map are those of the additions. -/
theorem alike_run (name : List Byte) :
    alike (run ⟨strings, { m with cache := [] }⟩ ops).msgs.cache name =
      alike (additions strings ops) name := by
  rw [run_cache]
  ext key
  have hkeys : key ∈ (assignAll [] (additions strings ops)).map Prod.fst ↔
      key ∈ (additions strings ops).map Prod.fst := by
    rw [mem_keys_assignAll]
    exact or_iff_right List.not_mem_nil
  exact and_congr_left fun _ => hkeys

end

/-- A program that starts with an empty cache finds under a name the value that was added last
under the least of the texts that `strcmp` takes for it, whichever string objects the names were
in. Without NULs that is the text of the name. -/
theorem cacheGet_lastAdded (strings : Nat → List Byte) (m : Msgs) (ops : List Op)
    (name : List Byte) :
    (∀ key, IsLeast (alike (additions strings ops) name) key →
      cacheGet (run ⟨strings, { m with cache := [] }⟩ ops).msgs name =
        lastAdded (additions strings ops) key) ∧
    (alike (additions strings ops) name = ∅ →
      cacheGet (run ⟨strings, { m with cache := [] }⟩ ops).msgs name = []) ∧
    (NUL ∉ name → (∀ e ∈ additions strings ops, NUL ∉ e.1) →
      cacheGet (run ⟨strings, { m with cache := [] }⟩ ops).msgs name =
        lastAdded (additions strings ops) name) := by
  have hleast : ∀ key, IsLeast (alike (additions strings ops) name) key →
      cacheGet (run ⟨strings, { m with cache := [] }⟩ ops).msgs name =
        lastAdded (additions strings ops) key := by
    intro key hkey
    rw [← alike_run strings m ops] at hkey
    rw [cacheGet_least (run_functional strings m ops) hkey, run_get]
  have hempty : alike (additions strings ops) name = ∅ →
      cacheGet (run ⟨strings, { m with cache := [] }⟩ ops).msgs name = [] := by
    intro h
    rw [← alike_run strings m ops] at h
    exact cacheGet_none h
  refine ⟨hleast, hempty, fun hname hadded => ?_⟩
  have hwhole : ∀ e ∈ (run ⟨strings, { m with cache := [] }⟩ ops).msgs.cache, NUL ∉ e.1 := by
    intro e he
    rw [run_cache] at he
    exact hadded e ((mem_of_mem_assignAll he).resolve_left List.not_mem_nil)
  rw [cacheGet_eq (run_functional strings m ops) hname hwhole, run_get]

/-- A name with a NUL in it. -/
def cutName : List Byte := [97, NUL, 98]

def cutProgram : Program :=
  run ⟨fun _ => cutName, ⟨.client, [], [], [], [], [], []⟩⟩ [.add 0 (bytes "x")]

/-- Nothing was added under the text of its first byte, and yet something is found there. -/
theorem cutName_found :
    cacheGet cutProgram.msgs (bytes "a") = bytes "x" ∧
      lastAdded (additions (fun _ => cutName) [.add 0 (bytes "x")]) (bytes "a") = [] ∧
      bytes "x" ≠ [] := by
  have hcache : cutProgram.msgs.cache = [(cutName, bytes "x")] := rfl
  refine ⟨?_, by decide, by decide⟩
  rw [cacheGet, entries, hcache, List.mergeSort_singleton]
  decide

end PowerGuru.Net.Cache
