import PowerGuru.Devices.SensorIsolation

/-!
# What the constructors register

Of a root directory the sensors are the entries with a family, each with its own id and
alias.
-/
namespace PowerGuru.Devices.Discovery

open Common Lib.Bytes Lib.AssocMap Lib.Carry Sensors SensorIsolation

/-! ## `Ownet` -/

section
variable (S : Ownet.Server)

/-- The text of one of the entry's own files. -/
def own (entry : List Byte) (file : String) : List Byte := (S.get (entry ++ bytes file)).getD []

/-- The sensor that an entry stands for. -/
def expected (entry : List Byte) : Option Onewire :=
  if own S entry "family" = [] then none
  else some ⟨own S entry "family", own S entry "id", own S entry "alias",
    own S entry "family" ++ bytes "." ++ own S entry "id", familyType (own S entry "family"), none⟩

section
variable {F : Type} [Zero F] (R : FloatReader F)

/-- The object is connected and has the sensors of the root directory. -/
def Complete (host : List Byte) : Prop :=
  ∃ sensors, Ownet.construct R S host = .ok (true, sensors) ∧
    ∀ entry, sensors.lookup entry =
      if entry ∈ Ownet.rootEntries S then expected S entry else none

/-- Nothing that the constructor asks a new sensor makes it give up. -/
def Interrogable (entry : List Byte) (type : FamilyType) : Prop :=
  (type = .temperature → (S.get Ownet.scaleFile).isSome = true) ∧
    (type = .battery → ∀ a ∈ carry [] (reads S entry ["current", "volts"]), ∃ x, R.stof a = some x)

/-- What must hold of an entry that is a sensor. -/
def Sound (entry : List Byte) : Prop :=
  own S entry "family" ≠ [] → Covered some [] [] (reads S entry sensorFiles) ∧
    Interrogable S R entry (familyType (own S entry "family"))

variable {S} {R}

theorem interrogate_ok_iff (sensors : Registered) (entry : List Byte) (data : Onewire) :
    Ownet.interrogate R S (assign sensors entry data) entry data = .ok () ↔
      Interrogable S R entry data.type := by
  have hl := lookup_assign_self sensors entry data
  unfold Ownet.interrogate Interrogable
  cases ht : data.type with
  | temperature =>
    unfold Ownet.getTemperature
    rw [hl]
    cases S.get Ownet.scaleFile with
    | none => simp [ht]
    | some buffer => simp [ht]
  | battery =>
    unfold Ownet.getBattery
    rw [hl, ← fields_isSome_iff, ← readPair_fields R]
    cases Ownet.readPair R S entry (bytes "current") (bytes "volts") [] with
    | none => simp [ht]
    | some x => simp [ht]
  | _ => simp [pure, Except.pure]

/-- The sensors of a list of entries. -/
def found (S : Ownet.Server) (entries : List (List Byte)) : Registered :=
  entries.filterMap fun entry => (Ownet.sensorOf S entry).map fun data => (entry, data)

theorem mem_found {entries : List (List Byte)} {entry : List Byte} {data : Onewire} :
    (entry, data) ∈ found S entries ↔ entry ∈ entries ∧ Ownet.sensorOf S entry = some data := by
  simp only [found, List.mem_filterMap, Option.map_eq_some_iff, Prod.mk.injEq]
  constructor
  · intro h
    obtain ⟨e, he, d, hd, rfl, rfl⟩ := h
    exact ⟨he, hd⟩
  · intro h
    exact ⟨entry, h.1, data, h.2, rfl, rfl⟩

theorem register_ok_iff (entries : List (List Byte)) (sensors sensors' : Registered) :
    Ownet.register R S entries sensors = .ok sensors' ↔
      (∀ p ∈ found S entries, Interrogable S R p.1 p.2.type) ∧
        sensors' = assignAll sensors (found S entries) := by
  induction entries generalizing sensors with
  | nil => simp [Ownet.register, found, eq_comm]
  | cons entry entries ih =>
    rw [Ownet.register]
    cases hs : Ownet.sensorOf S entry with
    | none =>
      have hf : found S (entry :: entries) = found S entries := by simp [found, hs]
      rw [hf]
      exact ih sensors
    | some data =>
      have hf : found S (entry :: entries) = (entry, data) :: found S entries := by
        simp [found, hs]
      show (Ownet.interrogate R S (assign sensors entry data) entry data >>= _) = _ ↔ _
      rw [bind_ok_iff, hf, List.forall_mem_cons, assignAll_cons, and_assoc, ← ih,
        ← interrogate_ok_iff sensors entry data]
      constructor
      · intro h
        obtain ⟨⟨⟩, hi, hr⟩ := h
        exact ⟨hi, hr⟩
      · intro h
        exact ⟨(), h.1, h.2⟩

theorem lookup_found (entries : List (List Byte)) (entry : List Byte) :
    (assignAll [] (found S entries)).lookup entry =
      if entry ∈ entries then Ownet.sensorOf S entry else none := by
  have hf : Functional (found S entries) := by
    intro p hp q hq hpq
    obtain ⟨e, d⟩ := p
    obtain ⟨e', d'⟩ := q
    obtain rfl : e = e' := hpq
    have he := (mem_found.mp hp).2.symm.trans (mem_found.mp hq).2
    rw [Option.some.inj he]
  apply Option.ext
  intro data
  have hmem : (entry, data) ∈ assignAll [] (found S entries) ↔ (entry, data) ∈ found S entries := by
    rw [mem_assignAll_of_functional (m := []) (l := found S entries) hf]
    exact or_iff_right List.not_mem_nil
  rw [lookup_eq_some_iff (functional_nil.assignAll _), hmem, mem_found]
  by_cases he : entry ∈ entries
  · rw [if_pos he, and_iff_right he]
  · rw [if_neg he]
    exact iff_of_false (fun h => he h.1) (by simp)

/-- The registered sensor is the expected one exactly if nothing was carried over. -/
theorem sensorOf_eq_expected_iff (entry : List Byte) :
    Ownet.sensorOf S entry = expected S entry ↔
      (own S entry "family" ≠ [] → Covered some [] [] (reads S entry sensorFiles)) := by
  by_cases hf : own S entry "family" = []
  · have hs : Ownet.sensorOf S entry = none := if_pos hf
    rw [hs, expected, if_pos hf]
    simp [hf]
  · have hfam : (S.get (entry ++ bytes "family")).getD [] ≠ [] := hf
    rw [forall_prop_of_true hf, expected, if_neg hf]
    unfold Ownet.sensorOf Ownet.getValue own
    rw [if_neg hfam]
    simp only [reads, sensorFiles, List.map_cons, List.map_nil, Covered]
    cases hi : S.get (entry ++ bytes "id") with
    | none => simp [hfam]
    | some id =>
      cases ha : S.get (entry ++ bytes "alias") with
      | none => simp
      | some a => simp

theorem connect_eq (argv : List Byte) :
    Ownet.connect S argv 3 0 =
      if S.init 0 argv then (true, 2) else if S.init 1 argv then (true, 1)
      else if S.init 2 argv then (true, 0) else (false, -1) := rfl

/-- A connection at one of the first two attempts. -/
theorem complete_of_registered (host : List Byte)
    (hc : Ownet.construct R S host =
      (Ownet.register R S (Ownet.rootEntries S) [] >>= fun sensors => pure (true, sensors))) :
    Complete S R host ↔ ∀ entry ∈ Ownet.rootEntries S, Sound S R entry := by
  unfold Complete
  rw [hc]
  constructor
  · intro h entry he hf
    obtain ⟨sensors, hok, hl⟩ := h
    obtain ⟨s, hr, hs⟩ := bind_ok_iff.mp hok
    obtain rfl : s = sensors := (Prod.mk.inj (Except.ok.inj hs)).2
    obtain ⟨hall, rfl⟩ := (register_ok_iff _ _ _).mp hr
    have heq := hl entry
    rw [lookup_found, if_pos he, if_pos he] at heq
    refine ⟨(sensorOf_eq_expected_iff entry).mp heq hf, ?_⟩
    have hd : Ownet.sensorOf S entry = _ := heq.trans (if_neg hf)
    exact hall _ (mem_found.mpr ⟨he, hd⟩)
  · intro h
    refine ⟨assignAll [] (found S (Ownet.rootEntries S)), ?_, ?_⟩
    · refine bind_ok_iff.mpr ⟨_, (register_ok_iff _ _ _).mpr ⟨?_, rfl⟩, rfl⟩
      intro p hp
      obtain ⟨he, hd⟩ := mem_found.mp hp
      have hf : own S p.1 "family" ≠ [] := (carry_of_sensorOf hd).2
      have heq := (sensorOf_eq_expected_iff p.1).mpr fun hf => (h p.1 he hf).1
      have hp2 := Option.some.inj (hd.symm.trans (heq.trans (if_neg hf)))
      rw [hp2]
      exact (h p.1 he hf).2
    · intro entry
      rw [lookup_found]
      by_cases he : entry ∈ Ownet.rootEntries S
      · rw [if_pos he, if_pos he]
        exact (sensorOf_eq_expected_iff entry).mpr fun hf => (h entry he hf).1
      · rw [if_neg he, if_neg he]

/-- A connection at the third attempt counts as none. -/
theorem complete_of_third (host : List Byte)
    (hc : Ownet.construct R S host = .ok (true, [])) :
    Complete S R host ↔ ∀ entry ∈ Ownet.rootEntries S, own S entry "family" = [] := by
  unfold Complete
  rw [hc]
  constructor
  · intro h entry he
    obtain ⟨sensors, hok, hl⟩ := h
    obtain rfl : [] = sensors := (Prod.mk.inj (Except.ok.inj hok)).2
    have heq := hl entry
    rw [if_pos he, expected] at heq
    by_contra hf
    rw [if_neg hf] at heq
    exact absurd heq (by simp)
  · intro h
    refine ⟨[], rfl, fun entry => ?_⟩
    by_cases he : entry ∈ Ownet.rootEntries S
    · rw [if_pos he, expected, if_pos (h entry he)]
      rfl
    · rw [if_neg he]
      rfl

theorem complete_iff (host : List Byte) :
    Complete S R host ↔
      ((S.init 0 (Ownet.argument host) = true ∨ S.init 1 (Ownet.argument host) = true) ∧
        ∀ entry ∈ Ownet.rootEntries S, Sound S R entry) ∨
      (S.init 2 (Ownet.argument host) = true ∧
        ∀ entry ∈ Ownet.rootEntries S, own S entry "family" = []) := by
  have hvac : (∀ entry ∈ Ownet.rootEntries S, own S entry "family" = []) →
      ∀ entry ∈ Ownet.rootEntries S, Sound S R entry :=
    fun h entry he hf => absurd (h entry he) hf
  have hc := connect_eq (S := S) (Ownet.argument host)
  by_cases h0 : S.init 0 (Ownet.argument host) = true
  · rw [if_pos h0] at hc
    rw [complete_of_registered host (by unfold Ownet.construct; rw [hc]; rfl)]
    exact ⟨fun h => Or.inl ⟨Or.inl h0, h⟩, fun h => h.elim And.right fun h => hvac h.2⟩
  rw [if_neg h0] at hc
  by_cases h1 : S.init 1 (Ownet.argument host) = true
  · rw [if_pos h1] at hc
    rw [complete_of_registered host (by unfold Ownet.construct; rw [hc]; rfl)]
    exact ⟨fun h => Or.inl ⟨Or.inr h1, h⟩, fun h => h.elim And.right fun h => hvac h.2⟩
  rw [if_neg h1] at hc
  by_cases h2 : S.init 2 (Ownet.argument host) = true
  · rw [if_pos h2] at hc
    rw [complete_of_third host (by unfold Ownet.construct; rw [hc]; rfl)]
    exact ⟨fun h => Or.inr ⟨h2, h⟩, fun h => h.elim (fun h => (h.1.elim h0 h1).elim) And.right⟩
  · rw [if_neg h2] at hc
    have hnone : Ownet.construct R S host = .ok (false, []) := by
      unfold Ownet.construct
      rw [hc]
      rfl
    refine iff_of_false ?_ ?_
    · intro h
      obtain ⟨sensors, hok, -⟩ := h
      rw [hnone] at hok
      exact absurd (Prod.mk.inj (Except.ok.inj hok)).1 (by decide)
    · intro h
      rcases h with h | h
      · exact h.1.elim h0 h1
      · exact h2 h.1

end

end

/-! ## `Onewire` -/

section
variable (fs : Onewire.FileSystem)

/-- The text of a file in an entry's directory. -/
def ownFile (path : List Byte) (file : String) : List Byte :=
  (fs.file (path ++ bytes "/" ++ bytes file)).getD []

def expectedFile (path : List Byte) : Option Onewire :=
  if ownFile fs path "family" = [] then none
  else some ⟨ownFile fs path "family", ownFile fs path "id", ownFile fs path "alias",
    ownFile fs path "family" ++ bytes "." ++ ownFile fs path "id",
    familyType (ownFile fs path "family"), some false⟩

/-- The object is mounted and has the sensors of the mounted owfs. -/
def MountComplete (names : List (List Byte)) : Prop :=
  ∃ m, Onewire.construct fs = .ok m ∧ m.mounted = true ∧
    ∀ path, m.sensors.lookup path =
      if path ∈ names.map (Onewire.entryPath Onewire.owfsRoot) then expectedFile fs path else none

/-- While `_mounted` is false every family reads as empty. -/
theorem scanOwfs_unmounted (names : List (List Byte)) (sensors : Registered) :
    Onewire.scanOwfs fs false names sensors = sensors := by
  induction names with
  | nil => rfl
  | cons name names ih =>
    have hs : Onewire.owfsSensor fs false (Onewire.entryPath Onewire.owfsRoot name) = none := rfl
    rw [Onewire.scanOwfs, hs, ih, ite_self]

/-- Once mounted, the object has a sensor of the kernel's directory. -/
theorem scanW1_mounted {names : List (List Byte)} {mounted mounted' : Bool}
    {sensors sensors' : Registered}
    (h : Onewire.scanW1 names mounted sensors = .ok (mounted', sensors'))
    (hbefore : mounted = true →
      ∃ n data, (Onewire.entryPath Onewire.w1Root n, data) ∈ sensors) :
    mounted' = true → ∃ n data, (Onewire.entryPath Onewire.w1Root n, data) ∈ sensors' := by
  induction names generalizing mounted sensors with
  | nil =>
    obtain ⟨rfl, rfl⟩ := Prod.mk.inj (Except.ok.inj h)
    exact hbefore
  | cons name names ih =>
    rw [Onewire.scanW1] at h
    split at h
    · obtain ⟨owire, -, hrest⟩ := bind_ok_iff.mp h
      apply ih hrest
      intro _
      exact ⟨name, owire, mem_assign.mpr (Or.inr rfl)⟩
    · exact ih h hbefore

theorem roots_apart (n name : List Byte) :
    Onewire.entryPath Onewire.owfsRoot name ≠ Onewire.entryPath Onewire.w1Root n := by
  intro h
  have h1 : (Onewire.entryPath Onewire.owfsRoot name)[1]? = some 109 := rfl
  have h2 : (Onewire.entryPath Onewire.w1Root n)[1]? = some 115 := rfl
  rw [h, h2] at h1
  exact absurd h1 (by decide)

theorem mount_incomplete {names : List (List Byte)}
    (h : fs.directory Onewire.owfsRoot = .listing names) : ¬ MountComplete fs names := by
  intro hc
  obtain ⟨m, hok, hm, hl⟩ := hc
  unfold Onewire.construct at hok
  rw [h] at hok
  dsimp only at hok
  rw [scanOwfs_unmounted] at hok
  rw [if_pos (by rfl)] at hok
  split at hok
  · obtain ⟨⟨mounted, sensors⟩, hscan, hrest⟩ := bind_ok_iff.mp hok
    rw [← Except.ok.inj hrest] at hm hl
    obtain ⟨n, data, hmem⟩ := scanW1_mounted hscan (by simp) hm
    have hnone := hl (Onewire.entryPath Onewire.w1Root n)
    rw [if_neg, List.lookup_eq_none_iff] at hnone
    · exact absurd rfl (bne_iff_ne.mp (hnone _ hmem))
    · intro hp
      obtain ⟨name, -, heq⟩ := List.mem_map.mp hp
      exact roots_apart n name heq
  · rw [← Except.ok.inj hok] at hm
    exact absurd hm (by simp)
  · exact absurd hok (by simp)

end

/-- The constructors of both classes: `Ownet` needs its connection early and all fields of
its sensors, `Onewire` never gets to the mounted sensors. -/
theorem discovery_iff {F : Type} [Zero F] (R : FloatReader F) (S : Ownet.Server)
    (host : List Byte) (fs : Onewire.FileSystem) (names : List (List Byte))
    (hmounted : fs.directory Onewire.owfsRoot = .listing names) :
    (Complete S R host ↔
      ((S.init 0 (Ownet.argument host) = true ∨ S.init 1 (Ownet.argument host) = true) ∧
        ∀ entry ∈ Ownet.rootEntries S, Sound S R entry) ∨
      (S.init 2 (Ownet.argument host) = true ∧
        ∀ entry ∈ Ownet.rootEntries S, own S entry "family" = [])) ∧
    ¬ MountComplete fs names :=
  ⟨complete_iff host, mount_incomplete fs hmounted⟩

/-! ## One thermometer -/

/-- The connection succeeds at attempt `k`, counted from 0. -/
def porch (k : Nat) : Ownet.Server where
  init i _ := i == k
  get path :=
    if path = bytes "/" then some (bytes "28.A/")
    else if path = bytes "28.A/family" then some (bytes "28")
    else if path = bytes "28.A/id" then some (bytes "A")
    else if path = bytes "28.A/alias" then some (bytes "porch")
    else if path = Ownet.scaleFile then some (bytes "F")
    else none

/-- An owfs with the same thermometer. -/
def porchMount : Onewire.FileSystem where
  directory path := if path = Onewire.owfsRoot then .listing [bytes "28.A"] else .absent
  file path := if path = bytes "/mnt/1wire/28.A/family" then some (bytes "28") else none

theorem porch_entries (k : Nat) : Ownet.rootEntries (porch k) = [bytes "28.A/"] := by
  show (bytes "28.A/").splitOn comma = _
  decide +kernel

theorem porch_second :
    Complete (porch 1) readsTwentyOne (bytes "localhost") ∧
      ¬ MountComplete porchMount [bytes "28.A"] := by
  have h := discovery_iff readsTwentyOne (porch 1) (bytes "localhost") porchMount
    [bytes "28.A"] rfl
  refine ⟨h.1.mpr (Or.inl ⟨Or.inr rfl, ?_⟩), h.2⟩
  rw [porch_entries]
  intro entry he
  rw [List.mem_singleton] at he
  subst he
  intro _
  have ht : familyType (own (porch 1) (bytes "28.A/") "family") = .temperature := by
    decide +kernel
  rw [ht]
  refine ⟨⟨?_, ?_, ?_, trivial⟩, fun _ => rfl, fun hb => absurd hb (by decide)⟩
  · intro _
    rfl
  · intro hn
    exact absurd hn (by decide +kernel)
  · intro hn
    exact absurd hn (by decide +kernel)

theorem porch_third :
    (porch 2).init 2 (Ownet.argument (bytes "localhost")) = true ∧
      ¬ Complete (porch 2) readsTwentyOne (bytes "localhost") := by
  refine ⟨rfl, ?_⟩
  rw [complete_of_third (bytes "localhost") rfl, porch_entries]
  intro h
  exact absurd (h _ List.mem_cons_self) (by decide +kernel)

end PowerGuru.Devices.Discovery
