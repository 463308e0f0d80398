import PowerGuru.Store.Mergedb

/-!
# The weather table and its writers

Only `timestamp` is declared UNIQUE, so a reading is dropped when any sensor was
sampled at the same time. The writers' statements are taken at the values they carry, the
copies as `mergedb` makes them.
-/
namespace PowerGuru.Store.Weather

open Lib.NullableTable Lib.Times Mergedb

/-- Readings to be written, no two of one sensor at one time. -/
structure Batch where
  readings : List Row
  dated : ∀ r ∈ readings, r.timestamp ≠ none
  distinct : readings.Pairwise fun r s => r.id ≠ s.id ∨ r.timestamp ≠ s.timestamp

/-- `INSERT INTO weather VALUES (…) ON CONFLICT DO NOTHING`, one reading after the other. -/
def written (rs : List Row) : WeatherTable := Table.empty.insertAll rs

/-- No two readings are of one time, whatever their sensors. -/
def Apart (rs : List Row) : Prop := rs.Pairwise fun r s => r.timestamp ≠ s.timestamp

theorem written_complete_iff (b : Batch) :
    (∀ r ∈ b.readings, r ∈ (written b.readings).rows) ↔ Apart b.readings := by
  constructor
  · intro h
    refine b.distinct.imp_of_mem ?_
    intro r s hr hs hd ht
    obtain ⟨t, hrt⟩ := Option.ne_none_iff_exists'.mp (b.dated r hr)
    have he : r = s := (written b.readings).eq_of_key (h r hr) (h s hs) hrt (ht ▸ hrt)
    rcases hd with hd | hd
    · exact hd (congrArg Row.id he)
    · exact hd ht
  · intro h r hr
    obtain ⟨t, hrt⟩ := Option.ne_none_iff_exists'.mp (b.dated r hr)
    refine Table.mem_insertAll_of_alone hr hrt ?_
    intro s hs hst
    have hs : s ∈ b.readings := hs.resolve_left List.not_mem_nil
    exact List.inj_on_of_nodup_map (List.pairwise_map.mpr h) hs hr (hst.trans hrt.symm)

theorem mem_written (b : Batch) (h : Apart b.readings) (r : Row) :
    r ∈ (written b.readings).rows ↔ r ∈ b.readings := by
  constructor
  · intro hr
    exact (Table.mem_of_mem_insertAll hr).resolve_left List.not_mem_nil
  · exact (written_complete_iff b).mpr h r

/-! ## The copies -/

section
variable (printable : Char → Bool)

/-- The rows of the cursor, none if there is no SELECT or the server rejects it. -/
def returned (starttime endtime : Option Timestamp) (source dest : WeatherTable) : List Row :=
  (((mergedb printable starttime endtime source dest).select.bind readSelect).map
    fun cs => selected cs source).getD []

/-- Every reading is in the table, and every row that `mergedb` is given is, to the second,
in the destination. -/
structure NoneLost (b : Batch) (starttime endtime : Option Timestamp) (dest : WeatherTable) :
    Prop where
  inserted : ∀ r ∈ b.readings, r ∈ (written b.readings).rows
  merged : ∀ r ∈ returned printable starttime endtime (written b.readings) dest,
    r.cut ∈ (mergedb printable starttime endtime (written b.readings) dest).dest.rows

/-- There is a SELECT with one `WHERE` at most. -/
structure Asks (starttime endtime : Option Timestamp) (dest : WeatherTable) : Prop where
  dated : starttime = none → ∀ r ∈ dest.rows, r.timestamp ≠ none
  oneClause : starttime = none → endtime ≠ none → dest.rows = []

/-- A reading that is let through shares its second with no row of the destination and no other
reading that is let through, unless it is copied to the same row. -/
def SecondsApart (rs : List Row) (starttime endtime : Option Timestamp) (dest : WeatherTable) :
    Prop :=
  ∀ r ∈ rs, Through starttime endtime dest r →
    (∀ s ∈ dest.rows, s.timestamp = r.cut.timestamp → s = r.cut) ∧
      ∀ x ∈ rs, Through starttime endtime dest x → x.cut.timestamp = r.cut.timestamp →
        x.cut = r.cut

/-- What is not there already is sound, and no INSERT in front of it is refused. -/
def Accepted (rs : List Row) (starttime endtime : Option Timestamp) (dest : WeatherTable) :
    Prop :=
  ∀ r ∈ rs, Through starttime endtime dest r → r.cut ∈ dest.rows ∨
    r.Sound printable ∧ ∀ x ∈ rs, Through starttime endtime dest x → x.Before r →
      copied printable x ≠ none

end

section
variable {printable : Char → Bool} {starttime endtime : Option Timestamp} {b : Batch}
  {dest : WeatherTable}

theorem asks_iff : Asks starttime endtime dest ↔ conditions starttime endtime dest ≠ none := by
  rw [conditions_ne_none_iff]
  exact ⟨fun h => ⟨h.dated, h.oneClause⟩, fun h => ⟨h.1, h.2⟩⟩

theorem returned_eq (starttime endtime : Option Timestamp) (source dest : WeatherTable) :
    returned printable starttime endtime source dest =
      ((conditions starttime endtime dest).map fun cs => selected cs source).getD [] := by
  rw [returned, mergedb_select, readSelect_statement]

theorem cut_dated {r : Row} (h : r.timestamp ≠ none) : ∃ t, r.cut.timestamp = some t := by
  obtain ⟨t, ht⟩ := Option.ne_none_iff_exists'.mp h
  exact ⟨t.cut, by rw [Row.cut, ht, Option.map_some]⟩

theorem sound_cut_iff (r : Row) : r.cut.Sound printable ↔ r.Sound printable := by
  constructor
  · intro h
    refine ⟨h.id, h.scale, h.humidity, fun hr => h.dated ?_⟩
    rw [Row.cut, hr, Option.map_none]
  · intro h
    refine ⟨h.id, h.scale, h.humidity, ?_⟩
    obtain ⟨t, ht⟩ := cut_dated h.dated
    simp [ht]

/-- Rows that are copied to one row are sound together. -/
theorem sound_of_cut_eq {r s : Row} (h : r.cut = s.cut) (hs : s.Sound printable) :
    r.Sound printable := by
  rw [← sound_cut_iff, h, sound_cut_iff]
  exact hs

/-- Between two rows of one second there are only rows of that second. -/
theorem cut_timestamp_between {r x y : Row} (hxy : ¬ y.Before x) (hyr : y.Before r)
    (hx : x.timestamp ≠ none) (hsame : x.cut.timestamp = r.cut.timestamp) :
    y.cut.timestamp = r.cut.timestamp := by
  obtain ⟨u, t, hu, ht, hlt⟩ := hyr
  obtain ⟨v, hv⟩ := Option.ne_none_iff_exists'.mp hx
  have hle : v ≤ u := not_lt.mp fun h => hxy ⟨u, v, hu, hv, h⟩
  simp only [Row.cut, hu, hv, ht, Option.map_some, Option.some.injEq] at hsame ⊢
  exact le_antisymm (cut_mono hlt.le) (hsame ▸ cut_mono hle)

section
variable {cs : List Condition} {source : WeatherTable}
  (hcs : conditions starttime endtime dest = some cs)
  (hdated : ∀ r ∈ source.rows, r.timestamp ≠ none)
include hcs hdated

/-- Two rows of one second are one row of the destination. -/
theorem secondsApart_of_merged (h : ∀ r ∈ selected cs source,
      r.cut ∈ (dest.insertAll (copies printable cs source)).rows) :
    SecondsApart source.rows starttime endtime dest := by
  intro r hr hthrough
  obtain ⟨t, ht⟩ := cut_dated (hdated r hr)
  have hmem := h r ((mem_selected_iff hcs).mpr ⟨hr, hthrough⟩)
  constructor
  · intro s hs hst
    exact Table.eq_of_key _ (Table.mem_insertAll_of_mem _ hs) hmem (hst.trans ht) ht
  · intro x hx hxt hsame
    exact Table.eq_of_key _ (h x ((mem_selected_iff hcs).mpr ⟨hx, hxt⟩)) hmem
      (hsame.trans ht) ht

/-- What was not there already is the copy of a row of its second, so its own copy. -/
theorem accepted_of_merged (h : ∀ r ∈ selected cs source,
      r.cut ∈ (dest.insertAll (copies printable cs source)).rows) :
    Accepted printable source.rows starttime endtime dest := by
  intro r hr hthrough
  rcases Table.mem_of_mem_insertAll (h r ((mem_selected_iff hcs).mpr ⟨hr, hthrough⟩)) with
    hold | hcopy
  · exact Or.inl hold
  have hapart := secondsApart_of_merged hcs hdated h
  obtain ⟨x, hx, hcopied⟩ := (mem_copies_iff hcs).mp hcopy
  have hsame := (hapart r hr hthrough).2 x hx.mem hx.through (copied_cut hcopied).symm
  rw [← hsame, copied_eq_cut_iff] at hcopied
  refine Or.inr ⟨sound_of_cut_eq hsame.symm hcopied, ?_⟩
  intro y hy hyt hyr
  by_cases hyx : y.Before x
  · exact hx.behind y hy hyt hyx
  · -- a row between the two is copied to the same row
    have hsecond := cut_timestamp_between hyx hyr hcopied.dated (congrArg Row.timestamp hsame)
    have hcut := (hapart r hr hthrough).2 y hy hyt hsecond
    rw [copied_of_sound (sound_of_cut_eq (hcut.trans hsame.symm) hcopied)]
    simp

theorem merged_of_accepted (hapart : SecondsApart source.rows starttime endtime dest)
    (haccepted : Accepted printable source.rows starttime endtime dest) :
    ∀ r ∈ selected cs source, r.cut ∈ (dest.insertAll (copies printable cs source)).rows := by
  intro r hr
  obtain ⟨hr, hthrough⟩ := (mem_selected_iff hcs).mp hr
  rcases haccepted r hr hthrough with hold | ⟨hsound, hbehind⟩
  · exact Table.mem_insertAll_of_mem _ hold
  have hcopy : r.cut ∈ copies printable cs source :=
    (mem_copies_iff hcs).mpr ⟨r, ⟨hr, hthrough, hbehind⟩, copied_of_sound hsound⟩
  obtain ⟨t, ht⟩ := cut_dated (hdated r hr)
  refine Table.mem_insertAll_of_alone hcopy ht ?_
  intro s hs hst
  rcases hs with hs | hs
  · exact (hapart r hr hthrough).1 s hs (hst.trans ht.symm)
  · obtain ⟨x, hx, hcopied⟩ := (mem_copies_iff hcs).mp hs
    have hsecond : x.cut.timestamp = r.cut.timestamp := by
      rw [ht, ← hst, copied_cut hcopied, Row.cut]
    have hsame := (hapart r hr hthrough).2 x hx.mem hx.through hsecond
    rw [copied_of_sound (sound_of_cut_eq hsame hsound), hsame] at hcopied
    exact (Option.some.inj hcopied).symm

theorem merged_iff : (∀ r ∈ selected cs source,
      r.cut ∈ (dest.insertAll (copies printable cs source)).rows) ↔
    SecondsApart source.rows starttime endtime dest ∧
      Accepted printable source.rows starttime endtime dest := by
  constructor
  · intro h
    exact ⟨secondsApart_of_merged hcs hdated h, accepted_of_merged hcs hdated h⟩
  · intro h
    exact merged_of_accepted hcs hdated h.1 h.2

end

end

/-- Two sensors that report in the same second. -/
def twoSensors : Batch where
  readings := [late, { late with id := { text := "5678".toList } }]
  dated := by decide
  distinct := by decide

theorem twoSensors_lost : ¬ NoneLost (fun _ => true) twoSensors none none Table.empty := by
  intro h
  have happart := (written_complete_iff twoSensors).mp h.inserted
  exact absurd (List.rel_of_pairwise_cons happart (List.mem_singleton_self _)) (by simp)

/-- No reading is lost exactly when no two share a timestamp and, if `mergedb` has a SELECT to
send, no two that it is given share a second and none is refused or spelt in another way. -/
theorem noneLost_iff (printable : Char → Bool) (b : Batch) (starttime endtime : Option Timestamp)
    (dest : WeatherTable) :
    NoneLost printable b starttime endtime dest ↔
      Apart b.readings ∧
        (Asks starttime endtime dest → SecondsApart b.readings starttime endtime dest ∧
          Accepted printable b.readings starttime endtime dest) := by
  have hsplit : NoneLost printable b starttime endtime dest ↔
      (∀ r ∈ b.readings, r ∈ (written b.readings).rows) ∧
        ∀ r ∈ returned printable starttime endtime (written b.readings) dest,
          r.cut ∈ (mergedb printable starttime endtime (written b.readings) dest).dest.rows :=
    ⟨fun h => ⟨h.inserted, h.merged⟩, fun h => ⟨h.1, h.2⟩⟩
  rw [hsplit, written_complete_iff, asks_iff, returned_eq, mergedb_dest]
  refine and_congr_right fun happart => ?_
  cases hcs : conditions starttime endtime dest with
  | none => simp
  | some cs =>
    have hdated : ∀ r ∈ (written b.readings).rows, r.timestamp ≠ none :=
      fun r hr => b.dated r ((mem_written b happart r).mp hr)
    have hmerged := @merged_iff printable starttime endtime dest cs _ hcs hdated
    simp only [SecondsApart, Accepted, mem_written b happart] at hmerged
    simpa [SecondsApart, Accepted] using hmerged

end PowerGuru.Store.Weather
