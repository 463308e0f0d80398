import PowerGuru.Client.Console
import PowerGuru.Lib.AssocMap

/-!
# The table of action words

`convertAction` looks a word up with `operator[]`, which enters a word that is missing. Its
value is that of the first command, NOP.
-/
namespace PowerGuru.Client.ActionTable

open Lib.Bytes Lib.AssocMap Net.Commands Console

/-- The word is one that the constructor enters. -/
def IsAction (text : List Byte) : Prop := text ∈ words.map Prod.fst

instance (text : List Byte) : Decidable (IsAction text) := inferInstanceAs (Decidable (_ ∈ _))

/-- One lookup after the other on the same object. -/
def lookups : Table → List (List Byte) → List Cmd × Table
  | t, [] => ([], t)
  | t, text :: texts =>
      ((convertAction t text).1 :: (lookups (convertAction t text).2 texts).1,
        (lookups (convertAction t text).2 texts).2)

/-- What is asked of the lookups of an object. -/
structure ReadOnly (texts : List (List Byte)) : Prop where
  kept : ∀ p ∈ words, (lookups commands texts).2.entries.lookup p.1 = some p.2
  closed : (lookups commands texts).2.entries = words
  foreign : ∀ p ∈ texts.zip (lookups commands texts).1, ¬ IsAction p.1 → p.2 ∉ words.map Prod.snd

/-- Every other word of the table is a NOP. -/
def NopElse (t : Table) : Prop := ∀ e ∈ t.entries, IsAction e.1 ∨ e.2 = .nop

theorem commands_nopElse : NopElse commands := fun _ he => Or.inl (List.mem_map_of_mem he)

/-! ## One lookup -/

theorem convertAction_some {t : Table} {text : List Byte} {c : Cmd}
    (h : t.entries.lookup text = some c) : convertAction t text = (c, t) := by
  unfold convertAction
  rw [h]

theorem convertAction_none {t : Table} {text : List Byte} (h : t.entries.lookup text = none) :
    (convertAction t text).1 = .nop ∧
      (convertAction t text).2.entries = t.entries ++ [(text, .nop)] := by
  unfold convertAction
  rw [h]
  exact ⟨rfl, rfl⟩

/-- An action word changes nothing. -/
theorem convertAction_action (t : Table) {text : List Byte} (h : IsAction text) :
    (convertAction t text).2 = t := by
  obtain ⟨p, hp, rfl⟩ := List.mem_map.mp h
  rw [convertAction_some (t.initial p hp)]

/-- Another word is a NOP, now as at any time before. -/
theorem convertAction_foreign {t : Table} (ht : NopElse t) {text : List Byte}
    (h : ¬ IsAction text) : (convertAction t text).1 = .nop := by
  cases hl : t.entries.lookup text with
  | none => exact (convertAction_none hl).1
  | some c =>
    rw [convertAction_some hl]
    rcases ht (text, c) (mem_of_lookup hl) with ha | hc
    · exact absurd ha h
    · exact hc

theorem convertAction_nopElse {t : Table} (ht : NopElse t) (text : List Byte) :
    NopElse (convertAction t text).2 := by
  cases hl : t.entries.lookup text with
  | some c => rwa [convertAction_some hl]
  | none =>
    intro e he
    rw [(convertAction_none hl).2] at he
    rcases List.mem_append.mp he with he | he
    · exact ht e he
    · rw [List.mem_singleton.mp he]
      exact Or.inr rfl

/-- The word is in the table afterwards, with all that was. -/
theorem convertAction_enters (t : Table) (text : List Byte) :
    t.entries <+: (convertAction t text).2.entries ∧
      text ∈ (convertAction t text).2.entries.map Prod.fst := by
  cases hl : t.entries.lookup text with
  | some c =>
    rw [convertAction_some hl]
    exact ⟨List.prefix_rfl, List.mem_map.mpr ⟨(text, c), mem_of_lookup hl, rfl⟩⟩
  | none =>
    rw [(convertAction_none hl).2]
    exact ⟨List.prefix_append _ _, by simp⟩

/-! ## A sequence of lookups -/

/-- The table only grows. -/
theorem lookups_grow (t : Table) (texts : List (List Byte)) :
    t.entries <+: (lookups t texts).2.entries := by
  induction texts generalizing t with
  | nil => exact List.prefix_rfl
  | cons text texts ih => exact (convertAction_enters t text).1.trans (ih _)

/-- Whatever is looked up is in the table from then on. -/
theorem lookups_enters (t : Table) (texts : List (List Byte)) :
    ∀ text ∈ texts, text ∈ (lookups t texts).2.entries.map Prod.fst := by
  induction texts generalizing t with
  | nil => exact fun text h => absurd h List.not_mem_nil
  | cons first texts ih =>
    intro text h
    rcases List.mem_cons.mp h with rfl | h
    · exact ((lookups_grow _ texts).map Prod.fst).subset (convertAction_enters t text).2
    · exact ih _ text h

theorem lookups_actions (t : Table) {texts : List (List Byte)} (h : ∀ text ∈ texts, IsAction text) :
    (lookups t texts).2 = t := by
  induction texts generalizing t with
  | nil => rfl
  | cons text texts ih =>
    rw [lookups, convertAction_action t (h text List.mem_cons_self)]
    exact ih t fun x hx => h x (List.mem_cons_of_mem _ hx)

/-- A word that is not in the table from the start is a NOP whenever it is looked up. -/
theorem lookups_foreign {t : Table} (ht : NopElse t) (texts : List (List Byte)) :
    ∀ p ∈ texts.zip (lookups t texts).1, ¬ IsAction p.1 → p.2 = .nop := by
  induction texts generalizing t with
  | nil => exact fun p hp => absurd hp List.not_mem_nil
  | cons text texts ih =>
    intro p hp hforeign
    rcases List.mem_cons.mp hp with rfl | hp
    · exact convertAction_foreign ht hforeign
    · exact ih (convertAction_nopElse ht text) p hp hforeign

/-- The four words keep their commands whatever is looked up; the table stays as it was, and no
other word becomes a command, exactly if nothing but the four words is looked up. -/
theorem readOnly_iff_actions (texts : List (List Byte)) :
    ReadOnly texts ↔ ∀ text ∈ texts, IsAction text := by
  constructor
  · intro h text htext
    have hmem := lookups_enters commands texts text htext
    rwa [h.closed] at hmem
  · intro h
    have htable := lookups_actions commands h
    refine ⟨(lookups commands texts).2.initial, by rw [htable]; rfl, ?_⟩
    intro p hp hforeign
    exact absurd (h p.1 (List.of_mem_zip hp).1) hforeign

/-- `lst` is entered, and it is a NOP. -/
theorem lst_entered : ¬ ReadOnly [bytes "lst"] := by
  intro h
  have hnop : (bytes "lst", Cmd.nop) ∈ [bytes "lst"].zip (lookups commands [bytes "lst"]).1 := by
    decide
  exact h.foreign _ hnop (by decide) (by decide)

/-! ## The console -/

theorem enter_nopElse {console : Handler} (h : NopElse console.cmd) (line : List Byte) :
    NopElse (console.enter line).2.cmd := convertAction_nopElse h (split line).1

theorem enter_foreign {console : Handler} (h : NopElse console.cmd) {line : List Byte}
    (hline : ¬ IsAction (split line).1) :
    (console.enter line).1 = createCommand .nop (split line).2 [] := by
  have henter : (console.enter line).1 =
      createCommand (convertAction console.cmd (split line).1).1 (split line).2 console.str := rfl
  rw [henter, convertAction_foreign h hline]
  exact createCommand_str (by decide) _ _ _

/-- A line that begins with no action word goes to the daemon as a NOP, whatever was typed
before. -/
theorem run_foreign {console : Handler} (h : NopElse console.cmd) (history : List (List Byte))
    {line : List Byte} (hline : ¬ IsAction (split line).1) (later : List (List Byte)) :
    (console.run (history ++ line :: later))[history.length]? =
      some (createCommand .nop (split line).2 []) := by
  induction history generalizing console with
  | nil => exact congrArg some (enter_foreign h hline)
  | cons l history ih => exact ih (enter_nopElse h l)

theorem consoleHandler_foreign {history : List (List Byte)} (hh : ∀ l ∈ history, LF ∉ l)
    {line : List Byte} (hl : LF ∉ line) (hline : ¬ IsAction (split line).1) (later : List Byte) :
    (consoleHandler (typed (history ++ [line]) ++ later))[history.length]? =
      some (createCommand .nop (split line).2 []) := by
  have hlines : ∀ l ∈ history ++ [line], LF ∉ l := by
    intro l hm
    rcases List.mem_append.mp hm with hm | hm
    · exact hh l hm
    · rw [List.mem_singleton.mp hm]
      exact hl
  rw [consoleHandler, getlines_typed hlines, List.append_assoc, List.singleton_append]
  exact run_foreign commands_nopElse history hline (getlines [] later)

end PowerGuru.Client.ActionTable
