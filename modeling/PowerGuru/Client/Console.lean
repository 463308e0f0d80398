import PowerGuru.Net.Commands

/-!
# The client's console

Each line that is typed becomes one command. A line is split at its first blank here, and
the arguments of HELO once more in `createCommand`.
-/
namespace PowerGuru.Client.Console

open Lib.Bytes Net.Commands

/-- What the constructor of `Commands` enters. -/
def words : List (List Byte × Cmd) :=
  [(bytes "nop", .nop), (bytes "list", .list), (bytes "poll", .poll), (bytes "helo", .helo)]

/-- `_commands`, which only grows. -/
structure Table where
  entries : List (List Byte × Cmd)
  initial : ∀ p ∈ words, entries.lookup p.1 = some p.2

def commands : Table := ⟨words, by decide⟩

theorem lookup_append_of_some {α β : Type} [BEq α] {k : α} {v : β} {l : List (α × β)}
    (m : List (α × β)) (h : l.lookup k = some v) : (l ++ m).lookup k = some v := by
  rw [List.lookup_append, h]
  rfl

/-- `_commands[cmd]`. A word that is not there is entered with the first command. -/
def convertAction (commands : Table) (cmd : List Byte) : Cmd × Table :=
  match commands.entries.lookup cmd with
  | some c => (c, commands)
  | none =>
      (.nop,
        { entries := commands.entries ++ [(cmd, .nop)]
          initial := fun p hp => lookup_append_of_some _ (commands.initial p hp) })

/-- `substr(pos)` keeps the blank. -/
def split (line : List Byte) : List Byte × List Byte :=
  if blank ∈ line then (line.takeWhile (· != blank), line.dropWhile (· != blank)) else (line, [])

structure Handler where
  cmd : Table
  str : List Byte

def Handler.start : Handler := ⟨commands, []⟩

/-- One line, and what it puts on the socket. -/
def Handler.enter (console : Handler) (line : List Byte) : List Byte × Handler :=
  let (action, args) := split line
  let (c, cmd) := convertAction console.cmd action
  let str := createCommand c args console.str
  (str, ⟨cmd, str⟩)

def Handler.run (console : Handler) : List (List Byte) → List (List Byte)
  | [] => []
  | line :: lines => (console.enter line).1 :: (console.enter line).2.run lines

/-- The lines that `getline` delivers until `cin` fails. At the end of the input an empty
line has failed already; one that is not empty is left in place and seen twice. -/
def getlines (line : List Byte) : List Byte → List (List Byte)
  | [] => if line = [] then [[]] else [line, line]
  | b :: input => if b = LF then line :: getlines [] input else getlines (line ++ [b]) input

def consoleHandler (input : List Byte) : List (List Byte) := Handler.start.run (getlines [] input)

/-- What the keyboard sends for a line. -/
def typed (lines : List (List Byte)) : List Byte := lines.flatMap (· ++ [LF])

theorem getlines_line {line : List Byte} (h : LF ∉ line) (start input : List Byte) :
    getlines start (line ++ LF :: input) = (start ++ line) :: getlines [] input := by
  induction line generalizing start with
  | nil => simp [getlines]
  | cons b line ih =>
    have hb : b ≠ LF := fun he => h (he ▸ List.mem_cons_self)
    rw [List.cons_append, getlines, if_neg hb, ih (fun hm => h (List.mem_cons_of_mem b hm))]
    simp

theorem getlines_typed {lines : List (List Byte)} (h : ∀ l ∈ lines, LF ∉ l) (input : List Byte) :
    getlines [] (typed lines ++ input) = lines ++ getlines [] input := by
  induction lines with
  | nil => rfl
  | cons line lines ih =>
    have hl := getlines_line (h line List.mem_cons_self) [] (typed lines ++ input)
    have ht := ih fun l hl => h l (List.mem_cons_of_mem line hl)
    have he : typed (line :: lines) ++ input = line ++ LF :: (typed lines ++ input) := by
      simp [typed]
    rw [he, hl, ht]
    rfl

/-- The state in which a line is read is some state, whatever was typed before. -/
theorem run_append (console : Handler) (history : List (List Byte)) (line : List Byte)
    (later : List (List Byte)) :
    ∃ c : Handler, (console.run (history ++ line :: later))[history.length]? =
      some (c.enter line).1 := by
  induction history generalizing console with
  | nil => exact ⟨console, rfl⟩
  | cons l history ih => exact ih (console.enter l).2

theorem createCommand_str {cmd : Cmd} (h : cmd ≠ .result) (args str str' : List Byte) :
    createCommand cmd args str = createCommand cmd args str' := by
  rw [createCommand, if_neg h, createCommand, if_neg h]

theorem enter_word (console : Handler) {a line args : List Byte} {cmd : Cmd}
    (ha : (a, cmd) ∈ words) (hs : split line = (a, args)) :
    (console.enter line).1 = createCommand cmd args [] := by
  have hl : console.cmd.entries.lookup a = some cmd := console.cmd.initial _ ha
  have hr : ∀ p ∈ words, p.2 ≠ .result := by decide
  have hc : convertAction console.cmd a = (cmd, console.cmd) := by
    unfold convertAction
    rw [hl]
  have he : (console.enter line).1 = createCommand cmd args console.str := by
    simp only [Handler.enter, hs, hc]
  rw [he]
  exact createCommand_str (hr _ ha) args _ _

/-- A line that is a word of the table and, after a blank, its arguments. -/
def lineOf (a : List Byte) : Option (List Byte) → List Byte
  | none => a
  | some r => a ++ blank :: r

/-- The arguments that `console_handler` takes from it. -/
def taken : Option (List Byte) → List Byte
  | none => []
  | some r => blank :: r

theorem split_lineOf {a : List Byte} (h : blank ∉ a) (r : Option (List Byte)) :
    split (lineOf a r) = (a, taken r) := by
  have hp : ∀ b ∈ a, (b != blank) = true := fun b hb => bne_iff_ne.mpr fun he => h (he ▸ hb)
  unfold split
  cases r with
  | none =>
    show (if blank ∈ a then _ else (a, [])) = (a, [])
    rw [if_neg h]
  | some r =>
    have hm : blank ∈ lineOf a (some r) := by simp [lineOf]
    rw [if_pos hm, lineOf, List.takeWhile_append_of_pos hp, List.dropWhile_append_of_pos hp]
    simp [taken]

/-- A blank at the front is part of the arguments for every command of the table. -/
theorem createBody_blank_ne {cmd : Cmd} (h : cmd ≠ .event) (r : List Byte) :
    createBody cmd (blank :: r) ≠ createBody cmd r := by
  intro he
  have hl := congrArg List.length he
  cases cmd with
  | helo =>
    have hb : user (blank :: r) = some r := by simp [user]
    have hh : hostname (blank :: r) = [] := by simp [hostname]
    cases hu : user r with
    | none =>
      have hr : hostname r = r := by
        apply hostname_of_not_mem
        intro hm
        rw [user, if_pos hm] at hu
        exact absurd hu (by simp)
      simp only [createBody, hb, hh, hu, hr, length_tagged, List.length_append,
        List.length_nil] at hl
      omega
    | some u =>
      have hr := congrArg List.length (eq_of_user hu)
      simp only [List.length_append, List.length_cons] at hr
      simp only [createBody, hb, hh, hu, length_tagged, List.length_append,
        List.length_nil] at hl
      omega
  | event => exact h rfl
  | _ => simp [createBody, length_tagged] at hl

theorem createCommand_blank_ne {a : List Byte} {cmd : Cmd} (h : (a, cmd) ∈ words)
    (r : List Byte) : createCommand cmd (blank :: r) [] ≠ createCommand cmd r [] := by
  have hw : ∀ p ∈ words, p.2 ≠ .result ∧ p.2 ≠ .event := by decide
  obtain ⟨hr, he⟩ := hw _ h
  intro hc
  rw [createCommand, if_neg hr, createCommand, if_neg hr, List.append_left_inj,
    List.append_right_inj] at hc
  exact createBody_blank_ne he r hc

/-- A word of the table sends its command with the arguments that were typed exactly if
none were. -/
theorem consoleHandler_sends_iff (history : List (List Byte)) (hh : ∀ l ∈ history, LF ∉ l)
    {a : List Byte} {cmd : Cmd} (ha : (a, cmd) ∈ words) (r : Option (List Byte))
    (hr : LF ∉ r.getD []) (later : List Byte) :
    (consoleHandler (typed (history ++ [lineOf a r]) ++ later))[history.length]? =
      some (createCommand cmd (r.getD []) []) ↔ r = none := by
  have hw : ∀ p ∈ words, blank ∉ p.1 ∧ LF ∉ p.1 := by decide
  obtain ⟨hb, hn⟩ := hw _ ha
  have hl : LF ∉ lineOf a r := by
    cases r with
    | none => exact hn
    | some r =>
      have hne : LF ≠ blank := by decide
      simp only [lineOf, List.mem_append, List.mem_cons, not_or]
      exact ⟨hn, hne, hr⟩
  have hlines : ∀ l ∈ history ++ [lineOf a r], LF ∉ l := by
    intro l hm
    rcases List.mem_append.mp hm with hm | hm
    · exact hh l hm
    · rw [List.mem_singleton.mp hm]
      exact hl
  obtain ⟨c, hc⟩ := run_append Handler.start history (lineOf a r) (getlines [] later)
  rw [consoleHandler, getlines_typed hlines, List.append_assoc, List.singleton_append, hc,
    enter_word c ha (split_lineOf hb r), Option.some.injEq]
  cases r with
  | none => exact iff_of_true rfl rfl
  | some r => exact iff_of_false (createCommand_blank_ne ha r) (by simp)

theorem consoleHandler_sends_list :
    (consoleHandler (typed ([bytes "poll x"] ++ [lineOf (bytes "list") none]) ++ []))[1]? =
      some (createCommand .list [] []) :=
  (consoleHandler_sends_iff [bytes "poll x"] (by decide)
    (show (bytes "list", .list) ∈ words by decide) none (by decide) []).mpr rfl

/-- The host of `helo h u` is empty and its user is `h u`. -/
theorem consoleHandler_helo :
    (consoleHandler (bytes "helo h u\n"))[0]? = some
      (bytes "<command><helo><hostname></hostname><user>h u</user></helo></command>\n") ∧
    (consoleHandler (bytes "helo h u\n"))[0]? ≠ some (createCommand .helo (bytes "h u") []) := by
  decide

end PowerGuru.Client.Console
