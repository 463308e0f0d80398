import Mathlib.Data.List.DropRight
import Mathlib.Data.List.Flatten
import PowerGuru.Lib.PyRepr

/-!
# `gpiots.py`: `gpiots_handler`

The log has a block of lines for a reading. The fields are collected in a dictionary that is never
emptied, and the last line of a block inserts what it holds then.
-/
namespace PowerGuru.Python.Gpiots

open Lib.PyRepr

/-! ## The handler -/

/-- White space of `str`. -/
def isSpace (c : Char) : Bool :=
  let n := c.toNat
  (9 ≤ n && n ≤ 13) || (28 ≤ n && n ≤ 32) || n == 0x85 || n == 0xA0 || n == 0x1680 ||
    (0x2000 ≤ n && n ≤ 0x200A) || n == 0x2028 || n == 0x2029 || n == 0x202F || n == 0x205F ||
    n == 0x3000

/-- `replace(' ', '').rstrip()` -/
def squeeze (text : Text) : Text := (text.filter (· != ' ')).rdropWhile isSpace

def tokens (line : Text) : List Text := (squeeze line).splitOn '='

/-- The dictionary. The scale in it is not used. -/
structure Temp where
  timestamp : Option Text := none
  scale : Option Text := none
  temperature : Option Text := none
  humidity : Option Text := none
  id : Option Text := none

/-- The values that differ between the rows. -/
structure Row where
  id : Text
  temperature : Text
  humidity : Text
  scale : Text
  timestamp : Text
  deriving DecidableEq

def Row.query (r : Row) : Text :=
  "INSERT INTO weather VALUES( '".toList ++ r.id ++ "', ".toList ++ r.temperature ++
    ", 0, 0, ".toList ++ r.humidity ++ ", '".toList ++ r.scale ++ "', '".toList ++ r.timestamp ++
    "' )  ON CONFLICT DO NOTHING;; ".toList

/-- The scale is the option's. A key that is not there raises KeyError. -/
def Temp.row (scale : Text) (temp : Temp) : Option Row := do
  let id ← temp.id
  let temperature ← temp.temperature
  let humidity ← temp.humidity
  let timestamp ← temp.timestamp
  return ⟨id, temperature, humidity, scale, timestamp⟩

inductive Effect where
  | raised
  | next (temp : Temp)
  | query (row : Row)

/-- One line. An index that is out of range raises IndexError. -/
def handle (scale : Text) (temp : Temp) (line : Text) : Effect :=
  if '=' ∉ line then
    match line.splitOn ' ' with
    | date :: time :: _ => .next { temp with timestamp := some (date ++ ' ' :: time) }
    | _ => .raised
  else
    match tokens line with
    | key :: value :: _ =>
        if key = "temperature".toList then
          match value.getLast? with
          | none => .raised
          | some c =>
              .next { temp with
                scale := some [c]
                temperature := some (value.rdropWhile (· == c)) }
        else if key = "humidity".toList then
          .next { temp with humidity := some (value.rdropWhile (· == '%')) }
        else if key = "rollingcode".toList then .next { temp with id := some value }
        else if key = "battery".toList then
          match temp.row scale with
          | none => .raised
          | some row => .query row
        else .next temp
    | _ => .raised

/-- What comes of a query: a row, none (there was one, or the error is caught), or an exception. -/
inductive Answer where
  | inserted
  | refused
  | raised
  deriving DecidableEq

/-- The answer to a query, behind the ones before it. -/
abbrev Server := List Text → Text → Answer

structure State where
  temp : Temp := {}
  queries : List Text := []

inductive Outcome where
  | passed
  | inserted (row : Row)
  /-- An exception leaves the handler. -/
  | raised
  deriving DecidableEq

section
variable (server : Server) (scale : Text)

def step (st : State) (line : Text) : Outcome × State :=
  match handle scale st.temp line with
  | .raised => (.raised, st)
  | .next temp => (.passed, { st with temp })
  | .query row =>
      let asked := { st with queries := row.query :: st.queries }
      match server st.queries row.query with
      | .inserted => (.inserted row, asked)
      | .refused => (.passed, asked)
      | .raised => (.raised, asked)

/-- The outcomes of the lines, up to the one that raises. -/
def run : State → List Text → List Outcome
  | _, [] => []
  | st, line :: lines =>
      match step server scale st line with
      | (.raised, _) => [.raised]
      | (outcome, st) => outcome :: run st lines

end

/-! ## The log -/

/-- The lines of a block. -/
inductive Part where
  | stamp
  | type
  | channel
  | code
  | temperature
  | humidity
  | battery
  deriving DecidableEq

/-- All of them, in their order. -/
def Part.all : List Part := [.stamp, .type, .channel, .code, .temperature, .humidity, .battery]

def Word (t : Text) : Prop := ∀ c ∈ t, c ≠ '=' ∧ isSpace c = false

instance (t : Text) : Decidable (Word t) := List.decidableBAll _ t

/-- The values of a block. -/
structure Block where
  date : Text
  time : Text
  zone : Text
  type : Text
  channel : Text
  code : Text
  /-- The temperature and its scale. -/
  number : Text
  scale : Char
  /-- The humidity. -/
  percent : Text
  battery : Text
  date_word : Word date
  time_word : Word time
  zone_word : Word zone
  code_word : Word code
  number_word : Word (number ++ [scale])
  number_last : number.getLast? ≠ some scale
  percent_word : Word percent
  percent_last : percent.getLast? ≠ some '%'

/-- The keys are of one width. -/
def fieldLine (key value : Text) : Text :=
  "  ".toList ++ key ++ List.replicate (18 - key.length) ' ' ++ "= ".toList ++ value ++ "\n".toList

namespace Block

def line (b : Block) : Part → Text
  | .stamp => b.date ++ ' ' :: b.time ++ ' ' :: b.zone ++ "\n".toList
  | .type => fieldLine "type".toList b.type
  | .channel => fieldLine "channel".toList b.channel
  | .code => fieldLine "rolling code".toList b.code
  | .temperature => fieldLine "temperature".toList (b.number ++ [b.scale])
  | .humidity => fieldLine "humidity".toList (b.percent ++ ['%'])
  | .battery => fieldLine "battery".toList b.battery

def timestamp (b : Block) : Text := b.date ++ ' ' :: b.time

def row (b : Block) : Row := ⟨b.code, b.number, b.percent, [b.scale], b.timestamp⟩

end Block

/-- A line that is no line of a block. -/
structure Noise where
  text : Text
  unread : '=' ∈ text → ∀ key ∈ (tokens text).head?,
    key ∉ ["temperature".toList, "humidity".toList, "rollingcode".toList, "battery".toList]

/-- What is in the log of a block, some of whose lines may be missing, with the noise in it and
before it. -/
structure Segment where
  block : Block
  lines : List (Part ⊕ Noise)
  ordered : (lines.filterMap Sum.getLeft?).Sublist Part.all

namespace Segment

def parts (s : Segment) : List Part := s.lines.filterMap Sum.getLeft?

def Complete (s : Segment) : Prop := s.parts = Part.all

end Segment

/-- A line of the log. -/
inductive Entry where
  | part (s : Segment) (p : Part)
  | noise (n : Noise)

def Entry.text : Entry → Text
  | .part s p => s.block.line p
  | .noise n => n.text

def Segment.entry (s : Segment) : Part ⊕ Noise → Entry
  | .inl p => .part s p
  | .inr n => .noise n

def Segment.entries (s : Segment) : List Entry := s.lines.map s.entry

def entries (log : List Segment) : List Entry := log.flatMap Segment.entries

/-! ### What the log says -/

/-- The first two words of a line without `=`. -/
def Noise.stamp (n : Noise) : Option Text :=
  if '=' ∈ n.text then none
  else
    match n.text.splitOn ' ' with
    | date :: time :: _ => some (date ++ ' ' :: time)
    | _ => none

def Entry.stamp : Entry → Option Text
  | .part s .stamp => some s.block.timestamp
  | .part _ _ => none
  | .noise n => n.stamp

/-- What a line of a block says about the block. -/
def Entry.value (p : Part) (value : Block → Text) : Entry → Option Text
  | .part s q => if q = p then some (value s.block) else none
  | .noise _ => none

/-- What was said last, in lines of which the last comes first. -/
def latest (value : Entry → Option Text) (past : List Entry) : Option Text :=
  past.findSome? value

def said (past : List Entry) : Temp where
  timestamp := latest Entry.stamp past
  scale := latest (Entry.value .temperature fun b => [b.scale]) past
  temperature := latest (Entry.value .temperature Block.number) past
  humidity := latest (Entry.value .humidity Block.percent) past
  id := latest (Entry.value .code Block.code) past

/-- The queries of the blocks that have ended, the last one first. -/
def asked (scale : Text) : List Entry → List Text
  | [] => []
  | .part _ .battery :: past =>
      (((said past).row scale).map Row.query).toList ++ asked scale past
  | _ :: past => asked scale past

/-- Nothing raises: a line without `=` has two words, and where a block ends all its fields have
been said before, in this block or another, and the server takes the query. -/
def Passed (server : Server) (scale : Text) : List Entry → Prop
  | [] => True
  | .part _ .battery :: past =>
      (∃ row, (said past).row scale = some row ∧
        server (asked scale past) row.query ≠ .raised) ∧ Passed server scale past
  | .part _ _ :: past => Passed server scale past
  | .noise n :: past => ('=' ∈ n.text ∨ ' ' ∈ n.text) ∧ Passed server scale past

/-- A block that ends behind these lines has a row. -/
def Written (server : Server) (scale : Text) (past : List Entry) : Prop :=
  Passed server scale past ∧ ∃ row, (said past).row scale = some row ∧
    server (asked scale past) row.query = .inserted

def rowOf : Outcome → Option Row
  | .inserted row => some row
  | _ => none

section
variable (server : Server) (scale : Text)

/-- The rows, with the lines that insert them. -/
def inserted (log : List Segment) : List (Entry × Row) :=
  ((entries log).zip (run server scale {} ((entries log).map Entry.text))).filterMap fun p =>
    (rowOf p.2).map (p.1, ·)

/-- The rows are those of some complete blocks, in their order, each inserted by its block. -/
def KeepsApart (log : List Segment) : Prop :=
  ∃ segments : List Segment, segments.Sublist log ∧ (∀ s ∈ segments, s.Complete) ∧
    inserted server scale log = segments.map fun s => (.part s .battery, s.block.row)

/-- The lines that the handler comes to, with what it has before each. -/
def visits : State → List Entry → List (State × Entry)
  | _, [] => []
  | st, e :: es =>
      (st, e) :: match step server scale st e.text with
        | (.raised, _) => []
        | (_, st) => visits st es

/-- The dictionary makes up a row, and the server inserts it. -/
def Writes (st : State) : Prop :=
  ∃ row, st.temp.row scale = some row ∧ server st.queries row.query = .inserted

/-- The block is complete and its timestamp and scale are those of the row. -/
structure Fits (st : State) (s : Segment) : Prop where
  complete : s.Complete
  timestamp : st.temp.timestamp = some s.block.timestamp
  scale : scale = [s.block.scale]

end

/-! ## The lines of a block -/

theorem rdropWhile_append_cons {p : Char → Bool} {a : Char} (ha : p a = false) (xs ys : Text) :
    (xs ++ a :: ys).rdropWhile p = xs ++ a :: ys.rdropWhile p := by
  induction ys using List.reverseRecOn with
  | nil => rw [List.rdropWhile_concat_neg _ _ _ (by simp [ha]), List.rdropWhile_nil]
  | append_singleton ys b ih =>
    rw [← List.cons_append, ← List.append_assoc]
    by_cases hb : p b = true
    · rw [List.rdropWhile_concat_pos _ _ _ hb, List.rdropWhile_concat_pos _ _ _ hb, ih]
    · rw [List.rdropWhile_concat_neg _ _ _ hb, List.rdropWhile_concat_neg _ _ _ hb,
        List.append_assoc, List.cons_append]

theorem Word.rdropWhile {t : Text} (h : Word t) : t.rdropWhile isSpace = t := by
  rw [List.rdropWhile_eq_self_iff]
  intro hne
  simp [(h _ (List.getLast_mem hne)).2]

theorem Word.splitOn {t : Text} (h : Word t) : t.splitOn '=' = [t] :=
  List.splitOn_eq_singleton fun hmem => (h '=' hmem).1 rfl

theorem Word.not_mem_blank {t : Text} (h : Word t) : ' ' ∉ t :=
  fun hmem => absurd (h ' ' hmem).2 (by decide)

/-- The line end goes, and a word stays as it is. -/
theorem Word.squeeze {t : Text} (h : Word t) : squeeze (t ++ "\n".toList) = t := by
  have hblanks : (t ++ "\n".toList).filter (· != ' ') = t ++ ['\n'] := by
    rw [List.filter_append]
    congr 1
    rw [List.filter_eq_self]
    intro c hc
    rw [bne_iff_ne]
    exact fun heq => h.not_mem_blank (heq ▸ hc)
  rw [Gpiots.squeeze, hblanks, List.rdropWhile_concat_pos _ _ _ (by decide), h.rdropWhile]

theorem tokens_field {key : Text} (hkey : '=' ∉ key) (value : Text) :
    tokens (fieldLine key value) =
      key.filter (· != ' ') :: (squeeze (value ++ "\n".toList)).splitOn '=' := by
  have hline : (fieldLine key value).filter (· != ' ') =
      key.filter (· != ' ') ++ '=' :: (value ++ "\n".toList).filter (· != ' ') := by
    simp [fieldLine]
  have hmem : '=' ∉ key.filter (· != ' ') := fun h => hkey (List.mem_filter.mp h).1
  rw [tokens, squeeze, hline, rdropWhile_append_cons (by decide),
    List.splitOn_append_cons_self_of_not_mem hmem]
  rfl

theorem tokens_word {key value : Text} (hkey : '=' ∉ key) (hvalue : Word value) :
    tokens (fieldLine key value) = [key.filter (· != ' '), value] := by
  rw [tokens_field hkey, hvalue.squeeze, hvalue.splitOn]

theorem tokens_key {key : Text} (hkey : '=' ∉ key) (value : Text) :
    ∃ v rest, tokens (fieldLine key value) = key.filter (· != ' ') :: v :: rest := by
  obtain ⟨v, rest, hrest⟩ := List.exists_cons_of_ne_nil
    (List.splitOn_ne_nil '=' (squeeze (value ++ "\n".toList)))
  exact ⟨v, rest, by rw [tokens_field hkey, hrest]⟩

theorem eq_mem_field (key value : Text) : '=' ∈ fieldLine key value := by
  simp [fieldLine]

variable {server : Server} {scale : Text}

/-- What a block's line leaves in the dictionary. -/
def Block.heard (b : Block) (temp : Temp) : Part → Temp
  | .stamp => { temp with timestamp := some b.timestamp }
  | .code => { temp with id := some b.code }
  | .temperature => { temp with scale := some [b.scale], temperature := some b.number }
  | .humidity => { temp with humidity := some b.percent }
  | .type | .channel | .battery => temp

theorem handle_stamp (scale : Text) (b : Block) (temp : Temp) :
    handle scale temp (b.line .stamp) = .next (b.heard temp .stamp) := by
  have hplain : '=' ∉ b.line .stamp := by
    have hdate : '=' ∉ b.date := fun h => (b.date_word _ h).1 rfl
    have htime : '=' ∉ b.time := fun h => (b.time_word _ h).1 rfl
    have hzone : '=' ∉ b.zone := fun h => (b.zone_word _ h).1 rfl
    simp [Block.line, hdate, htime, hzone]
  have hsplit : (b.line .stamp).splitOn ' ' =
      b.date :: b.time :: (b.zone ++ "\n".toList).splitOn ' ' := by
    simp only [Block.line, List.append_assoc, List.cons_append]
    rw [List.splitOn_append_cons_self_of_not_mem b.date_word.not_mem_blank,
      List.splitOn_append_cons_self_of_not_mem b.time_word.not_mem_blank]
  rw [handle, if_pos hplain, hsplit]
  rfl

/-- A line whose key is not read. -/
theorem handle_unread {line key v : Text} {rest : List Text} (heq : '=' ∈ line)
    (htokens : tokens line = key :: v :: rest)
    (hunread : key ∉
      ["temperature".toList, "humidity".toList, "rollingcode".toList, "battery".toList])
    (temp : Temp) : handle scale temp line = .next temp := by
  simp only [List.mem_cons, not_or] at hunread
  obtain ⟨htemperature, hhumidity, hcode, hbattery, -⟩ := hunread
  rw [handle, if_neg (not_not_intro heq), htokens]
  dsimp only
  rw [if_neg htemperature, if_neg hhumidity, if_neg hcode, if_neg hbattery]

theorem handle_field {key : Text} (hkey : '=' ∉ key)
    (hunread : key.filter (· != ' ') ∉
      ["temperature".toList, "humidity".toList, "rollingcode".toList, "battery".toList])
    (value : Text) (temp : Temp) : handle scale temp (fieldLine key value) = .next temp := by
  obtain ⟨v, rest, htokens⟩ := tokens_key hkey value
  exact handle_unread (eq_mem_field key value) htokens hunread temp

theorem rdropWhile_suffix {t : Text} {c : Char} (h : t.getLast? ≠ some c) :
    (t ++ [c]).rdropWhile (· == c) = t := by
  rw [List.rdropWhile_concat_pos _ _ _ (by simp), List.rdropWhile_eq_self_iff]
  intro hne heq
  exact h (by rw [List.getLast?_eq_some_getLast hne, beq_iff_eq.mp heq])

/-- A line of a block, but the last, leaves its value. -/
theorem handle_part (b : Block) (temp : Temp) {p : Part} (hp : p ≠ .battery) :
    handle scale temp (b.line p) = .next (b.heard temp p) := by
  cases p with
  | stamp => exact handle_stamp scale b temp
  | type => exact handle_field (by decide) (by decide) b.type temp
  | channel => exact handle_field (by decide) (by decide) b.channel temp
  | code =>
    rw [Block.line, handle, if_neg (not_not_intro (eq_mem_field _ _)),
      tokens_word (by decide) b.code_word]
    rfl
  | temperature =>
    rw [Block.line, handle, if_neg (not_not_intro (eq_mem_field _ _)),
      tokens_word (by decide) b.number_word]
    simp only [List.getLast?_concat, rdropWhile_suffix b.number_last]
    rfl
  | humidity =>
    have hword : Word (b.percent ++ ['%']) := by
      intro c hc
      rcases List.mem_append.mp hc with hc | hc
      · exact b.percent_word c hc
      · rw [List.mem_singleton.mp hc]
        decide
    rw [Block.line, handle, if_neg (not_not_intro (eq_mem_field _ _)),
      tokens_word (by decide) hword]
    dsimp only
    rw [rdropWhile_suffix b.percent_last]
    rfl
  | battery => exact absurd rfl hp

/-- The last one asks for the row. -/
theorem handle_battery (b : Block) (temp : Temp) :
    handle scale temp (b.line .battery) =
      match temp.row scale with
      | none => .raised
      | some row => .query row := by
  have hkey : '=' ∉ "battery".toList := by decide
  obtain ⟨v, rest, htokens⟩ := tokens_key hkey b.battery
  rw [Block.line, handle, if_neg (not_not_intro (eq_mem_field _ _)), htokens]
  rfl

theorem mem_squeeze {line : Text} (h : '=' ∈ line) : '=' ∈ squeeze line := by
  have hmem : '=' ∈ line.filter (· != ' ') := List.mem_filter.mpr ⟨h, by decide⟩
  obtain ⟨xs, ys, hsplit⟩ := List.append_of_mem hmem
  rw [squeeze, hsplit, rdropWhile_append_cons (by decide)]
  simp

theorem splitOn_of_mem {t : Text} {c : Char} (h : c ∈ t) :
    ∃ v w rest, t.splitOn c = v :: w :: rest := by
  obtain ⟨xs, ys, rfl, hxs⟩ := List.eq_append_cons_of_mem h
  obtain ⟨w, rest, hrest⟩ := List.exists_cons_of_ne_nil (List.splitOn_ne_nil c ys)
  exact ⟨xs, w, rest, by rw [List.splitOn_append_cons_self_of_not_mem hxs, hrest]⟩

theorem handle_noise_eq {n : Noise} (h : '=' ∈ n.text) (temp : Temp) :
    handle scale temp n.text = .next temp := by
  obtain ⟨key, v, rest, htokens⟩ := splitOn_of_mem (mem_squeeze h)
  have hunread := n.unread h
  rw [tokens, htokens] at hunread
  exact handle_unread h htokens (hunread key rfl) temp

theorem handle_noise_stamp {n : Noise} (h : '=' ∉ n.text) (hblank : ' ' ∈ n.text) (temp : Temp) :
    handle scale temp n.text = .next { temp with timestamp := n.stamp } := by
  obtain ⟨date, time, rest, hsplit⟩ := splitOn_of_mem hblank
  rw [handle, if_pos h, Noise.stamp, if_neg h, hsplit]

theorem handle_noise_word {n : Noise} (h : '=' ∉ n.text) (hblank : ' ' ∉ n.text) (temp : Temp) :
    handle scale temp n.text = .raised := by
  rw [handle, if_pos h, List.splitOn_eq_singleton hblank]

/-- Other lines change at most the timestamp. -/
theorem handle_noise (scale : Text) (n : Noise) (temp : Temp) :
    handle scale temp n.text = .raised ∨
      ∃ timestamp, handle scale temp n.text = .next { temp with timestamp } := by
  by_cases heq : '=' ∈ n.text
  · exact .inr ⟨temp.timestamp, handle_noise_eq heq temp⟩
  · by_cases hblank : ' ' ∈ n.text
    · exact .inr ⟨n.stamp, handle_noise_stamp heq hblank temp⟩
    · exact .inl (handle_noise_word heq hblank temp)

/-! ## The lines that the handler comes to -/

theorem step_temp (st : State) (line : Text) :
    (step server scale st line).2.temp =
      match handle scale st.temp line with
      | .next temp => temp
      | _ => st.temp := by
  unfold step
  cases handle scale st.temp line with
  | raised => rfl
  | next temp => rfl
  | query row =>
    dsimp only
    cases server st.queries row.query <;> rfl

/-- Only the last line of a block inserts a row. -/
theorem step_inserted_iff (st : State) (e : Entry) (row : Row) :
    (step server scale st e.text).1 = .inserted row ↔
      (∃ s, e = .part s .battery) ∧ st.temp.row scale = some row ∧
        server st.queries row.query = .inserted := by
  cases e with
  | noise n =>
    have hnot : ¬ ∃ s, Entry.noise n = .part s .battery := fun ⟨s, hs⟩ => Entry.noConfusion hs
    refine iff_of_false ?_ fun h => hnot h.1
    rcases handle_noise scale n st.temp with h | ⟨timestamp, h⟩
    all_goals simp [step, Entry.text, h]
  | part s p =>
    by_cases hp : p = .battery
    · subst hp
      rw [and_iff_right ⟨s, rfl⟩, Entry.text, step, handle_battery]
      cases hrow : st.temp.row scale with
      | none => simp
      | some r =>
        dsimp only
        constructor
        · intro h
          cases hanswer : server st.queries r.query with
          | inserted =>
            rw [hanswer] at h
            obtain rfl := Outcome.inserted.inj h
            exact ⟨rfl, hanswer⟩
          | refused => exact absurd (hanswer ▸ h) (by simp)
          | raised => exact absurd (hanswer ▸ h) (by simp)
        · rintro ⟨hr, hanswer⟩
          obtain rfl := Option.some.inj hr
          rw [hanswer]
    · have hnot : ¬ ∃ k, Entry.part s p = .part k .battery :=
        fun ⟨k, hk⟩ => hp (Entry.part.inj hk).2
      refine iff_of_false ?_ fun h => hnot h.1
      simp [step, Entry.text, handle_part s.block st.temp hp]

theorem run_cons (st : State) (line : Text) (lines : List Text) :
    run server scale st (line :: lines) =
      (step server scale st line).1 ::
        if (step server scale st line).1 = .raised then []
        else run server scale (step server scale st line).2 lines := by
  rw [run]
  obtain ⟨outcome, st'⟩ := step server scale st line
  cases outcome <;> rfl

theorem visits_cons (st : State) (e : Entry) (es : List Entry) :
    visits server scale st (e :: es) =
      (st, e) ::
        if (step server scale st e.text).1 = .raised then []
        else visits server scale (step server scale st e.text).2 es := by
  rw [visits]
  obtain ⟨outcome, st'⟩ := step server scale st e.text
  cases outcome <;> rfl

/-- The outcomes are those of the lines come to. -/
theorem zip_run (st : State) (es : List Entry) :
    es.zip (run server scale st (es.map Entry.text)) =
      (visits server scale st es).map fun v => (v.2, (step server scale v.1 v.2.text).1) := by
  induction es generalizing st with
  | nil => rfl
  | cons e es ih =>
    rw [List.map_cons, run_cons, visits_cons, List.map_cons, List.zip_cons_cons]
    split
    · rw [List.zip_nil_right, List.map_nil]
    · rw [ih]

theorem mem_inserted_iff (log : List Segment) (e : Entry) (row : Row) :
    (e, row) ∈ inserted server scale log ↔
      ∃ st, (st, e) ∈ visits server scale {} (entries log) ∧
        (step server scale st e.text).1 = .inserted row := by
  rw [inserted, zip_run, List.filterMap_map, List.mem_filterMap]
  constructor
  · rintro ⟨⟨st, k⟩, hvisit, h⟩
    obtain ⟨r, hr, heq⟩ := Option.map_eq_some_iff.mp h
    obtain ⟨rfl, rfl⟩ := Prod.mk.inj heq
    refine ⟨st, hvisit, ?_⟩
    dsimp only at hr ⊢
    cases hout : (step server scale st k.text).1 with
    | inserted r' =>
      rw [hout] at hr
      rw [Option.some.inj hr]
    | passed => exact absurd (hout ▸ hr) (by simp [rowOf])
    | raised => exact absurd (hout ▸ hr) (by simp [rowOf])
  · rintro ⟨st, hvisit, h⟩
    refine ⟨(st, e), hvisit, ?_⟩
    simp [h, rowOf]

theorem mem_visits_cons {st : State} {e : Entry} {es : List Entry} {v : State × Entry}
    (h : v ∈ visits server scale st (e :: es)) :
    v = (st, e) ∨ v ∈ visits server scale (step server scale st e.text).2 es := by
  rw [visits_cons, List.mem_cons] at h
  refine h.imp_right fun hrest => ?_
  split at hrest
  · exact absurd hrest List.not_mem_nil
  · exact hrest

theorem mem_visits_append {st : State} {xs ys : List Entry} {v : State × Entry}
    (h : v ∈ visits server scale st (xs ++ ys)) :
    v ∈ visits server scale st xs ∨ ∃ st', v ∈ visits server scale st' ys := by
  induction xs generalizing st with
  | nil => exact .inr ⟨st, h⟩
  | cons x xs ih =>
    rw [List.cons_append, visits_cons, List.mem_cons] at h
    rw [visits_cons, List.mem_cons]
    rcases h with rfl | hrest
    · exact .inl (.inl rfl)
    · split at hrest
      · exact absurd hrest List.not_mem_nil
      · next hgoes =>
        rw [if_neg hgoes]
        exact (ih hrest).imp_left .inr

/-! ### The state at a line -/

/-- What the handler has behind these lines. -/
def stateOf (scale : Text) (past : List Entry) : State where
  temp := said past
  queries := asked scale past

theorem heard_said (s : Segment) (p : Part) (past : List Entry) :
    s.block.heard (said past) p = said (.part s p :: past) := by
  cases p <;> rfl

theorem said_noise {n : Noise} {past : List Entry} {timestamp : Option Text}
    (h : latest Entry.stamp (.noise n :: past) = timestamp) :
    said (.noise n :: past) = { said past with timestamp } := by
  rw [← h]
  rfl

theorem stamp_of_blank {n : Noise} (h : '=' ∉ n.text) (hblank : ' ' ∈ n.text) :
    ∃ t, n.stamp = some t := by
  obtain ⟨date, time, rest, hsplit⟩ := splitOn_of_mem hblank
  exact ⟨date ++ ' ' :: time, by rw [Noise.stamp, if_neg h, hsplit]⟩

theorem passed_of_cons {e : Entry} {past : List Entry}
    (h : Passed server scale (e :: past)) : Passed server scale past := by
  cases e with
  | noise n => exact h.2
  | part s p =>
    cases p with
    | battery => exact h.2
    | _ => exact h

theorem passed_of_append {xs past : List Entry} (h : Passed server scale (xs ++ past)) :
    Passed server scale past := by
  induction xs with
  | nil => exact h
  | cons x xs ih => exact ih (passed_of_cons h)

/-- A line that does not raise, and what the handler has behind it. -/
theorem step_next {past : List Entry} {e : Entry} {temp : Temp}
    (hhandle : handle scale (said past) e.text = .next temp) (hsaid : temp = said (e :: past))
    (hasked : asked scale (e :: past) = asked scale past) :
    step server scale (stateOf scale past) e.text = (.passed, stateOf scale (e :: past)) := by
  rw [step, stateOf, hhandle, stateOf, hasked, hsaid]

theorem step_noise {past : List Entry} {n : Noise} (h : '=' ∈ n.text ∨ ' ' ∈ n.text) :
    step server scale (stateOf scale past) n.text =
      (.passed, stateOf scale (.noise n :: past)) := by
  by_cases heq : '=' ∈ n.text
  · refine step_next (e := .noise n) (handle_noise_eq heq (said past)) ?_ rfl
    refine (said_noise ?_).symm
    rw [latest, List.findSome?_cons, Entry.stamp, Noise.stamp, if_pos heq]
    rfl
  · have hblank := h.resolve_left heq
    obtain ⟨t, ht⟩ := stamp_of_blank heq hblank
    refine step_next (e := .noise n) (handle_noise_stamp heq hblank (said past)) ?_ rfl
    refine (said_noise ?_).symm
    rw [latest, List.findSome?_cons, Entry.stamp, ht]

theorem step_part {past : List Entry} {s : Segment} {p : Part} (hp : p ≠ .battery) :
    step server scale (stateOf scale past) (s.block.line p) =
      (.passed, stateOf scale (.part s p :: past)) := by
  refine step_next (e := .part s p) (handle_part s.block (said past) hp)
    (heard_said s p past) ?_
  cases p with
  | battery => exact absurd rfl hp
  | _ => rfl

/-- Where a block ends the query is for what has been said. -/
theorem step_battery {past : List Entry} {s : Segment} {row : Row}
    (hrow : (said past).row scale = some row) :
    step server scale (stateOf scale past) (s.block.line .battery) =
      (match server (asked scale past) row.query with
        | .inserted => .inserted row
        | .refused => .passed
        | .raised => .raised, stateOf scale (.part s .battery :: past)) := by
  have hasked : asked scale (.part s .battery :: past) = row.query :: asked scale past := by
    rw [asked, hrow]
    rfl
  have hstate : stateOf scale (.part s .battery :: past) =
      { stateOf scale past with queries := row.query :: asked scale past } := by
    rw [stateOf, hasked, ← heard_said]
    rfl
  rw [hstate, step, handle_battery, stateOf, hrow]
  dsimp only
  cases server (asked scale past) row.query <;> rfl

theorem step_word {past : List Entry} {n : Noise} (h : ¬ ('=' ∈ n.text ∨ ' ' ∈ n.text)) :
    step server scale (stateOf scale past) n.text = (.raised, stateOf scale past) := by
  obtain ⟨heq, hblank⟩ := not_or.mp h
  rw [step, handle_noise_word heq hblank]

/-- A field has never been said. -/
theorem step_battery_none {past : List Entry} {s : Segment} (hrow : (said past).row scale = none) :
    step server scale (stateOf scale past) (s.block.line .battery) =
      (.raised, stateOf scale past) := by
  rw [step, handle_battery, stateOf, hrow]

/-- One line: whether it raises, and what the handler has behind it. -/
theorem step_stateOf {past : List Entry} (hpast : Passed server scale past) (e : Entry) :
    ((step server scale (stateOf scale past) e.text).1 ≠ .raised ↔
      Passed server scale (e :: past)) ∧
    ((step server scale (stateOf scale past) e.text).1 ≠ .raised →
      (step server scale (stateOf scale past) e.text).2 = stateOf scale (e :: past)) := by
  cases e with
  | noise n =>
    by_cases h : '=' ∈ n.text ∨ ' ' ∈ n.text
    · have hstep : step server scale (stateOf scale past) (Entry.noise n).text =
          (.passed, stateOf scale (.noise n :: past)) := step_noise h
      rw [hstep]
      exact ⟨iff_of_true (by simp) ⟨h, hpast⟩, fun _ => rfl⟩
    · have hstep : step server scale (stateOf scale past) (Entry.noise n).text =
          (.raised, stateOf scale past) := step_word h
      rw [hstep]
      exact ⟨iff_of_false (by simp) fun hp => h hp.1, fun hr => absurd rfl hr⟩
  | part s p =>
    by_cases hp : p = .battery
    · subst hp
      cases hrow : (said past).row scale with
      | none =>
        rw [Entry.text, step_battery_none hrow]
        refine ⟨iff_of_false (by simp) fun h => ?_, fun hr => absurd rfl hr⟩
        obtain ⟨row, hsome, -⟩ := h.1
        exact absurd (hrow.symm.trans hsome) (by simp)
      | some row =>
        rw [Entry.text, step_battery hrow]
        refine ⟨?_, fun _ => rfl⟩
        rw [Passed, hrow]
        dsimp only
        cases hserver : server (asked scale past) row.query <;> simp [hserver, hpast]
    · have hstep : step server scale (stateOf scale past) (Entry.part s p).text =
          (.passed, stateOf scale (.part s p :: past)) := step_part hp
      rw [hstep]
      refine ⟨iff_of_true (by simp) ?_, fun _ => rfl⟩
      cases p with
      | battery => exact absurd rfl hp
      | _ => exact hpast

/-- The lines come to are those behind which nothing has raised. -/
theorem mem_visits_iff {past : List Entry} (hpast : Passed server scale past) {es : List Entry}
    {st : State} {e : Entry} :
    (st, e) ∈ visits server scale (stateOf scale past) es ↔
      ∃ before after, es = before ++ e :: after ∧
        Passed server scale (before.reverse ++ past) ∧
          st = stateOf scale (before.reverse ++ past) := by
  induction es generalizing past with
  | nil => simp [visits]
  | cons x es ih =>
    obtain ⟨hgoes, hnext⟩ := step_stateOf hpast x
    rw [visits_cons, List.mem_cons]
    constructor
    · intro h
      rcases h with heq | hrest
      · obtain ⟨rfl, rfl⟩ := Prod.mk.inj heq
        exact ⟨[], es, rfl, hpast, rfl⟩
      · split at hrest
        · exact absurd hrest List.not_mem_nil
        · next hraised =>
          rw [hnext hraised, ih (hgoes.mp hraised)] at hrest
          obtain ⟨before, after, rfl, hpassed, hst⟩ := hrest
          refine ⟨x :: before, after, rfl, ?_, ?_⟩
          · rwa [List.reverse_cons, List.append_assoc]
          · rwa [List.reverse_cons, List.append_assoc]
    · intro h
      obtain ⟨before, after, heq, hpassed, hst⟩ := h
      cases before with
      | nil =>
        obtain ⟨rfl, -⟩ := List.cons.inj heq
        exact Or.inl (congrArg (·, x) hst)
      | cons y before =>
        obtain ⟨rfl, rfl⟩ := List.cons.inj heq
        rw [List.reverse_cons, List.append_assoc, List.singleton_append] at hpassed hst
        have hx : Passed server scale (x :: past) := passed_of_append hpassed
        have hraised := hgoes.mpr hx
        rw [if_neg hraised, hnext hraised, ih hx]
        exact Or.inr ⟨before, after, rfl, hpassed, hst⟩

/-- The lines of a log that are come to, and the state there. -/
theorem mem_visits_log {es : List Entry} {st : State} {e : Entry} :
    (st, e) ∈ visits server scale {} es ↔
      ∃ before after, es = before ++ e :: after ∧ Passed server scale before.reverse ∧
        st = stateOf scale before.reverse := by
  have hnil : Passed server scale [] := trivial
  have hvisits := @mem_visits_iff server scale [] hnil es st e
  simp only [List.append_nil] at hvisits
  exact hvisits

theorem mem_of_visits {st : State} {es : List Entry} {v : State × Entry}
    (h : v ∈ visits server scale st es) : v.2 ∈ es := by
  induction es generalizing st with
  | nil => exact absurd h List.not_mem_nil
  | cons e es ih =>
    rcases mem_visits_cons h with rfl | hrest
    · exact List.mem_cons_self
    · exact List.mem_cons_of_mem e (ih hrest)

theorem Segment.eq_of_mem_entries {s k : Segment} {p : Part} (h : .part s p ∈ k.entries) :
    s = k := by
  obtain ⟨x, -, hx⟩ := List.mem_map.mp h
  cases x with
  | inl q => exact (Entry.part.inj hx).1.symm
  | inr n => exact Entry.noConfusion hx

/-- The lines of a segment are come to from some state. -/
theorem mem_visits_entries {log : List Segment} {st st' : State} {s : Segment} {p : Part}
    (h : (st', .part s p) ∈ visits server scale st (entries log)) :
    ∃ st₁, (st', .part s p) ∈ visits server scale st₁ s.entries := by
  induction log generalizing st with
  | nil => exact absurd h List.not_mem_nil
  | cons k log ih =>
    rw [entries, List.flatMap_cons] at h
    rcases mem_visits_append h with hin | ⟨st₂, hin⟩
    · obtain rfl := Segment.eq_of_mem_entries (mem_of_visits hin)
      exact ⟨st, hin⟩
    · exact ih hin

/-! ## The fields of a block -/

/-- The dictionary has the values of the lines that have come. -/
structure Known (b : Block) (temp : Temp) (done : List Part) : Prop where
  code : .code ∈ done → temp.id = some b.code
  temperature : .temperature ∈ done → temp.temperature = some b.number
  humidity : .humidity ∈ done → temp.humidity = some b.percent

theorem Known.nil (b : Block) (temp : Temp) : Known b temp [] :=
  ⟨fun h => absurd h List.not_mem_nil, fun h => absurd h List.not_mem_nil,
    fun h => absurd h List.not_mem_nil⟩

theorem Known.heard {b : Block} {temp : Temp} {done : List Part} (h : Known b temp done)
    (p : Part) : Known b (b.heard temp p) (done ++ [p]) := by
  constructor
  all_goals
    intro hmem
    rw [List.mem_append, List.mem_singleton] at hmem
  · cases p with
    | code => rfl
    | _ => exact h.code (hmem.resolve_right nofun)
  · cases p with
    | temperature => rfl
    | _ => exact h.temperature (hmem.resolve_right nofun)
  · cases p with
    | humidity => rfl
    | _ => exact h.humidity (hmem.resolve_right nofun)

/-- One line of a segment. -/
theorem Known.step {s : Segment} {st : State} {done : List Part} (h : Known s.block st.temp done)
    (x : Part ⊕ Noise) :
    Known s.block (step server scale st (s.entry x).text).2.temp
      (done ++ [x].filterMap Sum.getLeft?) := by
  rw [step_temp]
  cases x with
  | inl p =>
    have hheard : (match handle scale st.temp (s.block.line p) with
        | .next temp => temp
        | _ => st.temp) = s.block.heard st.temp p := by
      by_cases hp : p = .battery
      · subst hp
        rw [handle_battery]
        cases st.temp.row scale <;> rfl
      · rw [handle_part s.block st.temp hp]
    exact hheard ▸ h.heard p
  | inr n =>
    have hnone : [Sum.inr n].filterMap Sum.getLeft? = ([] : List Part) := rfl
    rw [hnone, List.append_nil]
    rcases handle_noise scale n st.temp with hraised | ⟨timestamp, hnext⟩
    · rw [Segment.entry, Entry.text, hraised]
      exact h
    · rw [Segment.entry, Entry.text, hnext]
      exact ⟨h.code, h.temperature, h.humidity⟩

/-- When the handler comes to a line of a segment, it has the values of those before it. -/
theorem Known.visits {s : Segment} {p : Part} {lines : List (Part ⊕ Noise)} {st st' : State}
    {done : List Part} (h : Known s.block st.temp done)
    (hvisit : (st', .part s p) ∈ visits server scale st (lines.map s.entry)) :
    ∃ before after, lines.filterMap Sum.getLeft? = before ++ p :: after ∧
      Known s.block st'.temp (done ++ before) := by
  induction lines generalizing st done with
  | nil => exact absurd hvisit List.not_mem_nil
  | cons x lines ih =>
    have hcons : (x :: lines).filterMap Sum.getLeft? =
        [x].filterMap Sum.getLeft? ++ lines.filterMap Sum.getLeft? := by
      rw [← List.filterMap_append, List.singleton_append]
    rcases mem_visits_cons hvisit with heq | hrest
    · obtain ⟨rfl, hx⟩ := Prod.mk.inj heq
      cases x with
      | inl q =>
        obtain rfl := (Entry.part.inj hx).2
        exact ⟨[], _, hcons, by rwa [List.append_nil]⟩
      | inr n => exact Entry.noConfusion hx
    · obtain ⟨before, after, hlines, hknown⟩ := ih (h.step x) hrest
      refine ⟨[x].filterMap Sum.getLeft? ++ before, after, ?_, ?_⟩
      · rw [hcons, hlines, List.append_assoc]
      · rwa [← List.append_assoc]

/-- Nothing comes behind the last line. -/
theorem before_battery {before after : List Part} (h : Part.all = before ++ .battery :: after) :
    before = Part.all.dropLast := by
  have hnodup : Part.all.Nodup := by decide
  have hafter : after = [] := by
    rcases List.eq_nil_or_concat after with hnil | ⟨init, last, rfl⟩
    · exact hnil
    · have hlast : last = .battery := by
        have hget := congrArg List.getLast? h
        rw [List.concat_eq_append, ← List.cons_append, ← List.append_assoc,
          List.getLast?_concat] at hget
        exact (Option.some.inj hget).symm
      rw [h, hlast] at hnodup
      exact absurd (List.nodup_cons.mp (List.nodup_append.mp hnodup).2.1).1 (by simp)
  rw [h, hafter, List.dropLast_concat]

/-- At the last line of a complete block, the dictionary has the block's own values. -/
theorem known_complete {log : List Segment} {st st' : State} {s : Segment}
    (hvisit : (st', .part s .battery) ∈ visits server scale st (entries log))
    (hcomplete : s.Complete) : Known s.block st'.temp Part.all.dropLast := by
  obtain ⟨st₁, hin⟩ := mem_visits_entries hvisit
  obtain ⟨before, after, hlines, hknown⟩ := (Known.nil s.block st₁.temp).visits hin
  rw [List.nil_append, before_battery (hcomplete.symm.trans hlines)] at hknown
  exact hknown

theorem row_eq_iff {st : State} {s : Segment} {row : Row}
    (hknown : Known s.block st.temp Part.all.dropLast) (hrow : st.temp.row scale = some row) :
    row = s.block.row ↔
      st.temp.timestamp = some s.block.timestamp ∧ scale = [s.block.scale] := by
  rw [Temp.row, hknown.code (by decide), hknown.temperature (by decide),
    hknown.humidity (by decide)] at hrow
  cases htime : st.temp.timestamp with
  | none => exact absurd (htime ▸ hrow) (by simp)
  | some timestamp =>
    rw [htime] at hrow
    obtain rfl := Option.some.inj hrow
    simp only [Block.row, Row.mk.injEq, true_and, Option.some.injEq]
    exact and_comm

/-! ## The rows -/

/-- The segment whose block this line ends. -/
def Entry.closes : Entry → Option Segment
  | .part s .battery => some s
  | _ => none

theorem Segment.closes_sublist (s : Segment) : (s.entries.filterMap Entry.closes).Sublist [s] := by
  have hparts : s.entries.filterMap Entry.closes =
      s.parts.filterMap fun p => (Entry.part s p).closes := by
    rw [entries, parts, List.filterMap_map, List.filterMap_filterMap]
    congr 1
    funext x
    cases x <;> rfl
  rw [hparts]
  exact s.ordered.filterMap _

/-- Each block is ended once. -/
theorem closes_sublist (log : List Segment) :
    ((entries log).filterMap Entry.closes).Sublist log := by
  rw [entries, List.filterMap_flatMap]
  have hall := List.Sublist.flatMap_right log fun s _ => Segment.closes_sublist s
  rwa [List.flatMap_singleton'] at hall

theorem zip_closes_sublist (es : List Entry) (outcomes : List Outcome) :
    (((es.zip outcomes).filterMap fun p => (rowOf p.2).map (p.1, ·)).filterMap
      fun p => p.1.closes).Sublist (es.filterMap Entry.closes) := by
  induction es generalizing outcomes with
  | nil => exact List.Sublist.refl _
  | cons e es ih =>
    cases outcomes with
    | nil => exact List.nil_sublist _
    | cons o outcomes =>
      rw [List.zip_cons_cons, List.filterMap_cons, List.filterMap_cons (f := Entry.closes)]
      cases rowOf o with
      | none =>
        cases e.closes with
        | none => exact ih outcomes
        | some s => exact (ih outcomes).cons s
      | some row =>
        rw [Option.map_some, List.filterMap_cons]
        cases e.closes with
        | none => exact ih outcomes
        | some s => exact (ih outcomes).cons_cons s

theorem inserted_closes_sublist (log : List Segment) :
    ((inserted server scale log).filterMap fun p => p.1.closes).Sublist log :=
  (zip_closes_sublist _ _).trans (closes_sublist log)

/-- The rows are kept apart exactly if, whenever a block's last line writes a row, the block is
complete and the timestamp and the scale are its own. -/
theorem keepsApart_visits_iff (log : List Segment) :
    KeepsApart server scale log ↔
      ∀ st s, (st, .part s .battery) ∈ visits server scale {} (entries log) →
        Writes server scale st → Fits scale st s := by
  constructor
  · rintro ⟨segments, -, hcomplete, hrows⟩ st s hvisit ⟨row, hrow, hanswer⟩
    have hmem : (Entry.part s .battery, row) ∈ inserted server scale log :=
      (mem_inserted_iff log _ row).mpr
        ⟨st, hvisit, (step_inserted_iff st _ row).mpr ⟨⟨s, rfl⟩, hrow, hanswer⟩⟩
    rw [hrows] at hmem
    obtain ⟨k, hk, heq⟩ := List.mem_map.mp hmem
    obtain ⟨hentry, hkrow⟩ := Prod.mk.inj heq
    obtain rfl := (Entry.part.inj hentry).1
    have hown := (row_eq_iff (known_complete hvisit (hcomplete k hk)) hrow).mp hkrow.symm
    exact ⟨hcomplete k hk, hown.1, hown.2⟩
  · intro h
    have hown : ∀ x ∈ inserted server scale log, ∃ s : Segment, s.Complete ∧
        x = (.part s .battery, s.block.row) := by
      rintro ⟨e, row⟩ hmem
      obtain ⟨st, hvisit, hout⟩ := (mem_inserted_iff log e row).mp hmem
      obtain ⟨⟨s, rfl⟩, hrow, hanswer⟩ := (step_inserted_iff st e row).mp hout
      have hfits := h st s hvisit ⟨row, hrow, hanswer⟩
      have hrowEq := (row_eq_iff (known_complete hvisit hfits.complete) hrow).mpr
        ⟨hfits.timestamp, hfits.scale⟩
      exact ⟨s, hfits.complete, by rw [hrowEq]⟩
    refine ⟨(inserted server scale log).filterMap fun p => p.1.closes,
      inserted_closes_sublist log, ?_, ?_⟩
    · intro s hs
      obtain ⟨x, hx, hcloses⟩ := List.mem_filterMap.mp hs
      obtain ⟨k, hk, rfl⟩ := hown x hx
      exact Option.some.inj hcloses ▸ hk
    · have hself : (inserted server scale log).filterMap some = inserted server scale log :=
        List.filterMap_some
      rw [List.map_filterMap]
      refine hself.symm.trans (List.filterMap_congr fun x hx => ?_)
      obtain ⟨k, -, rfl⟩ := hown x hx
      rfl

/-- Behind the timestamp, the other lines of a block leave it. -/
theorem timestamp_visits {s : Segment} {parts : List Part} {st st' : State} {e : Entry}
    (hstamp : .stamp ∉ parts) (htime : st.temp.timestamp = some s.block.timestamp)
    (hvisit : (st', e) ∈ visits server scale st (parts.map (Entry.part s))) :
    st'.temp.timestamp = some s.block.timestamp := by
  induction parts generalizing st with
  | nil => exact absurd hvisit List.not_mem_nil
  | cons p parts ih =>
    rw [List.mem_cons, not_or] at hstamp
    rcases mem_visits_cons hvisit with heq | hrest
    · rw [(Prod.mk.inj heq).1, htime]
    · refine ih hstamp.2 ?_ hrest
      rw [step_temp, Entry.text]
      by_cases hp : p = .battery
      · subst hp
        rw [handle_battery]
        cases st.temp.row scale <;> exact htime
      · rw [handle_part s.block st.temp hp]
        cases p with
        | stamp => exact absurd rfl hstamp.1
        | _ => exact htime

/-- A complete block in the options' scale, with noise only before it. -/
structure Undisturbed (scale : Text) (s : Segment) : Prop where
  lines : ∃ noise : List Noise, s.lines = noise.map Sum.inr ++ Part.all.map Sum.inl
  scale : scale = [s.block.scale]

theorem keepsApart_undisturbed {log : List Segment} (h : ∀ s ∈ log, Undisturbed scale s) :
    KeepsApart server scale log := by
  rw [keepsApart_visits_iff]
  intro st s hvisit hwrites
  have hmem : s ∈ log := by
    obtain ⟨k, hk, hentry⟩ := List.mem_flatMap.mp (mem_of_visits hvisit)
    exact Segment.eq_of_mem_entries hentry ▸ hk
  obtain ⟨⟨noise, hlines⟩, hscale⟩ := h s hmem
  obtain ⟨st₁, hin⟩ := mem_visits_entries hvisit
  refine ⟨?_, ?_, hscale⟩
  · rw [Segment.Complete, Segment.parts, hlines, List.filterMap_append]
    simp [List.filterMap_map, Function.comp_def]
  · rw [Segment.entries, hlines, List.map_append, List.map_map, List.map_map] at hin
    rcases mem_visits_append hin with hnoise | ⟨st₂, hparts⟩
    · obtain ⟨n, -, hn⟩ := List.mem_map.mp (mem_of_visits hnoise)
      exact Entry.noConfusion hn
    · rw [Part.all, List.map_cons] at hparts
      rcases mem_visits_cons hparts with heq | hrest
      · exact absurd (Entry.part.inj (Prod.mk.inj heq).2).2 (by decide)
      · refine timestamp_visits (by decide) ?_ hrest
        rw [step_temp]
        have hstamp := handle_stamp scale s.block st₂.temp
        exact congrArg (fun effect => (match effect with
          | .next temp => temp
          | _ => st₂.temp).timestamp) hstamp

/-- A row is its block's own exactly if no line of the block is missing, the last line without
`=` in front of its end has the date and the time of the block, and the scale is the options'.
So it is where noise stands only between complete blocks. -/
theorem keepsApart_iff (log : List Segment) :
    (KeepsApart server scale log ↔
      ∀ before s after, entries log = before ++ .part s .battery :: after →
        Written server scale before.reverse →
          s.Complete ∧ latest Entry.stamp before.reverse = some s.block.timestamp ∧
            scale = [s.block.scale]) ∧
    ((∀ s ∈ log, Undisturbed scale s) → KeepsApart server scale log) := by
  refine ⟨?_, keepsApart_undisturbed⟩
  rw [keepsApart_visits_iff]
  constructor
  · intro h before s after hlog hwritten
    have hfits := h (stateOf scale before.reverse) s
      (mem_visits_log.mpr ⟨before, after, hlog, hwritten.1, rfl⟩) hwritten.2
    exact ⟨hfits.complete, hfits.timestamp, hfits.scale⟩
  · intro h st s hvisit hwrites
    obtain ⟨before, after, hlog, hpassed, rfl⟩ := mem_visits_log.mp hvisit
    obtain ⟨hcomplete, htimestamp, hscale⟩ := h before s after hlog ⟨hpassed, hwrites⟩
    exact ⟨hcomplete, htimestamp, hscale⟩

def morningBlock : Block where
  date := "2019-02-25".toList
  time := "09:24:55".toList
  zone := "MST".toList
  type := "AcuRite 00592TXR".toList
  channel := ['B']
  code := "75".toList
  number := "43.1".toList
  scale := 'F'
  percent := "32".toList
  battery := "OK".toList
  date_word := by decide
  time_word := by decide
  zone_word := by decide
  code_word := by decide
  number_word := by decide
  number_last := by decide
  percent_word := by decide
  percent_last := by decide

/-- Another sensor, in the afternoon. -/
def laterBlock : Block :=
  { morningBlock with
    time := "15:30:10".toList
    code := "76".toList
    number := "51.8".toList
    percent := "47".toList
    time_word := by decide
    code_word := by decide
    number_word := by decide
    number_last := by decide
    percent_word := by decide
    percent_last := by decide }

def unchanged : Noise where
  text := "Data is not changed.\n".toList
  unread := by decide

def whole : Segment := ⟨morningBlock, Part.all.map .inl, by decide⟩

/-- Behind a line that says so, without the humidity. -/
def torn : Segment where
  block := laterBlock
  lines := .inr unchanged ::
    [Part.stamp, .type, .channel, .code, .temperature, .battery].map .inl
  ordered := by decide

/-- The torn block's row has the humidity of the one before. -/
theorem humidity_mixed :
    (inserted (fun _ _ => .inserted) ['F'] [whole, torn]).map Prod.snd =
        [morningBlock.row, { laterBlock.row with humidity := morningBlock.row.humidity }] ∧
      ¬ KeepsApart (fun _ _ => .inserted) ['F'] [whole, torn] := by
  have hrows : (inserted (fun _ _ => .inserted) ['F'] [whole, torn]).map Prod.snd =
      [morningBlock.row, { laterBlock.row with humidity := morningBlock.row.humidity }] := by
    decide +kernel
  refine ⟨hrows, ?_⟩
  rintro ⟨segments, hsub, hcomplete, hinserted⟩
  have hlength := congrArg List.length hrows
  rw [hinserted, List.length_map, List.length_map] at hlength
  have hboth := hsub.eq_of_length hlength
  have htorn : torn.Complete := hcomplete torn (by rw [hboth]; exact .tail _ (.head _))
  exact absurd htorn (by unfold Segment.Complete; decide)

end PowerGuru.Python.Gpiots
