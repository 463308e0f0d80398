import PowerGuru.Common
import PowerGuru.Lib.Words

/-!
# `RCinitFile`

A configuration file is a list of lines, but `parse_file` reads words: one for the action
and, unless that is `#`, two more for the variable and its value, wherever the lines end.
-/
namespace PowerGuru.Host.Rc

open Lib.Bytes Lib.Strtol Lib.Words Common

/-! ## The object -/

structure RCinitFile where
  dbhost : List Byte
  dbuser : List Byte
  dbpasswd : List Byte
  dbname : List Byte
  devmode : List Byte
  device : List Byte
  deriving DecidableEq, Repr

/-- The six variables. -/
inductive Variable where
  | dbhost
  | dbuser
  | dbpasswd
  | dbname
  | devmode
  | device
  deriving DecidableEq, Repr

def Variable.name : Variable → List Byte
  | .dbhost => bytes "dbhost"
  | .dbuser => bytes "dbuser"
  | .dbpasswd => bytes "dbpasswd"
  | .dbname => bytes "dbname"
  | .devmode => bytes "devmode"
  | .device => bytes "device"

def RCinitFile.get (rc : RCinitFile) : Variable → List Byte
  | .dbhost => rc.dbhost
  | .dbuser => rc.dbuser
  | .dbpasswd => rc.dbpasswd
  | .dbname => rc.dbname
  | .devmode => rc.devmode
  | .device => rc.device

/-- The branches behind `action == "set"`. -/
def RCinitFile.set (rc : RCinitFile) (var value : List Byte) : RCinitFile :=
  let rc := if var = bytes "dbhost" then { rc with dbhost := value } else rc
  let rc := if var = bytes "dbuser" then { rc with dbuser := value } else rc
  let rc := if var = bytes "dbpasswd" then { rc with dbpasswd := value } else rc
  let rc := if var = bytes "dbname" then { rc with dbname := value } else rc
  let rc := if var = bytes "devmode" then { rc with devmode := value } else rc
  if var = bytes "device" then { rc with device := value } else rc

/-- The strings that the loop reads into. -/
structure Tokens where
  action : List Byte
  var : List Byte
  value : List Byte
  deriving DecidableEq, Repr

def RCinitFile.apply (rc : RCinitFile) (t : Tokens) : RCinitFile :=
  if t.action = bytes "set" then rc.set t.var t.value else rc

def hash : List Byte := bytes "#"

/-- The loop; a round reads a word or comes to the end of the file. -/
def readLoop : Nat → Stream → Tokens → RCinitFile → RCinitFile
  | 0, _, _, rc => rc
  | fuel + 1, st, t, rc =>
      if st.eof = true then rc
      else
        let (action, st) := extract st t.action
        if action = hash then readLoop fuel st { t with action := action } rc
        else
          let (var, st) := extract st t.var
          let (value, st) := extract st t.value
          readLoop fuel st ⟨action, var, value⟩ (rc.apply ⟨action, var, value⟩)

def parseText (text : List Byte) (rc : RCinitFile) : RCinitFile :=
  readLoop (text.length + 1) (Stream.start text) ⟨[], [], []⟩ rc

/-- What `stat` and `open` find under a path. -/
inductive Entry (α : Type) where
  | missing
  | unreadable
  | file (content : α)

def Entry.map {α β : Type} (f : α → β) : Entry α → Entry β
  | .missing => .missing
  | .unreadable => .unreadable
  | .file content => .file (f content)

abbrev Files := List Byte → Entry (List Byte)

def parseFile (files : Files) (filespec : List Byte) (rc : RCinitFile) : ErrorCode × RCinitFile :=
  if filespec = [] then (.notSupported, rc)
  else
    match files filespec with
    | .missing => (.notSupported, rc)
    | .unreadable => (.notSupported, rc)
    | .file text => (.success, parseText text rc)

def etcPath : List Byte := bytes "/etc/powerguru/config"

def usrPath : List Byte := bytes "/usr/local/etc/powerguru/config"

def homePath (home : List Byte) : List Byte := home ++ bytes "/.powerguru/config"

/-- The user's file comes last, if there is a `HOME`. -/
def loadFiles (files : Files) (home : Option (List Byte)) (rc : RCinitFile) :
    ErrorCode × RCinitFile :=
  let rc := (parseFile files etcPath rc).2
  let rc := (parseFile files usrPath rc).2
  match home with
  | some home => parseFile files (homePath home) rc
  | none => (.notSupported, rc)

/-! ## The words of a file, in threes -/

/-- The groups of words that one round after the other takes. What the file does not have
any more is left from the group before. -/
def groups (var value : List Byte) : List (List Byte) → List Tokens
  | [] => []
  | [w] => if w = hash then [] else [⟨w, var, value⟩]
  | [w, x] =>
      if w = hash then (if x = hash then [] else [⟨x, var, value⟩]) else [⟨w, x, value⟩]
  | w :: x :: y :: ws =>
      if w = hash then groups var value (x :: y :: ws) else ⟨w, x, y⟩ :: groups x y ws

theorem groups_hash (var value : List Byte) (ws : List (List Byte)) :
    groups var value (hash :: ws) = groups var value ws := by
  match ws with
  | [] => simp [groups]
  | [x] => simp [groups]
  | x :: y :: ws => simp [groups]

/-- What a group sets. -/
def Tokens.setting (t : Tokens) : Option (List Byte × List Byte) :=
  if t.action = bytes "set" then some (t.var, t.value) else none

def settings (text : List Byte) : List (List Byte × List Byte) :=
  (groups [] [] (words text)).filterMap Tokens.setting

/-- The last value that is given to a variable. -/
def lastOf (pairs : List (List Byte × List Byte)) (v : Variable) : Option (List Byte) :=
  ((pairs.filter fun p => p.1 == v.name).map Prod.snd).getLast?

theorem get_set (rc : RCinitFile) (var value : List Byte) (v : Variable) :
    (rc.set var value).get v = if var = v.name then value else rc.get v := by
  cases v with
  | dbhost => simp only [RCinitFile.get, RCinitFile.set, apply_ite RCinitFile.dbhost, ite_self]; rfl
  | dbuser => simp only [RCinitFile.get, RCinitFile.set, apply_ite RCinitFile.dbuser, ite_self]; rfl
  | dbpasswd =>
    simp only [RCinitFile.get, RCinitFile.set, apply_ite RCinitFile.dbpasswd, ite_self]
    rfl
  | dbname => simp only [RCinitFile.get, RCinitFile.set, apply_ite RCinitFile.dbname, ite_self]; rfl
  | devmode =>
    simp only [RCinitFile.get, RCinitFile.set, apply_ite RCinitFile.devmode, ite_self]
    rfl
  | device => simp only [RCinitFile.get, RCinitFile.set, apply_ite RCinitFile.device, ite_self]; rfl

theorem ext_get {a b : RCinitFile} (h : ∀ v, a.get v = b.get v) : a = b := by
  cases a
  cases b
  have h1 := h .dbhost
  have h2 := h .dbuser
  have h3 := h .dbpasswd
  have h4 := h .dbname
  have h5 := h .devmode
  have h6 := h .device
  simp_all [RCinitFile.get]

/-- A round that sets what was set before changes nothing. -/
theorem apply_apply (rc : RCinitFile) (t : Tokens) : (rc.apply t).apply t = rc.apply t := by
  unfold RCinitFile.apply
  split
  · apply ext_get
    intro v
    rw [get_set, get_set]
    split <;> rfl
  · rfl

theorem apply_of_hash (rc : RCinitFile) (var value : List Byte) :
    rc.apply ⟨hash, var, value⟩ = rc := if_neg (show ¬ hash = bytes "set" by decide)

theorem readLoop_eof {st : Stream} (h : st.eof = true) (fuel : Nat) (t : Tokens) (rc : RCinitFile) :
    readLoop fuel st t rc = rc := by
  cases fuel with
  | zero => rfl
  | succ fuel => rw [readLoop, if_pos h]

/-- The loop applies the groups one after the other. At the end of the file it may apply the last
group once more. -/
theorem readLoop_groups {fuel : Nat} {st : Stream} {t : Tokens} {rc : RCinitFile}
    {ws : List (List Byte)} (h : st.Holds ws) (hfuel : st.text.length < fuel)
    (hsettled : rc.apply t = rc) :
    readLoop fuel st t rc = (groups t.var t.value ws).foldl RCinitFile.apply rc := by
  induction fuel generalizing st t rc ws with
  | zero => omega
  | succ fuel ih =>
    by_cases heof : st.eof = true
    · have hnil : ws = [] := by rw [Stream.Holds, if_pos heof] at h; exact h
      rw [readLoop_eof heof, hnil, groups, List.foldl_nil]
    rw [readLoop, if_neg heof]
    dsimp only
    cases ws with
    | nil =>
      obtain ⟨haction, hend⟩ := extract_nil h t.action
      rw [haction, groups, List.foldl_nil]
      split
      · exact readLoop_eof hend fuel _ rc
      · obtain ⟨hvar, hend'⟩ := extract_nil (Stream.holds_of_eof hend) t.var
        obtain ⟨hvalue, hend''⟩ := extract_nil (Stream.holds_of_eof hend') t.value
        rw [hvar, hvalue, readLoop_eof hend'', hsettled]
    | cons w ws =>
      obtain ⟨haction, hholds, hlength⟩ := extract_cons h t.action
      rw [haction]
      by_cases hw : w = hash
      · rw [if_pos hw, hw, groups_hash]
        exact ih hholds (by omega) (apply_of_hash rc _ _)
      rw [if_neg hw]
      cases ws with
      | nil =>
        obtain ⟨hvar, hend⟩ := extract_nil hholds t.var
        obtain ⟨hvalue, hend'⟩ := extract_nil (Stream.holds_of_eof hend) t.value
        rw [hvar, hvalue, readLoop_eof hend', groups, if_neg hw]
        rfl
      | cons x ws =>
        obtain ⟨hvar, hholds', hlength'⟩ := extract_cons hholds t.var
        rw [hvar]
        cases ws with
        | nil =>
          obtain ⟨hvalue, hend⟩ := extract_nil hholds' t.value
          rw [hvalue, readLoop_eof hend, groups, if_neg hw]
          rfl
        | cons y ws =>
          obtain ⟨hvalue, hholds'', hlength''⟩ := extract_cons hholds' t.value
          rw [hvalue, groups, if_neg hw, List.foldl_cons]
          exact ih hholds'' (by omega) (apply_apply rc _)

theorem parseText_eq (text : List Byte) (rc : RCinitFile) :
    parseText text rc = (groups [] [] (words text)).foldl RCinitFile.apply rc :=
  readLoop_groups (Stream.holds_start text) (by simp [Stream.start]) (if_neg (by decide))

theorem lastOf_cons (p : List Byte × List Byte) (pairs : List (List Byte × List Byte))
    (v : Variable) :
    lastOf (p :: pairs) v = (lastOf pairs v).or (if p.1 = v.name then some p.2 else none) := by
  unfold lastOf
  by_cases hp : p.1 = v.name
  · rw [List.filter_cons_of_pos (by simpa using hp), List.map_cons, if_pos hp,
      List.getLast?_cons]
    cases ((pairs.filter fun p => p.1 == v.name).map Prod.snd).getLast? <;> rfl
  · rw [List.filter_cons_of_neg (by simpa using hp), if_neg hp, Option.or_none]

theorem get_foldl (ts : List Tokens) (rc : RCinitFile) (v : Variable) :
    (ts.foldl RCinitFile.apply rc).get v =
      (lastOf (ts.filterMap Tokens.setting) v).getD (rc.get v) := by
  induction ts generalizing rc with
  | nil => rfl
  | cons t ts ih =>
    rw [List.foldl_cons, ih, RCinitFile.apply]
    by_cases ht : t.action = bytes "set"
    · have hsetting : t.setting = some (t.var, t.value) := if_pos ht
      rw [if_pos ht, get_set, List.filterMap_cons_some hsetting, lastOf_cons]
      cases lastOf (ts.filterMap Tokens.setting) v with
      | some value => rfl
      | none =>
        by_cases hv : t.var = v.name
        · simp [hv]
        · simp [hv]
    · have hsetting : t.setting = none := if_neg ht
      rw [if_neg ht, List.filterMap_cons_none hsetting]

/-- What a variable is after the file. -/
theorem get_parseText (text : List Byte) (rc : RCinitFile) (v : Variable) :
    (parseText text rc).get v = (lastOf (settings text) v).getD (rc.get v) := by
  rw [parseText_eq, get_foldl, settings]

/-! ## The lines of a file -/

/-- White space within a line. -/
def isBlank (b : Byte) : Bool := isSpace b && b != LF

/-- `set variable value`. The value may have blanks in it. -/
structure SetLine where
  lead : List Byte
  gap : List Byte
  var : List Byte
  gap' : List Byte
  value : List Byte
  tail : List Byte
  blanks : (lead ++ (gap ++ (gap' ++ tail))).all isBlank = true
  apart : gap ≠ [] ∧ gap' ≠ []
  word : var ≠ [] ∧ var.all (fun b => !isSpace b) = true
  trimmed : value ≠ [] ∧ value.head?.all (fun b => !isSpace b) = true ∧
    value.getLast?.all (fun b => !isSpace b) = true
  one_line : LF ∉ value

inductive Line where
  | set (l : SetLine)
  | comment (text : List Byte) (one_line : LF ∉ text)
  | blank (text : List Byte) (blanks : text.all isBlank = true)

def Line.text : Line → List Byte
  | .set l => l.lead ++ (bytes "set" ++ (l.gap ++ (l.var ++ (l.gap' ++ (l.value ++ l.tail)))))
  | .comment text _ => hash ++ text
  | .blank text _ => text

def Line.setting : Line → Option (List Byte × List Byte)
  | .set l => some (l.var, l.value)
  | _ => none

/-- A file; its last line may lack the line end. -/
structure Config where
  lines : List Line
  last : Option Line

def Config.all (c : Config) : List Line := c.lines ++ c.last.toList

def Config.text (c : Config) : List Byte :=
  c.lines.flatMap (fun l => l.text ++ [LF]) ++ c.last.toList.flatMap Line.text

/-- What the lines set, in order. -/
def Config.sets (c : Config) : List (List Byte × List Byte) := c.all.filterMap Line.setting

/-- The variables end up as the lines of the file have them. -/
def Config.Parsed (c : Config) : Prop :=
  ∀ path, path ≠ [] → ∀ (rc : RCinitFile) (v : Variable),
    (parseFile (fun _ => .file c.text) path rc).2.get v = (lastOf c.sets v).getD (rc.get v)

/-- For every variable the last group that sets it has the value of the last line that does. -/
def Config.Kept (c : Config) : Prop := ∀ v, lastOf (settings c.text) v = lastOf c.sets v

/-- The file's value, if there is a file. -/
def Entry.value {α β : Type} (f : α → Option β) : Entry α → Option β
  | .file content => f content
  | _ => none

def userEntry (configs : List Byte → Entry Config) : Option (List Byte) → Entry Config
  | some home => configs (homePath home)
  | none => .missing

/-- The user's value, else the one of `/usr/local/etc`, else the one of `/etc`. -/
def overriding (f : Config → Option (List Byte)) (configs : List Byte → Entry Config)
    (home : Option (List Byte)) : Option (List Byte) :=
  ((userEntry configs home).value f).or
    (((configs usrPath).value f).or ((configs etcPath).value f))

def Loaded (configs : List Byte → Entry Config) (home : Option (List Byte)) : Prop :=
  ∀ (rc : RCinitFile) (v : Variable),
    (loadFiles (fun path => (configs path).map Config.text) home rc).2.get v =
      (overriding (fun c => lastOf c.sets v) configs home).getD (rc.get v)

def KeptTogether (configs : List Byte → Entry Config) (home : Option (List Byte)) : Prop :=
  ∀ v, overriding (fun c => lastOf (settings c.text) v) configs home =
    overriding (fun c => lastOf c.sets v) configs home

/-! ## When the groups are the lines -/

theorem getD_law {a b : Variable → Option (List Byte)} :
    (∀ (rc : RCinitFile) (v : Variable), (a v).getD (rc.get v) = (b v).getD (rc.get v)) ↔
      ∀ v, a v = b v := by
  constructor
  · intro h v
    have hfill : ∀ x : List Byte, (a v).getD x = (b v).getD x := by
      intro x
      have hget : RCinitFile.get ⟨x, x, x, x, x, x⟩ v = x := by cases v <;> rfl
      have hx := h ⟨x, x, x, x, x, x⟩ v
      rw [hget] at hx
      exact hx
    cases ha : a v with
    | none =>
      cases hb : b v with
      | none => rfl
      | some y =>
        have hy := hfill (0 :: y)
        rw [ha, hb] at hy
        exact absurd (congrArg List.length hy) (by simp)
    | some y =>
      cases hb : b v with
      | none =>
        have hy := hfill (0 :: y)
        rw [ha, hb] at hy
        exact absurd (congrArg List.length hy) (by simp)
      | some z =>
        have hz := hfill []
        rw [ha, hb] at hz
        exact congrArg some hz
  · intro h rc v
    rw [h v]

theorem get_parseFile (entry : Entry Config) (files : Files) {path : List Byte}
    (hpath : path ≠ []) (h : files path = entry.map Config.text) (rc : RCinitFile)
    (v : Variable) :
    (parseFile files path rc).2.get v =
      (entry.value fun c => lastOf (settings c.text) v).getD (rc.get v) := by
  rw [parseFile, if_neg hpath, h]
  cases entry with
  | missing => rfl
  | unreadable => rfl
  | file c => exact get_parseText c.text rc v

theorem parsed_iff_kept (c : Config) : c.Parsed ↔ c.Kept := by
  rw [Config.Kept, ← getD_law]
  constructor
  · intro h rc v
    have hparse := get_parseFile (.file c) (fun _ => .file c.text)
      (show bytes "config" ≠ [] by decide) rfl rc v
    rw [← h (bytes "config") (by decide) rc v, hparse]
    rfl
  · intro h path hpath rc v
    rw [get_parseFile (.file c) (fun _ => .file c.text) hpath rfl rc v]
    exact h rc v

theorem getD_or (a b : Option (List Byte)) (x : List Byte) :
    (a.or b).getD x = a.getD (b.getD x) := by
  cases a <;> rfl

theorem get_loadFiles (configs : List Byte → Entry Config) (home : Option (List Byte))
    (rc : RCinitFile) (v : Variable) :
    (loadFiles (fun path => (configs path).map Config.text) home rc).2.get v =
      (overriding (fun c => lastOf (settings c.text) v) configs home).getD (rc.get v) := by
  have hetc := get_parseFile (configs etcPath) (fun path => (configs path).map Config.text)
    (show etcPath ≠ [] by decide) rfl
  have husr := get_parseFile (configs usrPath) (fun path => (configs path).map Config.text)
    (show usrPath ≠ [] by decide) rfl
  rw [overriding, getD_or, getD_or]
  cases home with
  | none =>
    simp only [loadFiles]
    rw [husr, hetc]
    rfl
  | some home =>
    have hne : homePath home ≠ [] := by simp [homePath, bytes]
    have huser := get_parseFile (configs (homePath home))
      (fun path => (configs path).map Config.text) hne rfl
    simp only [loadFiles]
    rw [huser, husr, hetc]
    rfl

theorem loaded_iff_kept (configs : List Byte → Entry Config) (home : Option (List Byte)) :
    Loaded configs home ↔ KeptTogether configs home := by
  rw [KeptTogether, ← getD_law, Loaded]
  simp only [get_loadFiles]

/-! ## Files that are kept -/

/-- Words that come to whole groups and set nothing. -/
inductive Passed : List (List Byte) → Prop
  | nil : Passed []
  | hash {ws : List (List Byte)} (h : Passed ws) : Passed (hash :: ws)
  | group {w x y : List Byte} {ws : List (List Byte)} (hw : w ≠ hash) (hset : w ≠ bytes "set")
      (h : Passed ws) : Passed (w :: x :: y :: ws)

/-- The value is one word; what stands in a comment, apart from the `#`, is passed over. -/
def Line.Tidy : Line → Prop
  | .set l => l.value.all (fun b => !isSpace b) = true
  | .comment text _ => text.head?.all isSpace = true ∧ Passed (words text)
  | .blank _ _ => True

def pairs (var value : List Byte) (ws : List (List Byte)) : List (List Byte × List Byte) :=
  (groups var value ws).filterMap Tokens.setting

theorem pairs_passed {ws : List (List Byte)} (h : Passed ws) (var value : List Byte) :
    ∃ var' value', ∀ rest, pairs var value (ws ++ rest) = pairs var' value' rest := by
  induction h generalizing var value with
  | nil => exact ⟨var, value, fun _ => rfl⟩
  | hash _ ih =>
    obtain ⟨var', value', hrest⟩ := ih var value
    refine ⟨var', value', ?_⟩
    intro rest
    rw [List.cons_append, pairs, groups_hash]
    exact hrest rest
  | @group w x y ws hw hset _ ih =>
    obtain ⟨var', value', hrest⟩ := ih x y
    refine ⟨var', value', ?_⟩
    intro rest
    have hsetting : Tokens.setting ⟨w, x, y⟩ = none := if_neg hset
    rw [List.cons_append, List.cons_append, List.cons_append, pairs, groups, if_neg hw,
      List.filterMap_cons_none hsetting]
    exact hrest rest

theorem pairs_set (var value x y : List Byte) (rest : List (List Byte)) :
    pairs var value (bytes "set" :: x :: y :: rest) = (x, y) :: pairs x y rest := by
  have hno : bytes "set" ≠ hash := by decide
  have hsetting : Tokens.setting ⟨bytes "set", x, y⟩ = some (x, y) := if_pos rfl
  rw [pairs, groups, if_neg hno, List.filterMap_cons_some hsetting]
  rfl

theorem isSpace_of_blank {s : List Byte} (h : s.all isBlank = true) : s.all isSpace = true := by
  apply List.all_eq_true.mpr
  intro b hb
  have hblank := List.all_eq_true.mp h b hb
  rw [isBlank, Bool.and_eq_true] at hblank
  exact hblank.1

/-- White space between two pieces keeps their words apart. -/
theorem words_gap {gap : List Byte} (hne : gap ≠ []) (h : gap.all isSpace = true)
    (x y : List Byte) : words (x ++ (gap ++ y)) = words x ++ words y := by
  obtain ⟨b, t, rfl⟩ := List.exists_cons_of_ne_nil hne
  rw [List.all_cons, Bool.and_eq_true] at h
  rw [List.cons_append, words_append h.1, words_spaces h.2]

theorem words_setLine {l : SetLine} (h : l.value.all (fun b => !isSpace b) = true) :
    words (Line.set l).text = [bytes "set", l.var, l.value] := by
  obtain ⟨hlead, hgap, hgap', htail⟩ : l.lead.all isSpace = true ∧ l.gap.all isSpace = true ∧
      l.gap'.all isSpace = true ∧ l.tail.all isSpace = true := by
    have hblanks := isSpace_of_blank l.blanks
    simpa [List.all_append, Bool.and_eq_true] using hblanks
  have hset : words (bytes "set") = [bytes "set"] := rfl
  have hvalue : words (l.value ++ l.tail) = [l.value] := by
    cases ht : l.tail with
    | nil => rw [List.append_nil, words_word l.trimmed.1 h]
    | cons b t =>
      rw [ht, List.all_cons, Bool.and_eq_true] at htail
      have hend := words_spaces htail.2 []
      rw [List.append_nil] at hend
      rw [words_append htail.1, words_word l.trimmed.1 h, hend]
      rfl
  rw [Line.text, words_spaces hlead, words_gap l.apart.1 hgap, words_gap l.apart.2 hgap', hset,
    words_word l.word.1 l.word.2, hvalue]
  rfl

theorem words_comment {text : List Byte} (h : text.head?.all isSpace = true) :
    words (hash ++ text) = hash :: words text := by
  cases text with
  | nil => rfl
  | cons b t =>
    have hb : isSpace b = true := by simpa using h
    rw [words_append hb, words_space hb]
    rfl

/-- A tidy line takes whole groups, and these set what the line sets. -/
theorem pairs_line {l : Line} (h : l.Tidy) (var value : List Byte) :
    ∃ var' value', ∀ rest, pairs var value (words l.text ++ rest) =
      l.setting.toList ++ pairs var' value' rest := by
  cases l with
  | set l =>
    refine ⟨l.var, l.value, ?_⟩
    intro rest
    rw [words_setLine h]
    exact pairs_set var value l.var l.value rest
  | comment text one_line =>
    obtain ⟨var', value', hrest⟩ := pairs_passed h.2 var value
    refine ⟨var', value', ?_⟩
    intro rest
    rw [Line.text, words_comment h.1, List.cons_append, pairs, groups_hash]
    exact hrest rest
  | blank text blanks =>
    refine ⟨var, value, ?_⟩
    intro rest
    have hnil := words_spaces (isSpace_of_blank blanks) []
    rw [List.append_nil] at hnil
    rw [Line.text, hnil]
    rfl

theorem pairs_lines {ls : List Line} (h : ∀ l ∈ ls, l.Tidy) (var value : List Byte) :
    pairs var value (ls.flatMap fun l => words l.text) = ls.filterMap Line.setting := by
  induction ls generalizing var value with
  | nil => rfl
  | cons l ls ih =>
    rw [List.forall_mem_cons] at h
    obtain ⟨var', value', hrest⟩ := pairs_line h.1 var value
    rw [List.flatMap_cons, hrest, ih h.2]
    cases hs : l.setting with
    | none => rw [List.filterMap_cons_none hs]; rfl
    | some p => rw [List.filterMap_cons_some hs]; rfl

theorem words_text (c : Config) : words c.text = c.all.flatMap fun l => words l.text := by
  have hlast : ∀ last : Option Line, words (last.toList.flatMap Line.text) =
      last.toList.flatMap fun l => words l.text := by
    intro last
    cases last with
    | none => rfl
    | some l => simp
  rw [Config.text, Config.all, List.flatMap_append, ← hlast]
  generalize c.last.toList.flatMap Line.text = rest
  induction c.lines with
  | nil => rfl
  | cons l ls ih =>
    have hlf : isSpace LF = true := rfl
    rw [List.flatMap_cons, List.flatMap_cons, List.append_assoc, List.append_assoc,
      List.singleton_append, words_append hlf, ih, List.append_assoc]

/-- Files of tidy lines are read as they are meant. -/
theorem kept_of_tidy {c : Config} (h : ∀ l ∈ c.all, l.Tidy) : c.Kept := by
  intro v
  have hsettings : settings c.text = c.sets := by
    have hlines := pairs_lines h [] []
    rw [← words_text] at hlines
    exact hlines
  rw [hsettings]

/-! ## All files -/

/-- A file is read as its lines have it if and only if for every variable the last group of words
that sets it has the value of the last line that does; and so for the three files, of which the
later override the earlier. A file of tidy lines is read. -/
theorem read_iff_kept (c : Config) (configs : List Byte → Entry Config)
    (home : Option (List Byte)) :
    (c.Parsed ↔ c.Kept) ∧ (Loaded configs home ↔ KeptTogether configs home) ∧
      ((∀ l ∈ c.all, l.Tidy) → c.Parsed) :=
  ⟨parsed_iff_kept c, loaded_iff_kept configs home,
    fun h => (parsed_iff_kept c).mpr (kept_of_tidy h)⟩

/-- `set dbname solar` -/
def setDbname : SetLine where
  lead := []
  gap := [32]
  var := bytes "dbname"
  gap' := [32]
  value := bytes "solar"
  tail := []
  blanks := by decide
  apart := by decide
  word := by decide
  trimmed := by decide
  one_line := by decide

/-- Two words behind the `#` take the `set` of the next line for the third. -/
def commented : Config :=
  ⟨[.comment (bytes " a comment") (by decide), .set setDbname], none⟩

theorem commented_not_parsed : ¬ commented.Parsed := by
  rw [parsed_iff_kept]
  intro h
  have hdbname := h .dbname
  exact absurd hdbname (by decide)

end PowerGuru.Host.Rc
