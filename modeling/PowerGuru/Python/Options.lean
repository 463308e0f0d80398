import Mathlib.Logic.Function.Iterate
import PowerGuru.Lib.PyRepr

/-!
# `options.py`: `CmdOptions.processArgs`

The arguments are parsed twice: by `getopt`, whose result is not used, and by a walk over the
vector that takes every second argument for an option.
-/
namespace PowerGuru.Python.Options

open Lib.PyRepr

/-! ## `getopt.getopt` -/

def shortOpts : Text := "h,o:,i:,p:,d:,s:,v,t:,e:".toList

/-- A comma is missing between the last but two. -/
def longOpts : List Text :=
  ["help".toList, "owserver".toList, "dbserver".toList, "database".toList, "scale".toList,
    "interval".toList, "verbositystarttime".toList, "endtime".toList]

/-- Whether the option takes a value; one that is not in the text raises. -/
def shortHasArg (opt : Char) : Text → Option Bool
  | [] => none
  | c :: rest => if opt = c ∧ c ≠ ':' then some (rest.head? = some ':') else shortHasArg opt rest

/-- The options of one argument, and the one that still needs a value. -/
def doShorts : Text → Option (List (Text × Text) × Option Char)
  | [] => some ([], none)
  | opt :: optstring =>
      match shortHasArg opt shortOpts with
      | none => none
      | some true =>
          if optstring = [] then some ([], some opt) else some ([(['-', opt], optstring)], none)
      | some false => (doShorts optstring).map fun r => ((['-', opt], []) :: r.1, r.2)

/-- The long option that this is the beginning of. None takes a value. -/
def doLongs (opt : Text) : Option (Text × Text) :=
  if '=' ∈ opt then none
  else
    let possibilities := longOpts.filter fun o => opt.isPrefixOf o
    if opt ∈ possibilities then some ("--".toList ++ opt, [])
    else
      match possibilities with
      | [o] => some ("--".toList ++ o, [])
      | _ => none

/-- The options reported, unless `GetoptError` is raised. -/
def getopt : List Text → Option (List (Text × Text))
  | [] => some []
  | arg :: args =>
      if arg.head? ≠ some '-' ∨ arg = ['-'] ∨ arg = "--".toList then some []
      else if "--".toList.isPrefixOf arg then
        match doLongs (arg.drop 2), getopt args with
        | some o, some os => some (o :: os)
        | _, _ => none
      else
        match doShorts arg.tail with
        | none => none
        | some (os, none) => (getopt args).map (os ++ ·)
        | some (os, some opt) =>
            match args with
            | [] => none
            | val :: args => (getopt args).map (os ++ (['-', opt], val) :: ·)

/-! ## The options -/

/-- The options with a value, by their letters. -/
inductive Letter where
  | o
  | i
  | p
  | d
  | s
  | t
  | e
  deriving DecidableEq, Repr

def Letter.char : Letter → Char
  | .o => 'o'
  | .i => 'i'
  | .p => 'p'
  | .d => 'd'
  | .s => 's'
  | .t => 't'
  | .e => 'e'

def Letter.short (c : Letter) : Text := ['-', c.char]

/-- The key in `options`. -/
def Letter.key : Letter → Text
  | .o => "owserver".toList
  | .i => "interval".toList
  | .p => "dbserver".toList
  | .d => "database".toList
  | .s => "scale".toList
  | .t => "starttime".toList
  | .e => "endtime".toList

def Letter.long (c : Letter) : Text := "--".toList ++ c.key

inductive Value where
  | str (s : Text)
  | int (n : Int)
  deriving DecidableEq

/-- The dictionary; a key may be missing. -/
structure CmdOptions where
  verbosity : Int
  values : Letter → Option Value

def ERROR : Int := 40
def INFO : Int := 20
def DEBUG : Int := 10

/-- One `-v`. -/
def raised (verbosity : Int) : Int :=
  if verbosity = ERROR then INFO else if verbosity = INFO then DEBUG else verbosity

def CmdOptions.set (o : CmdOptions) (c : Letter) (x : Value) : CmdOptions :=
  { o with values := Function.update o.values c (some x) }

def CmdOptions.verbose (o : CmdOptions) : CmdOptions := { o with verbosity := raised o.verbosity }

/-! ## The walk -/

inductive Outcome where
  | done (o : CmdOptions)
  /-- `usage` ends the program. -/
  | quit
  /-- `int(val)` raised. -/
  | valueError

/-- What the walk takes an argument for, with the one behind it. -/
inductive Read where
  | help
  | value (c : Letter) (val : Text)
  | verbose
  deriving DecidableEq

/-- The branches with a value, in their order. There is none for the scale. -/
def branches : List Letter := [.t, .e, .o, .i, .p, .d]

def readOf (opt val : Text) : Option Read :=
  if opt = "--help".toList ∨ opt = "-h".toList then some .help
  else
    match branches.find? fun c => opt == c.long || opt == c.short with
    | some c => some (.value c val)
    | none => if opt = "--verbose".toList ∨ opt = "-v".toList then some .verbose else none

section
variable (pyInt : Text → Option Int)

/-- What is stored for a value. -/
def stored (c : Letter) (val : Text) : Option Value :=
  if c = .i then (pyInt val).map .int else some (.str val)

/-- The loop over `args`; `skip` when the index has been moved past the next one. -/
def walk : Bool → List Text → CmdOptions → Outcome
  | _, [], o => .done o
  | true, _ :: args, o => walk false args o
  | false, opt :: args, o =>
      match readOf opt (args.headD []) with
      | some .help => .quit
      | some (.value c val) =>
          match stored pyInt c val with
          | none => .valueError
          | some x => walk true args (o.set c x)
      | some .verbose => walk false args o.verbose
      | none => walk true args o

def processArgs (args : List Text) (o : CmdOptions) : Outcome :=
  match getopt args with
  | none => .quit
  | some _ => walk pyInt false args o

/-! ## What the walk reads -/

/-- The options that the walk comes to. -/
def reads : Bool → List Text → List Read
  | _, [] => []
  | true, _ :: args => reads false args
  | false, opt :: args =>
      match readOf opt (args.headD []) with
      | some .verbose => .verbose :: reads false args
      | some r => r :: reads true args
      | none => reads true args

/-- What they come to. -/
def execute : List Read → CmdOptions → Outcome
  | [], o => .done o
  | .help :: _, _ => .quit
  | .value c val :: rs, o =>
      match stored pyInt c val with
      | none => .valueError
      | some x => execute rs (o.set c x)
  | .verbose :: rs, o => execute rs o.verbose

theorem walk_eq (skip : Bool) (args : List Text) (o : CmdOptions) :
    walk pyInt skip args o = execute pyInt (reads skip args) o := by
  induction args generalizing skip o with
  | nil => cases skip <;> rfl
  | cons opt args ih =>
    cases skip with
    | true => exact ih false o
    | false =>
      rw [walk, reads]
      cases readOf opt (args.headD []) with
      | none => exact ih true o
      | some r =>
        cases r with
        | help => rfl
        | verbose => exact ih false o.verbose
        | value c val =>
          simp only [execute]
          cases stored pyInt c val with
          | none => rfl
          | some x => exact ih true (o.set c x)

/-- Every read can be carried out. -/
def Sound (rs : List Read) : Prop :=
  .help ∉ rs ∧ ∀ c val, .value c val ∈ rs → (stored pyInt c val).isSome = true

def valueOf (c : Letter) : Read → Option Text
  | .value k val => if k = c then some val else none
  | _ => none

/-- The last value that is read for a letter. -/
def lastRead (c : Letter) (rs : List Read) : Option Text := (rs.filterMap (valueOf c)).getLast?

/-- A value that is read last is the one that stays. -/
def final (rs : List Read) (o : CmdOptions) : CmdOptions where
  verbosity := raised^[rs.count .verbose] o.verbosity
  values c :=
    match lastRead c rs with
    | none => o.values c
    | some val => stored pyInt c val

variable {pyInt}

theorem lastRead_cons (c : Letter) (r : Read) (rs : List Read) :
    lastRead c (r :: rs) = (lastRead c rs).or (valueOf c r) := by
  unfold lastRead
  rw [List.filterMap_cons]
  cases valueOf c r with
  | none => rw [Option.or_none]
  | some val =>
    rw [List.getLast?_cons]
    cases (rs.filterMap (valueOf c)).getLast? <;> rfl

theorem sound_cons (r : Read) (rs : List Read) :
    Sound pyInt (r :: rs) ↔ (r ≠ .help ∧ ∀ c val, r = .value c val →
      (stored pyInt c val).isSome = true) ∧ Sound pyInt rs := by
  simp only [Sound, List.mem_cons, not_or, or_imp, forall_and, ne_eq, eq_comm (a := r)]
  tauto

theorem final_verbose (rs : List Read) (o : CmdOptions) :
    final pyInt (.verbose :: rs) o = final pyInt rs o.verbose := by
  unfold final
  rw [List.count_cons_self, Function.iterate_succ_apply]
  simp only [lastRead_cons, valueOf, Option.or_none]
  rfl

theorem final_value {c : Letter} {val : Text} {x : Value} (h : stored pyInt c val = some x)
    (rs : List Read) (o : CmdOptions) :
    final pyInt (.value c val :: rs) o = final pyInt rs (o.set c x) := by
  unfold final
  rw [List.count_cons_of_ne (by simp)]
  congr 1
  funext k
  rw [lastRead_cons]
  cases lastRead k rs with
  | some w => rfl
  | none =>
    by_cases hk : c = k
    · subst hk
      simp [valueOf, h, CmdOptions.set]
    · simp [valueOf, hk, CmdOptions.set, Function.update_of_ne (Ne.symm hk)]

/-- The reads are carried out exactly if each can be, and leave the last values. -/
theorem execute_done_iff (rs : List Read) (o o' : CmdOptions) :
    execute pyInt rs o = .done o' ↔ Sound pyInt rs ∧ o' = final pyInt rs o := by
  induction rs generalizing o with
  | nil =>
    have hfinal : final pyInt [] o = o := rfl
    rw [execute, hfinal, Outcome.done.injEq, eq_comm]
    exact (and_iff_right ⟨List.not_mem_nil, fun c val h => absurd h List.not_mem_nil⟩).symm
  | cons r rs ih =>
    rw [sound_cons]
    cases r with
    | help => simp [execute]
    | verbose =>
      rw [execute, ih, final_verbose]
      simp
    | value c val =>
      rw [execute]
      cases h : stored pyInt c val with
      | none => simp [h]
      | some x =>
        simp only [ih, final_value h]
        simp [h]

end

/-! ## Sequences of options -/

/-- An option of the sequence, with its value behind it or attached. -/
inductive Occurrence where
  | separate (c : Letter) (val : Text)
  | attached (c : Letter) (first : Char) (rest : Text)
  | verbose

def Occurrence.args : Occurrence → List Text
  | .separate c val => [c.short, val]
  | .attached c first rest => [c.short ++ first :: rest]
  | .verbose => ["-v".toList]

def argv (occs : List Occurrence) : List Text := occs.flatMap Occurrence.args

def Occurrence.reported : Occurrence → Text × Text
  | .separate c val => (c.short, val)
  | .attached c first rest => (c.short, first :: rest)
  | .verbose => ("-v".toList, [])

/-- What an argument is taken for at the place of an option, with the argument behind it. -/
def spellings : List (Text × (Text → Read)) :=
  [("-h".toList, fun _ => .help), ("--help".toList, fun _ => .help),
    ("-t".toList, .value .t), ("--starttime".toList, .value .t),
    ("-e".toList, .value .e), ("--endtime".toList, .value .e),
    ("-o".toList, .value .o), ("--owserver".toList, .value .o),
    ("-i".toList, .value .i), ("--interval".toList, .value .i),
    ("-p".toList, .value .p), ("--dbserver".toList, .value .p),
    ("-d".toList, .value .d), ("--database".toList, .value .d),
    ("-v".toList, fun _ => .verbose), ("--verbose".toList, fun _ => .verbose)]

def spelt (opt next : Text) : Option Read := (spellings.lookup opt).map fun read => read next

/-- The options that come out if the first argument of the sequence is passed over, or none. An
attached value has the next argument passed over, and then a value behind that stands at the
place of an option. -/
def seen : Bool → List Occurrence → List Read
  | _, [] => []
  | false, .separate c val :: occs =>
      if c = .s then seen false occs else .value c val :: seen false occs
  | false, .attached _ _ _ :: occs => seen true occs
  | false, .verbose :: occs => .verbose :: seen false occs
  | true, .separate _ val :: occs =>
      match spelt val ((argv occs).headD []) with
      | some .verbose => .verbose :: seen false occs
      | some r => r :: seen true occs
      | none => seen true occs
  | true, .attached _ _ _ :: occs => seen false occs
  | true, .verbose :: occs => seen false occs

/-- The letter of an option with a value. -/
def Occurrence.letter : Occurrence → Option Letter
  | .separate c _ => some c
  | .attached c _ _ => some c
  | .verbose => none

theorem shortHasArg_char (c : Letter) : shortHasArg c.char shortOpts = some true := by
  cases c <;> decide

/-- A dash and something else than a second one. -/
theorem getopt_short {x : Char} (hx : x ≠ '-') (t : Text) (args : List Text) :
    getopt (('-' :: x :: t) :: args) =
      match doShorts (x :: t) with
      | none => none
      | some (os, none) => (getopt args).map (os ++ ·)
      | some (os, some opt) =>
          match args with
          | [] => none
          | val :: args => (getopt args).map (os ++ (['-', opt], val) :: ·) := by
  have hoperand : ¬ (('-' :: x :: t).head? ≠ some '-' ∨ '-' :: x :: t = ['-'] ∨
      '-' :: x :: t = "--".toList) := by
    simp [hx]
  have hlong : ¬ "--".toList.isPrefixOf ('-' :: x :: t) = true := by
    simp [Ne.symm hx]
  rw [getopt, if_neg hoperand, if_neg hlong]
  rfl

theorem char_ne_dash (c : Letter) : c.char ≠ '-' := by
  cases c <;> decide

/-- `getopt` reports the options as they were meant. -/
theorem getopt_argv (occs : List Occurrence) :
    getopt (argv occs) = some (occs.map Occurrence.reported) := by
  induction occs with
  | nil => rfl
  | cons occ occs ih =>
    rw [argv, List.flatMap_cons, ← argv, List.map_cons]
    cases occ with
    | separate c val =>
      have hshorts : doShorts [c.char] = some ([], some c.char) := by
        rw [doShorts, shortHasArg_char]
        rfl
      rw [Occurrence.args, Letter.short, List.cons_append, List.singleton_append,
        getopt_short (char_ne_dash c), hshorts]
      simp only [ih]
      rfl
    | attached c first rest =>
      have hshorts : doShorts (c.char :: first :: rest) =
          some ([(['-', c.char], first :: rest)], none) := by
        rw [doShorts, shortHasArg_char]
        rfl
      rw [Occurrence.args, Letter.short, List.singleton_append, List.cons_append,
        List.singleton_append, getopt_short (char_ne_dash c), hshorts]
      simp only [ih]
      rfl
    | verbose =>
      have hshorts : doShorts ['v'] = some ([(['-', 'v'], [])], none) := by decide
      have hargs : Occurrence.verbose.args = [['-', 'v']] := rfl
      rw [hargs, List.singleton_append, getopt_short (by decide), hshorts]
      simp only [ih]
      rfl

/-! ## Last wins -/

/-- The last value that `getopt` reports for a letter. -/
def lastReported (c : Letter) (reported : List (Text × Text)) : Option Text :=
  reported.reverse.lookup c.short

def verboseCount (reported : List (Text × Text)) : Nat :=
  reported.countP fun p => p.1 == "-v".toList

/-- Whatever the options were: each one that is reported has its last value, the verbosity has
risen a level for each `-v`, and the others are as before. -/
structure LastWins (pyInt : Text → Option Int) (reported : List (Text × Text))
    (o o' : CmdOptions) : Prop where
  verbosity : o'.verbosity = raised^[verboseCount reported] o.verbosity
  present : ∀ c val, lastReported c reported = some val →
    ∃ x, stored pyInt c val = some x ∧ o'.values c = some x
  absent : ∀ c, lastReported c reported = none → o'.values c = o.values c

def Processes (pyInt : Text → Option Int) (args : List Text) : Prop :=
  ∃ reported, getopt args = some reported ∧
    ∀ o, ∃ o', processArgs pyInt args o = .done o' ∧ LastWins pyInt reported o o'

/-- What the walk reads comes to the same as what `getopt` reports. -/
structure Agrees (pyInt : Text → Option Int) (rs : List Read) (reported : List (Text × Text)) :
    Prop where
  sound : Sound pyInt rs
  last : ∀ c, (lastRead c rs).map (stored pyInt c) =
    (lastReported c reported).map (stored pyInt c)
  verbose : min 2 (rs.count .verbose) = min 2 (verboseCount reported)

theorem raised_iterate (n : Nat) (v : Int) : raised^[n] v = raised^[min 2 n] v := by
  have hlevels : ∀ v, raised (raised (raised v)) = raised (raised v) := by
    intro v
    unfold raised
    split_ifs <;> simp_all [ERROR, INFO, DEBUG]
  have hmany : ∀ k v, raised^[k + 2] v = raised (raised v) := by
    intro k
    induction k with
    | zero => exact fun v => rfl
    | succ k ih =>
      intro v
      rw [Nat.add_right_comm, Function.iterate_succ_apply, ih, hlevels]
  rcases Nat.lt_or_ge n 2 with hlt | hge
  · rw [Nat.min_eq_right (Nat.le_of_lt hlt)]
  · obtain ⟨k, rfl⟩ := Nat.exists_eq_add_of_le' hge
    rw [hmany, Nat.min_eq_left hge]
    rfl

/-- There are two levels to rise. -/
theorem raised_iterate_iff (m n : Nat) :
    (∀ v, raised^[m] v = raised^[n] v) ↔ min 2 m = min 2 n := by
  constructor
  · intro h
    have herror := h ERROR
    have hall : ∀ i ≤ 2, ∀ j ≤ 2, raised^[i] ERROR = raised^[j] ERROR → i = j := by decide
    rw [raised_iterate m, raised_iterate n] at herror
    exact hall _ (Nat.min_le_left 2 m) _ (Nat.min_le_left 2 n) herror
  · intro h v
    rw [raised_iterate m, raised_iterate n, h]

variable {pyInt : Text → Option Int}

theorem mem_of_lastRead {c : Letter} {rs : List Read} {val : Text} (h : lastRead c rs = some val) :
    .value c val ∈ rs := by
  obtain ⟨r, hr, hval⟩ := List.mem_filterMap.mp (List.mem_of_getLast? h)
  cases r with
  | help => exact absurd hval (by simp [valueOf])
  | verbose => exact absurd hval (by simp [valueOf])
  | value k w =>
    rw [valueOf] at hval
    split at hval
    · next hk => rwa [← Option.some.inj hval, ← hk]
    · exact absurd hval (by simp)

theorem final_of_lastRead {c : Letter} {rs : List Read} {val : Text} (h : lastRead c rs = some val)
    (o : CmdOptions) : (final pyInt rs o).values c = stored pyInt c val := by
  simp only [final, h]

theorem final_of_unread {c : Letter} {rs : List Read} (h : lastRead c rs = none)
    (o : CmdOptions) : (final pyInt rs o).values c = o.values c := by
  simp only [final, h]

/-- Options that have no value yet tell the two apart. -/
theorem last_of_lastWins {rs : List Read} {reported : List (Text × Text)} (hsound : Sound pyInt rs)
    (h : LastWins pyInt reported ⟨ERROR, fun _ => none⟩ (final pyInt rs ⟨ERROR, fun _ => none⟩))
    (c : Letter) :
    (lastRead c rs).map (stored pyInt c) = (lastReported c reported).map (stored pyInt c) := by
  cases hread : lastRead c rs with
  | none =>
    cases hreported : lastReported c reported with
    | none => rfl
    | some val =>
      obtain ⟨x, -, hx⟩ := h.present c val hreported
      rw [final_of_unread hread] at hx
      exact absurd hx (by simp)
  | some w =>
    obtain ⟨y, hy⟩ := Option.isSome_iff_exists.mp (hsound.2 c w (mem_of_lastRead hread))
    have hvalue : (final pyInt rs ⟨ERROR, fun _ => none⟩).values c = stored pyInt c w :=
      final_of_lastRead hread _
    cases hreported : lastReported c reported with
    | none =>
      have habsent := h.absent c hreported
      rw [hvalue, hy] at habsent
      exact absurd habsent (by simp)
    | some val =>
      obtain ⟨x, hstored, hx⟩ := h.present c val hreported
      rw [Option.map_some, Option.map_some, hstored, ← hx, hvalue]

/-- What the reads leave of any options. -/
theorem lastWins_final_iff (rs : List Read) (reported : List (Text × Text)) :
    (∀ o, LastWins pyInt reported o (final pyInt rs o)) ∧ Sound pyInt rs ↔
      Agrees pyInt rs reported := by
  constructor
  · rintro ⟨hall, hsound⟩
    refine ⟨hsound, last_of_lastWins hsound (hall _), ?_⟩
    rw [← raised_iterate_iff]
    exact fun v => (hall ⟨v, fun _ => none⟩).verbosity
  · rintro ⟨hsound, hlast, hverbose⟩
    refine ⟨fun o => ⟨(raised_iterate_iff _ _).mpr hverbose _, ?_, ?_⟩, hsound⟩
    · intro c val hreported
      have hc := hlast c
      rw [hreported, Option.map_some, Option.map_eq_some_iff] at hc
      obtain ⟨w, hread, hw⟩ := hc
      obtain ⟨x, hx⟩ := Option.isSome_iff_exists.mp (hsound.2 c w (mem_of_lastRead hread))
      exact ⟨x, hw ▸ hx, by rw [final_of_lastRead hread, hx]⟩
    · intro c hreported
      have hc := hlast c
      rw [hreported, Option.map_none, Option.map_eq_none_iff] at hc
      exact final_of_unread hc o

/-! ## The sequences that agree -/

/-- An option with its value behind it, an integer for the interval, or `-v`. -/
def Plain (pyInt : Text → Option Int) : Occurrence → Prop
  | .separate c val => c ≠ .s ∧ (stored pyInt c val).isSome = true
  | .attached _ _ _ => False
  | .verbose => True

def Occurrence.read : Occurrence → Read
  | .separate c val => .value c val
  | .attached c first rest => .value c (first :: rest)
  | .verbose => .verbose

theorem readOf_eq_spelt (opt next : Text) : readOf opt next = spelt opt next := by
  by_cases h : opt ∈ spellings.map Prod.fst
  · have hall : ∀ p ∈ spellings, readOf p.1 next = spelt p.1 next := by
      simp only [spellings, List.forall_mem_cons]
      exact ⟨rfl, rfl, rfl, rfl, rfl, rfl, rfl, rfl, rfl, rfl, rfl, rfl, rfl, rfl, rfl, rfl,
        fun p hp => absurd hp List.not_mem_nil⟩
    obtain ⟨p, hp, rfl⟩ := List.mem_map.mp h
    exact hall p hp
  · have hnone : spellings.lookup opt = none := by
      rw [List.lookup_eq_none_iff]
      intro p hp
      have hne : opt ≠ p.1 := by
        rintro rfl
        exact h (List.mem_map_of_mem hp)
      simp [hne]
    rw [spelt, hnone, Option.map_none]
    simp only [spellings, List.map_cons, List.map_nil, List.mem_cons, not_or] at h
    obtain ⟨hh, hhelp, ht, hstart, he, hend, ho, hserver, hi, hinterval, hp, hdb, hd, hbase, hv,
      hverbose, -⟩ := h
    have hbranches : (branches.find? fun c => opt == c.long || opt == c.short) = none := by
      simp only [branches, List.find?_eq_none, List.forall_mem_cons, Bool.or_eq_true,
        beq_iff_eq, not_or]
      exact ⟨⟨hstart, ht⟩, ⟨hend, he⟩, ⟨hserver, ho⟩, ⟨hinterval, hi⟩, ⟨hdb, hp⟩, ⟨hbase, hd⟩,
        fun c hc => absurd hc List.not_mem_nil⟩
    rw [readOf, if_neg (not_or.mpr ⟨hhelp, hh⟩), hbranches]
    exact if_neg (not_or.mpr ⟨hverbose, hv⟩)

theorem readOf_short {c : Letter} (hc : c ≠ .s) (val : Text) :
    readOf c.short val = some (.value c val) := by
  cases c with
  | s => exact absurd rfl hc
  | _ => rfl

theorem readOf_attached (c : Letter) (first : Char) (rest next : Text) :
    readOf (c.short ++ first :: rest) next = none := by
  rw [readOf_eq_spelt, spelt]
  cases c <;> simp [spellings, Letter.short, Letter.char, List.lookup_cons]

/-- The walk comes to the options that come out. -/
theorem reads_argv (skip : Bool) (occs : List Occurrence) :
    reads skip (argv occs) = seen skip occs := by
  induction occs generalizing skip with
  | nil => cases skip <;> rfl
  | cons occ occs ih =>
    rw [argv, List.flatMap_cons, ← argv]
    cases skip with
    | false =>
      cases occ with
      | separate c val =>
        rw [Occurrence.args, List.cons_append, List.singleton_append, reads, List.headD_cons,
          seen]
        by_cases hc : c = .s
        · rw [if_pos hc, hc]
          exact ih false
        · rw [if_neg hc, readOf_short hc, ← ih]
          rfl
      | attached c first rest =>
        rw [Occurrence.args, List.singleton_append, reads, readOf_attached, seen, ← ih]
      | verbose =>
        have hread : readOf "-v".toList ((argv occs).headD []) = some .verbose := rfl
        rw [Occurrence.args, List.singleton_append, reads, hread, seen]
        exact congrArg (Read.verbose :: ·) (ih false)
    | true =>
      cases occ with
      | separate c val =>
        rw [Occurrence.args, List.cons_append, List.singleton_append, reads, reads,
          readOf_eq_spelt, seen, ← ih, ← ih]
      | attached c first rest => exact ih false
      | verbose => exact ih false

theorem seen_plain {occs : List Occurrence} (h : ∀ occ ∈ occs, Plain pyInt occ) :
    seen false occs = occs.map Occurrence.read := by
  induction occs with
  | nil => rfl
  | cons occ occs ih =>
    obtain ⟨hocc, hrest⟩ := List.forall_mem_cons.mp h
    rw [List.map_cons, ← ih hrest]
    cases occ with
    | separate c val => exact if_neg hocc.1
    | attached c first rest => exact hocc.elim
    | verbose => rfl

theorem lastReported_cons (c : Letter) (p : Text × Text) (reported : List (Text × Text)) :
    lastReported c (p :: reported) =
      (lastReported c reported).or (if c.short == p.1 then some p.2 else none) := by
  unfold lastReported
  rw [List.reverse_cons, List.lookup_append, List.lookup_cons, List.lookup_nil]
  cases c.short == p.1 <;> rfl

theorem short_inj {c k : Letter} : c.short = k.short ↔ c = k := by
  cases c <;> cases k <;> decide

theorem short_ne_verbose (c : Letter) : c.short ≠ "-v".toList := by
  cases c <;> decide

theorem lastRead_map (c : Letter) (occs : List Occurrence) :
    lastRead c (occs.map Occurrence.read) = lastReported c (occs.map Occurrence.reported) := by
  have hseparate : ∀ (k : Letter) (val : Text), valueOf c (.value k val) =
      if c.short == k.short then some val else none := by
    intro k val
    simp only [valueOf, beq_iff_eq, short_inj, eq_comm (a := k)]
  induction occs with
  | nil => rfl
  | cons occ occs ih =>
    rw [List.map_cons, List.map_cons, lastRead_cons, lastReported_cons, ih]
    congr 1
    cases occ with
    | separate k val => exact hseparate k val
    | attached k first rest => exact hseparate k (first :: rest)
    | verbose =>
      have hne : ¬ (c.short == Occurrence.verbose.reported.1) = true :=
        fun h => short_ne_verbose c (beq_iff_eq.mp h)
      rw [if_neg hne]
      rfl

theorem count_verbose_map (occs : List Occurrence) :
    (occs.map Occurrence.read).count .verbose =
      verboseCount (occs.map Occurrence.reported) := by
  rw [verboseCount, List.count, List.countP_map, List.countP_map]
  congr 1
  funext occ
  cases occ with
  | separate c val => exact (beq_eq_false_iff_ne.mpr (short_ne_verbose c)).symm
  | attached c first rest => exact (beq_eq_false_iff_ne.mpr (short_ne_verbose c)).symm
  | verbose => rfl

theorem agrees_of_plain {occs : List Occurrence} (h : ∀ occ ∈ occs, Plain pyInt occ) :
    Agrees pyInt (seen false occs) (occs.map Occurrence.reported) := by
  rw [seen_plain h]
  refine ⟨⟨?_, ?_⟩, fun c => by rw [lastRead_map], by rw [count_verbose_map]⟩
  · intro hhelp
    obtain ⟨occ, -, hread⟩ := List.mem_map.mp hhelp
    cases occ <;> exact absurd hread (by simp [Occurrence.read])
  · intro c val hvalue
    obtain ⟨occ, hocc, hread⟩ := List.mem_map.mp hvalue
    have hplain := h occ hocc
    cases occ with
    | separate k w =>
      obtain ⟨rfl, rfl⟩ := Read.value.inj hread
      exact hplain.2
    | attached k first rest => exact hplain.elim
    | verbose => exact absurd hread (by simp [Occurrence.read])

theorem lastReported_of_mem {c : Letter} {occs : List Occurrence}
    (h : ∃ occ ∈ occs, occ.letter = some c) :
    ∃ val, lastReported c (occs.map Occurrence.reported) = some val := by
  induction occs with
  | nil =>
    obtain ⟨occ, hocc, -⟩ := h
    exact absurd hocc List.not_mem_nil
  | cons occ occs ih =>
    rw [List.map_cons, lastReported_cons]
    cases hlast : lastReported c (occs.map Occurrence.reported) with
    | some val => exact ⟨val, rfl⟩
    | none =>
      obtain ⟨k, hk, hletter⟩ := h
      rcases List.mem_cons.mp hk with rfl | hk
      · cases k with
        | separate l val =>
          obtain rfl : l = c := Option.some.inj hletter
          exact ⟨val, by simp [Occurrence.reported]⟩
        | attached l first rest =>
          obtain rfl : l = c := Option.some.inj hletter
          exact ⟨first :: rest, by simp [Occurrence.reported]⟩
        | verbose => exact absurd hletter (by simp [Occurrence.letter])
      · obtain ⟨val, hval⟩ := ih ⟨k, hk, hletter⟩
        rw [hval] at hlast
        exact absurd hlast (by simp)

/-- No branch takes the scale. -/
theorem scale_unseen (skip : Bool) (occs : List Occurrence) :
    lastRead .s (seen skip occs) = none := by
  have hspelt : ∀ opt next r, spelt opt next = some r → valueOf .s r = none := by
    intro opt next r h
    obtain ⟨read, hread, rfl⟩ := Option.map_eq_some_iff.mp h
    have hall : ∀ p ∈ spellings, valueOf .s (p.2 next) = none := by
      simp [spellings, valueOf]
    obtain ⟨l, l', hl, -⟩ := List.lookup_eq_some_iff.mp hread
    exact hall (opt, read) (hl ▸ List.mem_append_right l List.mem_cons_self)
  induction occs generalizing skip with
  | nil => cases skip <;> rfl
  | cons occ occs ih =>
    cases skip with
    | false =>
      cases occ with
      | separate c val =>
        rw [seen]
        split
        · exact ih false
        · next hc => rw [lastRead_cons, ih false, valueOf, if_neg hc, Option.or_none]
      | attached c first rest => exact ih true
      | verbose => exact (lastRead_cons .s .verbose _).trans (by rw [ih false]; rfl)
    | true =>
      cases occ with
      | separate c val =>
        rw [seen]
        cases hread : spelt val ((argv occs).headD []) with
        | none => exact ih true
        | some r =>
          have hr := hspelt _ _ _ hread
          cases r
          all_goals exact (lastRead_cons .s _ _).trans (by rw [hr, Option.or_none, ih])
      | attached c first rest => exact ih false
      | verbose => exact ih false

/-- A sequence with a scale does not agree. -/
theorem not_agrees_scale {occs : List Occurrence}
    (h : ∃ occ ∈ occs, occ.letter = some .s) :
    ¬ Agrees pyInt (seen false occs) (occs.map Occurrence.reported) := by
  intro hagrees
  obtain ⟨val, hval⟩ := lastReported_of_mem h
  have hlast := hagrees.last .s
  rw [scale_unseen, hval] at hlast
  exact absurd hlast (by simp)

theorem mem_seen_separate {occs : List Occurrence}
    (hseparate : ∀ c first rest, .attached c first rest ∉ occs) {c : Letter} {val : Text}
    (h : .separate c val ∈ occs) (hc : c ≠ .s) : .value c val ∈ seen false occs := by
  induction occs with
  | nil => exact absurd h List.not_mem_nil
  | cons occ occs ih =>
    have hrest : ∀ c first rest, .attached c first rest ∉ occs :=
      fun c first rest hmem => hseparate c first rest (List.mem_cons_of_mem occ hmem)
    cases occ with
    | separate k w =>
      rw [seen]
      rcases List.mem_cons.mp h with heq | h
      · obtain ⟨rfl, rfl⟩ := Occurrence.separate.inj heq
        rw [if_neg hc]
        exact List.mem_cons_self
      · split
        · exact ih hrest h
        · exact List.mem_cons_of_mem _ (ih hrest h)
    | attached k first rest => exact absurd List.mem_cons_self (hseparate k first rest)
    | verbose =>
      rw [seen]
      rcases List.mem_cons.mp h with heq | h
      · exact absurd heq (by simp)
      · exact List.mem_cons_of_mem _ (ih hrest h)

/-- Without attached values only the plain sequences agree. -/
theorem plain_of_agrees {occs : List Occurrence}
    (hseparate : ∀ c first rest, .attached c first rest ∉ occs)
    (h : Agrees pyInt (seen false occs) (occs.map Occurrence.reported)) :
    ∀ occ ∈ occs, Plain pyInt occ := by
  intro occ hocc
  cases occ with
  | separate c val =>
    have hc : c ≠ .s := by
      rintro rfl
      exact not_agrees_scale ⟨_, hocc, rfl⟩ h
    exact ⟨hc, h.sound.2 c val (mem_seen_separate hseparate hocc hc)⟩
  | attached c first rest => exact hseparate c first rest hocc
  | verbose => trivial

/-- The walk does what `getopt` reports exactly if what it comes to does. -/
theorem processes_argv_iff (occs : List Occurrence) :
    Processes pyInt (argv occs) ↔
      Agrees pyInt (seen false occs) (occs.map Occurrence.reported) := by
  rw [← lastWins_final_iff, ← reads_argv]
  have hprocess : ∀ o o', processArgs pyInt (argv occs) o = .done o' ↔
      Sound pyInt (reads false (argv occs)) ∧ o' = final pyInt (reads false (argv occs)) o := by
    intro o o'
    rw [processArgs, getopt_argv]
    exact (iff_of_eq (by rw [walk_eq])).trans (execute_done_iff _ o o')
  constructor
  · rintro ⟨reported, hreported, hall⟩
    obtain rfl := Option.some.inj ((getopt_argv occs).symm.trans hreported)
    refine ⟨fun o => ?_, ?_⟩
    · obtain ⟨o', ho', hlast⟩ := hall o
      rwa [((hprocess o o').mp ho').2] at hlast
    · obtain ⟨o', ho', -⟩ := hall ⟨ERROR, fun _ => none⟩
      exact ((hprocess _ o').mp ho').1
  · rintro ⟨hall, hsound⟩
    exact ⟨_, getopt_argv occs, fun o => ⟨_, (hprocess o _).mpr ⟨hsound, rfl⟩, hall o⟩⟩

/-- With every value behind its option all is well exactly if there is no scale and every
interval is an integer, and with a scale nothing is. An attached value has the arguments behind
it read in another way, which must come to the same. -/
theorem processes_iff (occs : List Occurrence) :
    (Processes pyInt (argv occs) ↔
      Agrees pyInt (seen false occs) (occs.map Occurrence.reported)) ∧
    ((∀ c first rest, .attached c first rest ∉ occs) →
      (Processes pyInt (argv occs) ↔ ∀ occ ∈ occs, Plain pyInt occ)) ∧
    ((∃ occ ∈ occs, occ.letter = some .s) → ¬ Processes pyInt (argv occs)) := by
  refine ⟨processes_argv_iff occs, fun hseparate => ?_, fun hscale => ?_⟩
  · rw [processes_argv_iff]
    exact ⟨plain_of_agrees hseparate, agrees_of_plain⟩
  · rw [processes_argv_iff]
    exact not_agrees_scale hscale

/-- The attached value is not read, and the option behind it is taken for its value. -/
theorem attached_lost :
    getopt ["-ofoo".toList, "-v".toList] =
        some [("-o".toList, "foo".toList), ("-v".toList, [])] ∧
      processArgs (fun _ => none) ["-ofoo".toList, "-v".toList] ⟨ERROR, fun _ => none⟩ =
        .done ⟨ERROR, fun _ => none⟩ ∧
      ¬ Processes (fun _ => none) (argv [.attached .o 'f' "oo".toList, .verbose]) := by
  refine ⟨by decide, rfl, ?_⟩
  rintro ⟨reported, hreported, hall⟩
  obtain ⟨o', ho', hlast⟩ := hall ⟨ERROR, fun _ => none⟩
  obtain rfl : reported = [("-o".toList, "foo".toList), ("-v".toList, [])] :=
    Option.some.inj (hreported.symm.trans (by decide))
  obtain rfl : (⟨ERROR, fun _ => none⟩ : CmdOptions) = o' := Outcome.done.inj ho'
  exact absurd hlast.verbosity (by decide)

end PowerGuru.Python.Options
