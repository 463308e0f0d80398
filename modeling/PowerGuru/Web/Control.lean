import PowerGuru.Net.Exchange
import PowerGuru.Net.XmlBarrier

/-!
# `control.php`

The page keeps nothing between two visits but the buttons that it shows as checked. Each visit
sends the daemon one request, made of what the form of the visit before has posted.
-/
namespace PowerGuru.Web.Control

open Lib.Bytes Common Net Xml XmlText Messages Encodings NodeEffects Exchange
open RoundTrip XmlBarrier

/-! ## The form -/

/-- The groups of radio buttons that the page reads. -/
inductive Field where
  | toptag
  | status
  | meters
  | config
  | genconfig
  | gridconfig
  deriving DecidableEq, Repr

def Field.name : Field → List Byte
  | .toptag => bytes "toptag"
  | .status => bytes "status"
  | .meters => bytes "meters"
  | .config => bytes "config"
  | .genconfig => bytes "genconfig"
  | .gridconfig => bytes "gridconfig"

/-- What the page takes where nothing is posted. -/
def Field.default : Field → List Byte
  | .toptag => bytes "status"
  | .status => bytes "opmode"
  | .meters => bytes "poll"
  | .config | .genconfig | .gridconfig => []

/-- The value of a button, and the one that it has where it is shown as checked. -/
structure Button where
  value : List Byte
  checked : List Byte

def button (value : String) : Button := ⟨bytes value, bytes value⟩

/-- In the order of the page. One value is misspelt. -/
def Field.buttons : Field → List Button
  | .toptag => [button "status", button "meters", button "command", button "config"]
  | .status => [button "errormode", button "opmode", button "warningmode"]
  | .meters => [button "charge-amps", button "load-amps", button "pv-amps", button "pv-volts",
      button "daily-kwh", button "hertz", button "battery-volts",
      ⟨bytes "buy-amps", bytes "buya-mps"⟩, button "sell-amps", button "ac-volts-out",
      button "ac1-volts-in", button "ac2-volts-in", button "poll"]
  | .config => [button "generator", button "grid"]
  | .genconfig | .gridconfig => [button "buy", button "sell"]

/-- The buttons for a command. The page shows none of them as checked. -/
def commandButtons : List Button :=
  [button "generator", button "grid", button "relay", button "auxilary", button "battery",
    button "poll", button "inverter", button "charger"]

/-- `$_POST` and `$_GET`. -/
structure Submission where
  post : List (List Byte × List Byte)
  get : List (List Byte × List Byte)

def opts (s : Submission) (var default : List Byte) : List Byte :=
  let opt := (s.post.lookup var).getD []
  let opt := if opt = [] then (s.get.lookup var).getD [] else opt
  if opt = [] ∨ opt = bytes "on" then default else opt

/-- The variables of the page. -/
def values (s : Submission) (f : Field) : List Byte := opts s f.name f.default

/-- The buttons of a group as they are shown, with whether they are checked. -/
def shown (buttons : List Button) (current : List Byte) : List (List Byte × Bool) :=
  buttons.map fun b => if current = b.value then (b.checked, true) else (b.value, false)

/-- The numbers of the buttons that are pressed before the form is sent, the last of each group. -/
structure Clicks where
  field : Field → Option Nat
  command : Option Nat

/-- What a browser posts for a group. -/
def chosen (group : List (List Byte × Bool)) (click : Option Nat) : Option (List Byte) :=
  match click.bind fun i => group[i]? with
  | some b => some b.1
  | none => (group.reverse.find? fun b => b.2).map Prod.fst

def allFields : List Field := [.status, .meters, .config, .genconfig, .gridconfig, .toptag]

def posted (s : Submission) (clicks : Clicks) (f : Field) : Option (List Byte) :=
  chosen (shown f.buttons (values s f)) (clicks.field f)

/-- The form goes to the page itself, with no query. -/
def submit (s : Submission) (clicks : Clicks) : Submission where
  post :=
    (allFields.filterMap fun f => (posted s clicks f).map fun v => (f.name, v)) ++
      ((chosen (shown commandButtons []) clicks.command).map fun v =>
        (bytes "command", v)).toList ++
      [(bytes "send", bytes "Send")]
  get := []

/-! ## The request -/

/-- `$head`. -/
def head : List Byte := bytes "<powerguru version=\"0.3\">"

def requestCreate (top tag : List Byte) : List Byte :=
  head ++ bytes " " ++ (bytes "<" ++ top ++ bytes ">" ++ tag ++ bytes "</" ++ top ++ bytes ">" ++
    bytes "</powerguru>")

def configRequestCreate (top tag subtag : List Byte) : List Byte :=
  head ++ bytes " " ++ (bytes "<" ++ top ++ bytes "><" ++ tag ++ bytes "><" ++ subtag ++
    bytes "></" ++ subtag ++ bytes "></" ++ tag ++ bytes "></" ++ top ++ bytes ">" ++
    bytes "</powerguru>")

/-- `$tag`. Nothing is ever assigned to `$command`. -/
def tagOf (v : Field → List Byte) : List Byte :=
  if v .toptag = bytes "meters" then v .meters
  else if v .toptag = bytes "status" then v .status
  else if v .toptag = bytes "command" then []
  else if v .toptag = bytes "config" then v .config
  else []

/-- `$subtag` of a configuration. -/
def subtagOf (v : Field → List Byte) : List Byte :=
  if v .config = bytes "grid" then v .gridconfig
  else if v .config = bytes "generator" then v .genconfig
  else []

/-- What is sent behind the handshake; without a tag it is what the visitor asked to send. -/
def xmlmsg (s : Submission) : List Byte :=
  let v := values s
  if tagOf v = [] then opts s (bytes "xmlmsg") []
  else if v .toptag ≠ bytes "config" then requestCreate (v .toptag) (tagOf v)
  else configRequestCreate (v .toptag) (tagOf v) (subtagOf v)

/-! ## A session -/

/-- The first visit, from a link. -/
def start : Submission := ⟨[], []⟩

/-- The visits of a session, each with the form of the one before. -/
def session (s : Submission) : List Clicks → List Submission
  | [] => [s]
  | c :: cs => s :: session (submit s c) cs

/-- What the visitor last pressed. -/
abbrev Choice := Field → List Byte

def press (choice : Choice) (clicks : Clicks) : Choice := fun f =>
  match (clicks.field f).bind fun i => f.buttons[i]? with
  | some b => b.value
  | none => choice f

def choices (choice : Choice) : List Clicks → List Choice
  | [] => [choice]
  | c :: cs => choice :: choices (press choice c) cs

/-! ## From one visit to the next -/

def buyAmps : List Byte := bytes "buy-amps"

def buyaMps : List Byte := bytes "buya-mps"

theorem name_inj {f g : Field} (h : f.name = g.name) : f = g := by
  cases f <;> cases g <;> first | rfl | exact absurd h (by decide)

/-- No button posts a text that `opts` takes for none. -/
theorem button_text {f : Field} {b : Button} (hb : b ∈ f.buttons) :
    (b.value ≠ [] ∧ b.value ≠ bytes "on") ∧ b.checked ≠ [] ∧ b.checked ≠ bytes "on" := by
  have hall : ∀ b ∈ f.buttons, (b.value ≠ [] ∧ b.value ≠ bytes "on") ∧
      b.checked ≠ [] ∧ b.checked ≠ bytes "on" := by
    cases f <;> decide
  exact hall b hb

theorem button_checked {f : Field} {b : Button} (hb : b ∈ f.buttons) :
    b.checked = if f = .meters ∧ b.value = buyAmps then buyaMps else b.value := by
  have hall : ∀ b ∈ f.buttons,
      b.checked = if f = .meters ∧ b.value = buyAmps then buyaMps else b.value := by
    cases f <;> decide
  exact hall b hb

theorem lookup_posted {fields : List Field} {g : Field → Option (List Byte)} {f : Field}
    (hf : f ∈ fields ∨ g f = none) {rest : List (List Byte × List Byte)}
    (hrest : rest.lookup f.name = none) :
    ((fields.filterMap fun f => (g f).map fun v => (f.name, v)) ++ rest).lookup f.name = g f := by
  induction fields with
  | nil => rw [hf.resolve_left List.not_mem_nil, List.filterMap_nil, List.nil_append, hrest]
  | cons e fields ih =>
    cases he : g e with
    | none =>
      rw [List.filterMap_cons_none (by rw [he]; rfl)]
      apply ih
      rcases hf with hm | hnone
      · rcases List.mem_cons.mp hm with rfl | hm
        · exact Or.inr he
        · exact Or.inl hm
      · exact Or.inr hnone
    | some v =>
      rw [List.filterMap_cons_some (b := (e.name, v)) (by rw [he]; rfl), List.cons_append]
      by_cases hfe : f = e
      · rw [hfe, List.lookup_cons_self, he]
      · have hname : (f.name == e.name) = false := beq_eq_false_iff_ne.mpr (hfe ∘ name_inj)
        rw [List.lookup_cons, hname]
        refine ih (hf.imp_left fun hm => (List.mem_cons.mp hm).resolve_left hfe)

theorem chosen_pressed {buttons : List Button} {click : Option Nat} {b : Button}
    (h : (click.bind fun i => buttons[i]?) = some b) (current : List Byte) :
    chosen (shown buttons current) click =
      some (if current = b.value then b.checked else b.value) := by
  obtain ⟨i, rfl, hb⟩ := Option.bind_eq_some_iff.mp h
  rw [chosen, Option.bind_some, shown, List.getElem?_map, hb, Option.map_some]
  split_ifs
  · rfl
  · rfl

theorem chosen_kept {buttons : List Button} {click : Option Nat}
    (h : (click.bind fun i => buttons[i]?) = none) (current : List Byte) :
    chosen (shown buttons current) click =
      (buttons.reverse.find? fun b => decide (current = b.value)).map Button.checked := by
  have hnone : (click.bind fun i => (shown buttons current)[i]?) = none := by
    cases click with
    | none => rfl
    | some i =>
      rw [Option.bind_some] at h ⊢
      rw [shown, List.getElem?_map, h, Option.map_none]
  rw [chosen, hnone]
  dsimp only
  rw [shown, ← List.map_reverse]
  generalize buttons.reverse = bs
  induction bs with
  | nil => rfl
  | cons b bs ih =>
    by_cases hb : current = b.value
    · simp [hb]
    · simpa [List.find?_cons, hb] using ih

/-- The page takes what the browser posts for the group, or else its default. -/
theorem values_submit (s : Submission) (c : Clicks) (f : Field) :
    values (submit s c) f =
      if (posted s c f).getD [] = [] ∨ (posted s c f).getD [] = bytes "on" then f.default
      else (posted s c f).getD [] := by
  have hall : f ∈ allFields := by cases f <;> decide
  have hnames : (f.name == bytes "command") = false ∧ (f.name == bytes "send") = false := by
    cases f <;> decide
  have hlookup : (submit s c).post.lookup f.name = posted s c f := by
    rw [submit, List.append_assoc]
    apply lookup_posted (Or.inl hall)
    cases chosen (shown commandButtons []) c.command with
    | none => simp [List.lookup_cons, hnames]
    | some v => simp [List.lookup_cons, hnames]
  have hget : (submit s c).get = [] := rfl
  have hsame : (if (posted s c f).getD [] = [] then [] else (posted s c f).getD []) =
      (posted s c f).getD [] := by
    split_ifs with h
    · exact h.symm
    · rfl
  rw [values, opts, hlookup, hget]
  simp only [List.lookup_nil, Option.getD_none, hsame]

/-- The group has its default, or a button of it was pressed. -/
def Known (f : Field) (choice : Choice) : Prop :=
  choice f = f.default ∨ ∃ b ∈ f.buttons, b.value = choice f

theorem Known.press {f : Field} {choice : Choice} (h : Known f choice) (c : Clicks) :
    Known f (press choice c) := by
  unfold Known Control.press
  split
  · next b hb =>
    obtain ⟨i, -, hi⟩ := Option.bind_eq_some_iff.mp hb
    exact Or.inr ⟨b, List.mem_of_getElem? hi, rfl⟩
  · exact h

/-- What is pressed is what the page takes, unless it is the misspelt button and shown as
checked. -/
theorem values_press {s : Submission} {choice : Choice} {f : Field} (hk : Known f choice)
    (hs : values s f = choice f) (c : Clicks) :
    values (submit s c) f =
      if f = .meters ∧ choice f = buyAmps ∧ press choice c f = buyAmps then buyaMps
      else press choice c f := by
  -- what is posted where this button was pressed, or is shown as checked
  have hvalue : ∀ b ∈ f.buttons, ∀ v, v = b.value ∨ v = b.checked →
      (if (some v).getD [] = [] ∨ (some v).getD [] = bytes "on" then f.default
        else (some v).getD []) = v := by
    intro b hb v hv
    obtain ⟨hplain, hchecked⟩ := button_text hb
    rw [Option.getD_some, if_neg]
    rcases hv with rfl | rfl
    · exact not_or.mpr hplain
    · exact not_or.mpr hchecked
  rw [values_submit, posted, hs, Control.press]
  cases hclick : (c.field f).bind fun i => f.buttons[i]? with
  | some b =>
    obtain ⟨i, -, hi⟩ := Option.bind_eq_some_iff.mp hclick
    have hb : b ∈ f.buttons := List.mem_of_getElem? hi
    rw [chosen_pressed hclick, hvalue b hb _ (by split_ifs <;> simp)]
    by_cases hc : choice f = b.value
    · rw [if_pos hc, button_checked hb, hc]
      simp only [and_self]
    · rw [if_neg hc, if_neg]
      rintro ⟨-, hbuy, hbuy'⟩
      exact hc (hbuy.trans hbuy'.symm)
  | none =>
    rw [chosen_kept hclick]
    cases hfind : f.buttons.reverse.find? fun b => decide (choice f = b.value) with
    | some b =>
      have hb : b ∈ f.buttons := List.mem_reverse.mp (List.mem_of_find?_eq_some hfind)
      have hc := List.find?_some hfind
      rw [decide_eq_true_eq] at hc
      rw [Option.map_some, hvalue b hb _ (Or.inr rfl), button_checked hb, hc]
      simp only [and_self]
    | none =>
      have hno : ∀ b ∈ f.buttons, choice f ≠ b.value := by
        intro b hb
        have hn := List.find?_eq_none.mp hfind b (List.mem_reverse.mpr hb)
        simpa using hn
      have hdefault : choice f = f.default := by
        rcases hk with hd | ⟨b, hb, hv⟩
        · exact hd
        · exact absurd hv.symm (hno b hb)
      rw [Option.map_none, Option.getD_none, if_pos (Or.inl rfl), if_neg, hdefault]
      rintro ⟨rfl, hbuy, -⟩
      exact hno ⟨buyAmps, buyaMps⟩ (by simp [Field.buttons, buyAmps, buyaMps]) hbuy

/-! ## A whole session -/

theorem session_eq (s : Submission) (cs : List Clicks) : ∃ rest, session s cs = s :: rest := by
  cases cs with
  | nil => exact ⟨[], rfl⟩
  | cons c cs => exact ⟨_, rfl⟩

theorem choices_eq (choice : Choice) (cs : List Clicks) :
    ∃ rest, choices choice cs = choice :: rest := by
  cases cs with
  | nil => exact ⟨[], rfl⟩
  | cons c cs => exact ⟨_, rfl⟩

theorem values_start : values start = Field.default := by
  funext f
  cases f <;> decide

/-- The visitor wants the misspelt reading twice in a row. -/
def Repeats (a b : Choice) : Prop := a .meters = buyAmps ∧ b .meters = buyAmps

theorem session_stands_iff {s : Submission} {choice : Choice} (hk : ∀ f, Known f choice)
    (hs : values s = choice) (cs : List Clicks) :
    (session s cs).map values = choices choice cs ↔
      (choices choice cs).IsChain fun a b => ¬ Repeats a b := by
  induction cs generalizing s choice with
  | nil => simp [session, choices, hs]
  | cons c cs ih =>
    obtain ⟨rest, hrest⟩ := choices_eq (press choice c) cs
    have hchain : (choices choice (c :: cs)).IsChain (fun a b => ¬ Repeats a b) ↔
        ¬ Repeats choice (press choice c) ∧
          (choices (press choice c) cs).IsChain fun a b => ¬ Repeats a b := by
      rw [choices, hrest, List.isChain_cons_cons]
    rw [hchain, session, choices, List.map_cons, List.cons.injEq]
    by_cases hr : Repeats choice (press choice c)
    · have hmeters := values_press (hk .meters) (congrFun hs .meters) c
      rw [if_pos ⟨rfl, hr⟩] at hmeters
      refine iff_of_false ?_ fun h => h.1 hr
      rintro ⟨-, hsame⟩
      obtain ⟨rest', hrest'⟩ := session_eq (submit s c) cs
      rw [hrest', hrest, List.map_cons, List.cons.injEq] at hsame
      rw [congrFun hsame.1 .meters, hr.2] at hmeters
      exact absurd hmeters (by decide)
    · have hnext : values (submit s c) = press choice c := by
        funext f
        rw [values_press (hk f) (congrFun hs f) c, if_neg]
        rintro ⟨rfl, hbuy⟩
        exact hr hbuy
      rw [ih (fun f => (hk f).press c) hnext]
      simp [hs, hr]

/-- In all other groups it stands whatever is pressed. -/
theorem session_pressed {s : Submission} {choice : Choice}
    (hk : ∀ f ≠ .meters, Known f choice ∧ values s f = choice f) (cs : List Clicks) :
    List.Forall₂ (fun s choice => ∀ f ≠ Field.meters, values s f = choice f) (session s cs)
      (choices choice cs) := by
  induction cs generalizing s choice with
  | nil => exact .cons (fun f hf => (hk f hf).2) .nil
  | cons c cs ih =>
    refine .cons (fun f hf => (hk f hf).2) (ih ?_)
    intro f hf
    obtain ⟨hknown, hsame⟩ := hk f hf
    refine ⟨hknown.press c, ?_⟩
    rw [values_press hknown hsame, if_neg fun h => hf h.1]

/-- What the visitor last pressed stands from visit to visit if and only if the current that is
bought is never wanted twice in a row. -/
theorem choices_stand_iff (cs : List Clicks) :
    (session start cs).map values = choices Field.default cs ↔
      (choices Field.default cs).IsChain fun a b => ¬ Repeats a b :=
  session_stands_iff (fun _ => Or.inl rfl) values_start cs

end PowerGuru.Web.Control
