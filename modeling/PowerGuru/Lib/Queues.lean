/-!
# Two parties with queues between them

Each party takes the first message of the queue in front of it and may put messages at the
end of the other queue. Which of them goes next is open. A step of one does not disturb
a step of the other, so all runs that come to an end have the same length and the same
end.
-/
namespace PowerGuru.Lib.Queues

/-! ## Runs of a relation -/

section
variable {σ : Type} (step : σ → σ → Prop)

/-- A run of so many steps. -/
inductive Runs : Nat → σ → σ → Prop
  | done (s : σ) : Runs 0 s s
  | more {n : Nat} {s t u : σ} (first : step s t) (rest : Runs n t u) : Runs (n + 1) s u

/-- Nothing follows. -/
def Final (s : σ) : Prop := ∀ t, ¬ step s t

/-- Two steps from one state lead to the same state, at once or with one step more each. -/
def Diamond : Prop := ∀ s t u, step s t → step s u → t = u ∨ ∃ v, step t v ∧ step u v

end

section
variable {σ : Type} {step : σ → σ → Prop} {n m : Nat} {s t u : σ}

theorem Runs.append (h : Runs step n s t) (h' : Runs step m t u) : Runs step (n + m) s u := by
  induction h with
  | done s =>
    rw [Nat.zero_add]
    exact h'
  | more first _ ih =>
    rw [Nat.add_right_comm]
    exact .more first (ih h')

/-- What every step keeps holds at the end of a run. -/
theorem Runs.keeps {P : σ → Prop} (hstep : ∀ s t, P s → step s t → P t) (h : Runs step n s t)
    (hs : P s) : P t := by
  induction h with
  | done s => exact hs
  | more first _ ih => exact ih (hstep _ _ hs first)

/-- A step that is possible can come first in a run to the end. -/
theorem Runs.strip (hd : Diamond step) (h : Runs step n s u) (hu : Final step u)
    (first : step s t) : ∃ m, n = m + 1 ∧ Runs step m t u := by
  induction h generalizing t with
  | done s => exact absurd first (hu t)
  | @more n s t' u first' rest ih =>
    rcases hd s t' t first' first with rfl | ⟨v, hv', hv⟩
    · exact ⟨n, rfl, rest⟩
    · obtain ⟨m, rfl, hm⟩ := ih hu hv'
      exact ⟨m + 1, rfl, .more hv hm⟩

/-- Where one run ends, every run can end, and there is no longer one. -/
theorem Runs.completes (hd : Diamond step) (h : Runs step m s u) (hu : Final step u)
    (h' : Runs step n s t) : n ≤ m ∧ Runs step (m - n) t u := by
  induction h' generalizing m with
  | done s => exact ⟨Nat.zero_le m, h⟩
  | more first rest ih =>
    obtain ⟨k, rfl, hk⟩ := h.strip hd hu first
    obtain ⟨hle, hrest⟩ := ih hk
    refine ⟨Nat.succ_le_succ hle, ?_⟩
    rw [Nat.succ_sub_succ]
    exact hrest

/-- Where a step leads on to a step, there is a run of every length. -/
theorem Runs.forever {P : σ → Prop} (hstep : ∀ s, P s → ∃ t, step s t ∧ P t) (hs : P s) (n : Nat) :
    ∃ t, Runs step n s t := by
  induction n generalizing s with
  | zero => exact ⟨s, .done s⟩
  | succ n ih =>
    obtain ⟨t, hst, ht⟩ := hstep s hs
    obtain ⟨u, hu⟩ := ih ht
    exact ⟨u, .more hst hu⟩

end

/-! ## The two parties -/

structure Net (α β μ : Type) where
  left : α
  right : β
  toLeft : List μ
  toRight : List μ

/-- Nothing is on its way. -/
def Net.Quiet {α β μ : Type} (net : Net α β μ) : Prop := net.toLeft = [] ∧ net.toRight = []

section
variable {α β μ : Type}
variable (hearLeft : α → μ → Option (α × List μ)) (hearRight : β → μ → Option (β × List μ))

/-- A party that does not survive its message takes no step. -/
inductive Step : Net α β μ → Net α β μ → Prop
  | left {a a' : α} {b : β} {msg : μ} {out toLeft toRight : List μ}
      (h : hearLeft a msg = some (a', out)) :
      Step ⟨a, b, msg :: toLeft, toRight⟩ ⟨a', b, toLeft, toRight ++ out⟩
  | right {a : α} {b b' : β} {msg : μ} {out toLeft toRight : List μ}
      (h : hearRight b msg = some (b', out)) :
      Step ⟨a, b, toLeft, msg :: toRight⟩ ⟨a, b', toLeft ++ out, toRight⟩

/-- Messages that one party gets, and what it sends on them. -/
inductive Hears {γ : Type} (hear : γ → μ → Option (γ × List μ)) : γ → List μ → γ → List μ → Prop
  | nil (c : γ) : Hears hear c [] c []
  | cons {c c' c'' : γ} {msg : μ} {msgs out outs : List μ} (h : hear c msg = some (c', out))
      (rest : Hears hear c' msgs c'' outs) : Hears hear c (msg :: msgs) c'' (out ++ outs)

end

section
variable {α β μ : Type}
variable {hearLeft : α → μ → Option (α × List μ)} {hearRight : β → μ → Option (β × List μ)}

theorem diamond : Diamond (Step hearLeft hearRight) := by
  intro s t u ht hu
  cases ht with
  | left h =>
    cases hu with
    | left h' =>
      rw [h, Option.some.injEq, Prod.mk.injEq] at h'
      obtain ⟨rfl, rfl⟩ := h'
      exact Or.inl rfl
    | right h' =>
      -- neither queue is empty, so what one appends is behind what the other takes
      exact Or.inr ⟨_, .right h', .left h⟩
  | right h =>
    cases hu with
    | left h' => exact Or.inr ⟨_, .left h', .right h⟩
    | right h' =>
      rw [h, Option.some.injEq, Prod.mk.injEq] at h'
      obtain ⟨rfl, rfl⟩ := h'
      exact Or.inl rfl

theorem Net.Quiet.final {net : Net α β μ} (h : net.Quiet) :
    Final (Step hearLeft hearRight) net := by
  intro t ht
  cases ht with
  | left => exact absurd h.1 (List.cons_ne_nil _ _)
  | right => exact absurd h.2 (List.cons_ne_nil _ _)

theorem Hears.append {γ : Type} {hear : γ → μ → Option (γ × List μ)} {c c' c'' : γ}
    {msgs msgs' outs outs' : List μ} (h : Hears hear c msgs c' outs)
    (h' : Hears hear c' msgs' c'' outs') :
    Hears hear c (msgs ++ msgs') c'' (outs ++ outs') := by
  induction h with
  | nil c => exact h'
  | cons h _ ih =>
    rw [List.append_assoc]
    exact .cons h (ih h')

/-- The left party hears what is in front of the rest. -/
theorem Hears.runs_left {a a' : α} {msgs outs : List μ} (h : Hears hearLeft a msgs a' outs) (b : β)
    (rest toRight : List μ) : Runs (Step hearLeft hearRight) msgs.length
      ⟨a, b, msgs ++ rest, toRight⟩ ⟨a', b, rest, toRight ++ outs⟩ := by
  induction h generalizing toRight with
  | nil c =>
    rw [List.append_nil]
    exact .done _
  | cons h _ ih =>
    rw [← List.append_assoc]
    exact .more (.left h) (ih _)

theorem Hears.runs_right {b b' : β} {msgs outs : List μ} (h : Hears hearRight b msgs b' outs)
    (a : α) (toLeft : List μ) : Runs (Step hearLeft hearRight) msgs.length ⟨a, b, toLeft, msgs⟩
      ⟨a, b', toLeft ++ outs, []⟩ := by
  induction h generalizing toLeft with
  | nil c =>
    rw [List.append_nil]
    exact .done _
  | cons h _ ih =>
    rw [← List.append_assoc]
    exact .more (.right h) (ih _)

/-- Only the left party has messages, and it does not survive the first of them. -/
theorem final_of_unheard {a : α} {b : β} {rest : List μ}
    (h : ∀ msg ∈ rest.head?, hearLeft a msg = none) :
    Final (Step hearLeft hearRight) ⟨a, b, rest, []⟩ := by
  intro t ht
  cases ht with
  | left hstep =>
    rw [h _ rfl] at hstep
    exact absurd hstep (by simp)

/-- Questions that get answers without further questions: every run is part of the one in which
first all are asked and then the answers are heard, up to one that is not survived. -/
theorem completes_of_answered {a a' : α} {b b' : β} {questions answers rest : List μ}
    (hb : Hears hearRight b questions b' (answers ++ rest))
    (ha : Hears hearLeft a answers a' []) (hrest : ∀ msg ∈ rest.head?, hearLeft a' msg = none)
    {n : Nat} {net : Net α β μ}
    (h : Runs (Step hearLeft hearRight) n ⟨a, b, [], questions⟩ net) :
    n ≤ questions.length + answers.length ∧
      Runs (Step hearLeft hearRight) (questions.length + answers.length - n) net
        ⟨a', b', rest, []⟩ := by
  have hall := (hb.runs_right a []).append (ha.runs_left b' rest [])
  exact hall.completes diamond (final_of_unheard hrest) h

/-- Answers with objections, in front of one that is not survived: every run has an end, and none
comes to where nothing is on its way. -/
theorem ends_of_unheard {a a' : α} {b b' b'' : β}
    {questions answers objections replies rest : List μ} {msg : μ}
    (hb : Hears hearRight b questions b' (answers ++ msg :: rest))
    (ha : Hears hearLeft a answers a' objections)
    (hobject : Hears hearRight b' objections b'' replies)
    (hno : hearLeft a' msg = none) {n : Nat} {net : Net α β μ}
    (h : Runs (Step hearLeft hearRight) n ⟨a, b, [], questions⟩ net) :
    n ≤ questions.length + answers.length + objections.length ∧ ¬ net.Quiet := by
  have hall := ((hb.runs_right a []).append (ha.runs_left b' (msg :: rest) [])).append
    (hobject.runs_right a' (msg :: rest))
  have hfinal : Final (Step hearLeft hearRight) ⟨a', b'', msg :: rest ++ replies, []⟩ := by
    refine final_of_unheard fun m hm => ?_
    rw [List.cons_append, List.head?_cons, Option.mem_some_iff] at hm
    rw [← hm]
    exact hno
  obtain ⟨hle, hrest⟩ := hall.completes diamond hfinal h
  refine ⟨hle, fun hquiet => ?_⟩
  generalize questions.length + answers.length + objections.length - n = k at hrest
  cases hrest with
  | done => exact absurd hquiet.1 (by simp)
  | more first => exact hquiet.final _ first

end

/-! ## Messages that are answered for ever -/

section
variable {α β γ μ : Type}

/-- A party whose state is right survives what is meant for it, stays so and says only what is
meant for the other. The flag marks the messages that get an answer with the flag. -/
def Speaks (hear : γ → μ → Option (γ × List μ)) (Right : γ → Prop) (In Out : Bool → μ → Prop) :
    Prop :=
  ∀ c b msg, Right c → In b msg → ∃ c' out, hear c msg = some (c', out) ∧ Right c' ∧
    (∀ o ∈ out, ∃ b', Out b' o) ∧ (b = true → ∃ o ∈ out, Out true o)

/-- It survives any number of them. -/
theorem Speaks.hears {hear : γ → μ → Option (γ × List μ)} {Right : γ → Prop}
    {In Out : Bool → μ → Prop} (h : Speaks hear Right In Out) {c : γ} (hc : Right c)
    {msgs : List μ} (hmsgs : ∀ msg ∈ msgs, ∃ b, In b msg) :
    ∃ c' outs, Hears hear c msgs c' outs ∧ Right c' ∧ ∀ o ∈ outs, ∃ b, Out b o := by
  induction msgs generalizing c with
  | nil => exact ⟨c, [], .nil c, hc, fun o ho => absurd ho List.not_mem_nil⟩
  | cons msg msgs ih =>
    obtain ⟨⟨b, hb⟩, hrest⟩ := List.forall_mem_cons.mp hmsgs
    obtain ⟨c', out, hstep, hc', hout, -⟩ := h c b msg hc hb
    obtain ⟨c'', outs, hears, hc'', houts⟩ := ih hc' hrest
    exact ⟨c'', out ++ outs, .cons hstep hears, hc'', List.forall_mem_append.mpr ⟨hout, houts⟩⟩

variable (RightL : α → Prop) (RightR : β → Prop) (ForL ForR : Bool → μ → Prop)

/-- Both parties are right and all that is on its way is meant for the party it goes to. -/
structure Spoken (net : Net α β μ) : Prop where
  left : RightL net.left
  right : RightR net.right
  toLeft : ∀ msg ∈ net.toLeft, ∃ b, ForL b msg
  toRight : ∀ msg ∈ net.toRight, ∃ b, ForR b msg

/-- A message with the flag is on its way. -/
def Live (net : Net α β μ) : Prop :=
  (∃ msg ∈ net.toLeft, ForL true msg) ∨ ∃ msg ∈ net.toRight, ForR true msg

end

section
variable {α β μ : Type}
variable {hearLeft : α → μ → Option (α × List μ)} {hearRight : β → μ → Option (β × List μ)}
variable {RightL : α → Prop} {RightR : β → Prop} {ForL ForR : Bool → μ → Prop}

theorem Live.not_quiet {net : Net α β μ} (h : Live ForL ForR net) : ¬ net.Quiet := by
  rintro ⟨hl, hr⟩
  rcases h with ⟨msg, hm, -⟩ | ⟨msg, hm, -⟩
  · rw [hl] at hm
    exact absurd hm List.not_mem_nil
  · rw [hr] at hm
    exact absurd hm List.not_mem_nil

variable (hL : Speaks hearLeft RightL ForL ForR) (hR : Speaks hearRight RightR ForR ForL)
include hL hR

theorem Spoken.step {s t : Net α β μ} (hs : Spoken RightL RightR ForL ForR s)
    (h : Step hearLeft hearRight s t) : Spoken RightL RightR ForL ForR t := by
  obtain ⟨hleft, hright, htoLeft, htoRight⟩ := hs
  cases h with
  | left h =>
    obtain ⟨hmsg, hrest⟩ := List.forall_mem_cons.mp htoLeft
    obtain ⟨b, hb⟩ := hmsg
    obtain ⟨a', out, he, ha', hout, -⟩ := hL _ b _ hleft hb
    rw [h, Option.some.injEq, Prod.mk.injEq] at he
    obtain ⟨rfl, rfl⟩ := he
    refine ⟨ha', hright, hrest, ?_⟩
    exact List.forall_mem_append.mpr ⟨htoRight, hout⟩
  | right h =>
    obtain ⟨hmsg, hrest⟩ := List.forall_mem_cons.mp htoRight
    obtain ⟨b, hb⟩ := hmsg
    obtain ⟨b', out, he, hb', hout, -⟩ := hR _ b _ hright hb
    rw [h, Option.some.injEq, Prod.mk.injEq] at he
    obtain ⟨rfl, rfl⟩ := he
    refine ⟨hleft, hb', ?_, hrest⟩
    exact List.forall_mem_append.mpr ⟨htoLeft, hout⟩

/-- The flagged message stays in its queue, or its answer goes into the other. -/
theorem Live.step {s t : Net α β μ} (hs : Spoken RightL RightR ForL ForR s)
    (hlive : Live ForL ForR s) (h : Step hearLeft hearRight s t) : Live ForL ForR t := by
  cases h with
  | left h =>
    rcases hlive with ⟨m, hm, hflag⟩ | ⟨m, hm, hflag⟩
    · rcases List.mem_cons.mp hm with rfl | hm
      · obtain ⟨a', out, he, -, -, hout⟩ := hL _ true _ hs.left hflag
        rw [h, Option.some.injEq, Prod.mk.injEq] at he
        obtain ⟨rfl, rfl⟩ := he
        obtain ⟨o, ho, hflag⟩ := hout rfl
        exact Or.inr ⟨o, List.mem_append_right _ ho, hflag⟩
      · exact Or.inl ⟨m, hm, hflag⟩
    · exact Or.inr ⟨m, List.mem_append_left _ hm, hflag⟩
  | right h =>
    rcases hlive with ⟨m, hm, hflag⟩ | ⟨m, hm, hflag⟩
    · exact Or.inl ⟨m, List.mem_append_left _ hm, hflag⟩
    · rcases List.mem_cons.mp hm with rfl | hm
      · obtain ⟨b', out, he, -, -, hout⟩ := hR _ true _ hs.right hflag
        rw [h, Option.some.injEq, Prod.mk.injEq] at he
        obtain ⟨rfl, rfl⟩ := he
        obtain ⟨o, ho, hflag⟩ := hout rfl
        exact Or.inl ⟨o, List.mem_append_right _ ho, hflag⟩
      · exact Or.inr ⟨m, hm, hflag⟩

/-- As long as something is on its way, one of the two can go on. -/
theorem Spoken.progress {s : Net α β μ} (hs : Spoken RightL RightR ForL ForR s)
    (hq : ¬ s.Quiet) : ∃ t, Step hearLeft hearRight s t := by
  obtain ⟨a, b, toLeft, toRight⟩ := s
  cases toLeft with
  | cons msg toLeft =>
    obtain ⟨flag, hflag⟩ := hs.toLeft msg List.mem_cons_self
    obtain ⟨a', out, he, -⟩ := hL a flag msg hs.left hflag
    exact ⟨_, .left he⟩
  | nil =>
    cases toRight with
    | nil => exact (hq ⟨rfl, rfl⟩).elim
    | cons msg toRight =>
      obtain ⟨flag, hflag⟩ := hs.toRight msg List.mem_cons_self
      obtain ⟨b', out, he, -⟩ := hR b flag msg hs.right hflag
      exact ⟨_, .right he⟩

/-- With a flagged message on its way there are runs of every length, and none of them ends
with empty queues. -/
theorem restless_of_live {s : Net α β μ} (hs : Spoken RightL RightR ForL ForR s)
    (hlive : Live ForL ForR s) :
    (∀ n, ∃ t, Runs (Step hearLeft hearRight) n s t) ∧
      ∀ n t, Runs (Step hearLeft hearRight) n s t → ¬ t.Quiet := by
  have hkeep : ∀ s t, Spoken RightL RightR ForL ForR s ∧ Live ForL ForR s →
      Step hearLeft hearRight s t → Spoken RightL RightR ForL ForR t ∧ Live ForL ForR t :=
    fun s t h hst => ⟨h.1.step hL hR hst, h.2.step hL hR h.1 hst⟩
  constructor
  · intro n
    have hnext : ∀ s, Spoken RightL RightR ForL ForR s ∧ Live ForL ForR s →
        ∃ t, Step hearLeft hearRight s t ∧ Spoken RightL RightR ForL ForR t ∧
          Live ForL ForR t := by
      intro s h
      obtain ⟨t, hst⟩ := h.1.progress hL hR h.2.not_quiet
      exact ⟨t, hst, hkeep s t h hst⟩
    exact Runs.forever hnext ⟨hs, hlive⟩ n
  · intro n t h
    exact (Runs.keeps hkeep h ⟨hs, hlive⟩).2.not_quiet

end

end PowerGuru.Lib.Queues
