import PowerGuru.Lib.Numeral

/-!
# Lists of SQL literals

A text in quotes ends at the first quote that is not doubled; nothing else is
special in it. A row that writes its texts between quotes as they are is therefore
read back exactly when none of them holds a quote.
-/
namespace PowerGuru.Lib.SqlLiteral

open Bytes Strtol Numeral

def quote : Byte := 39
def close : Byte := 41

inductive Value where
  | text (s : List Byte)
  | number (q : Rat)
  deriving DecidableEq

/-! ## The grammar -/

/-- A text, from behind its opening quote. -/
def readText : List Byte → Option (List Byte × List Byte)
  | [] => none
  | [b] => if b = quote then some ([], []) else none
  | b :: c :: s =>
      if b = quote then
        if c = quote then (readText s).map fun p => (quote :: p.1, p.2) else some ([], c :: s)
      else (readText (c :: s)).map fun p => (b :: p.1, p.2)

/-- What a numeral does not go beyond. -/
def endsToken (b : Byte) : Bool := isSpace b || b == comma || b == close

def readLiteral (s : List Byte) : Option (Value × List Byte) :=
  if s.head? = some quote then (readText s.tail).map fun p => (.text p.1, p.2)
  else (readNumber (s.takeWhile fun b => !endsToken b)).map fun q =>
    (.number q, s.dropWhile fun b => !endsToken b)

/-- At most this many literals, from behind the opening parenthesis, and the text behind
the closing one. -/
def readTuple : Nat → List Byte → Option (List Value × List Byte)
  | 0, _ => none
  | n + 1, s =>
      match readLiteral (s.dropWhile isSpace) with
      | none => none
      | some (v, s) =>
          match s.dropWhile isSpace with
          | [] => none
          | b :: s =>
              if b = comma then (readTuple n s).map fun p => (v :: p.1, p.2)
              else if b = close then some ([v], s)
              else none

/-- Every literal is followed by a comma or the parenthesis, so there are no more of them
than bytes. -/
def readValues (s : List Byte) : Option (List Value × List Byte) := readTuple s.length s

/-! ## Texts -/

/-- The text as a literal has to spell it. -/
def escape : List Byte → List Byte
  | [] => []
  | b :: s => if b = quote then quote :: quote :: escape s else b :: escape s

theorem escape_quote (s : List Byte) : escape (quote :: s) = quote :: quote :: escape s :=
  if_pos rfl

theorem escape_cons {b : Byte} (h : b ≠ quote) (s : List Byte) :
    escape (b :: s) = b :: escape s := if_neg h

theorem mem_escape {b : Byte} {s : List Byte} (h : b ∈ s) : b ∈ escape s := by
  induction s with
  | nil => exact absurd h List.not_mem_nil
  | cons c s ih =>
    by_cases hc : c = quote
    · rw [hc, escape_quote]
      rcases List.mem_cons.mp h with rfl | hs
      · simp [hc]
      · simp [ih hs]
    · rw [escape_cons hc]
      rcases List.mem_cons.mp h with rfl | hs
      · exact List.mem_cons_self
      · exact List.mem_cons_of_mem c (ih hs)

theorem readText_escape (v : List Byte) {r : List Byte} (hr : r.head? ≠ some quote) :
    readText (escape v ++ quote :: r) = some (v, r) := by
  induction v with
  | nil =>
    cases r with
    | nil => simp [escape, readText]
    | cons c r =>
      have hc : c ≠ quote := fun he => hr (by rw [he, List.head?_cons])
      simp [escape, readText, hc]
  | cons b v ih =>
    by_cases hb : b = quote
    · rw [hb, escape_quote]
      simp [readText, ih]
    · rw [escape_cons hb]
      cases hv : escape v ++ quote :: r with
      | nil => simp at hv
      | cons c s => rw [List.cons_append, hv, readText, if_neg hb, ← hv, ih]; rfl

theorem escape_of_readText {s v r : List Byte} (h : readText s = some (v, r)) :
    s = escape v ++ quote :: r ∧ r.head? ≠ some quote := by
  fun_induction readText s generalizing v with
  | case1 => exact absurd h (by simp)
  | case2 =>
    obtain ⟨rfl, rfl⟩ : [] = v ∧ [] = r := by simpa using h
    simp [escape]
  | case3 b hb => exact absurd h (by simp)
  | case4 s ih =>
    obtain ⟨⟨w, r⟩, hw, he⟩ := Option.map_eq_some_iff.mp h
    obtain ⟨rfl, rfl⟩ := Prod.mk.inj he
    obtain ⟨rfl, hr⟩ := ih hw
    exact ⟨by rw [escape_quote]; rfl, hr⟩
  | case5 c s hc =>
    obtain ⟨rfl, rfl⟩ : [] = v ∧ c :: s = r := by simpa using h
    exact ⟨rfl, by simpa using hc⟩
  | case6 b c s hb ih =>
    obtain ⟨⟨w, r⟩, hw, he⟩ := Option.map_eq_some_iff.mp h
    obtain ⟨rfl, rfl⟩ := Prod.mk.inj he
    obtain ⟨hs, hr⟩ := ih hw
    exact ⟨by rw [escape_cons hb, hs]; rfl, hr⟩

theorem readText_iff {s v r : List Byte} :
    readText s = some (v, r) ↔ s = escape v ++ quote :: r ∧ r.head? ≠ some quote := by
  constructor
  · exact escape_of_readText
  · intro h
    obtain ⟨rfl, hr⟩ := h
    exact readText_escape v hr

/-- The spelling of a text with quotes falls behind the bare text and cannot catch up. -/
theorem behind {s tail r : List Byte} {j : Nat}
    (h : s ++ quote :: tail = List.replicate (j+1) quote ++ escape s ++ quote :: r) :
    tail.head? = some quote := by
  induction s generalizing j with
  | nil =>
    have ht : tail = List.replicate j quote ++ quote :: r := by
      simpa [List.replicate_succ, escape] using h
    cases j <;> simp [ht, List.replicate_succ]
  | cons b s ih =>
    obtain ⟨rfl, hs⟩ : b = quote ∧ s ++ quote :: tail =
        List.replicate j quote ++ escape (b :: s) ++ quote :: r := by
      simpa [List.replicate_succ] using h
    refine ih (j := j + 1) ?_
    rw [hs, escape_quote, List.replicate_succ', List.replicate_succ']
    simp

theorem bare_eq_escape_iff {s tail r : List Byte} (ht : tail.head? ≠ some quote) :
    s ++ quote :: tail = escape s ++ quote :: r ↔ quote ∉ s ∧ r = tail := by
  induction s with
  | nil => simp [escape, eq_comm]
  | cons b s ih =>
    by_cases hb : b = quote
    · have hne : ¬ (b :: s ++ quote :: tail = escape (b :: s) ++ quote :: r) := by
        intro h
        rw [hb, escape_quote] at h
        exact ht (behind (j := 0) (by simpa using h))
      exact iff_of_false hne fun h => h.1 (by simp [hb])
    · simp [escape_cons hb, ih, Ne.symm hb]

/-- A text between quotes as it is. -/
theorem readText_bare_iff {s tail r : List Byte} (ht : tail.head? ≠ some quote) :
    readText (s ++ quote :: tail) = some (s, r) ↔ quote ∉ s ∧ r = tail := by
  rw [readText_iff, bare_eq_escape_iff ht]
  constructor
  · intro h
    exact h.1
  · intro h
    exact ⟨h, by rw [h.2]; exact ht⟩

/-! ## Rows -/

/-- What is written for a value: a text between quotes, or a token as it is. -/
inductive Field where
  | text (s : List Byte)
  | bare (token : List Byte) (value : Value)

def Field.written : Field → List Byte
  | .text s => quote :: (s ++ [quote])
  | .bare token _ => token

def Field.value : Field → Value
  | .text s => .text s
  | .bare _ value => value

/-- The literal stands for the value. -/
def Field.Safe : Field → Prop
  | .text s => quote ∉ s
  | .bare token value => (readNumber token).map Value.number = some value

/-- A token has no quote in front and nothing in it that would end it. -/
def Field.Plain : Field → Prop
  | .text _ => True
  | .bare token _ =>
      token ≠ [] ∧ token.head? ≠ some quote ∧ ∀ b ∈ token, endsToken b = false

@[simp] theorem Field.plain_text (s : List Byte) : (Field.text s).Plain := trivial

@[simp] theorem Field.safe_text (s : List Byte) : (Field.text s).Safe ↔ quote ∉ s := Iff.rfl

def joined (fs : List Field) : List Byte := [comma, 32].intercalate (fs.map Field.written)

theorem joined_cons (f g : Field) (fs : List Field) :
    joined (f :: g :: fs) = f.written ++ comma :: 32 :: joined (g :: fs) := by
  simp [joined, List.intercalate]

theorem joined_singleton (f : Field) : joined [f] = f.written := by
  simp [joined, List.intercalate]

/-- Behind every value stands something that ends a token. -/
def Ended (rest : List Byte) : Prop := ∃ b bs, rest = b :: bs ∧ endsToken b = true

theorem Ended.head?_ne {rest : List Byte} (h : Ended rest) : rest.head? ≠ some quote := by
  obtain ⟨b, bs, rfl, hb⟩ := h
  intro he
  obtain rfl : b = quote := by simpa using he
  exact absurd hb (by decide)

theorem dropWhile_blanks {lead : List Byte} (hl : lead.all isSpace = true) {f : Field}
    (hp : f.Plain) (rest : List Byte) :
    (lead ++ (f.written ++ rest)).dropWhile isSpace = f.written ++ rest := by
  rw [List.dropWhile_append_of_pos (List.all_eq_true.mp hl)]
  cases f with
  | text s => rfl
  | bare token value =>
    obtain ⟨hne, -, hplain⟩ := hp
    obtain ⟨b, token, rfl⟩ := List.exists_cons_of_ne_nil hne
    have hb : isSpace b = false := by
      have he := hplain b List.mem_cons_self
      simp only [endsToken, Bool.or_eq_false_iff] at he
      exact he.1.1
    simp [Field.written, hb]

theorem takeWhile_token {token rest : List Byte} (ht : ∀ b ∈ token, endsToken b = false)
    (hr : Ended rest) :
    (token ++ rest).takeWhile (fun b => !endsToken b) = token ∧
      (token ++ rest).dropWhile (fun b => !endsToken b) = rest := by
  have hall : ∀ b ∈ token, (!endsToken b) = true := fun b hb => by simp [ht b hb]
  obtain ⟨b, bs, rfl, hb⟩ := hr
  rw [List.takeWhile_append_of_pos hall, List.dropWhile_append_of_pos hall]
  simp [hb]

/-- One literal is read back as its value exactly when it is safe. -/
theorem readLiteral_iff {f : Field} (hp : f.Plain) {rest r : List Byte} (hr : Ended rest) :
    readLiteral (f.written ++ rest) = some (f.value, r) ↔ f.Safe ∧ r = rest := by
  cases f with
  | text s =>
    have htext : readLiteral ((Field.text s).written ++ rest) =
        (readText (s ++ quote :: rest)).map fun p => (Value.text p.1, p.2) := by
      simp [readLiteral, Field.written]
    have hiff := readText_bare_iff (s := s) (r := r) hr.head?_ne
    rw [htext, Option.map_eq_some_iff, Field.Safe, Field.value, ← hiff]
    constructor
    · intro h
      obtain ⟨⟨v, r'⟩, hread, he⟩ := h
      obtain ⟨rfl, rfl⟩ : v = s ∧ r' = r := by simpa using he
      exact hread
    · intro h
      exact ⟨(s, r), h, rfl⟩
  | bare token value =>
    obtain ⟨hne, hquote, hplain⟩ := hp
    obtain ⟨htake, hdrop⟩ := takeWhile_token hplain hr
    have hhead : (token ++ rest).head? ≠ some quote := by
      rwa [List.head?_append_of_ne_nil _ hne]
    have htoken : readLiteral (token ++ rest) =
        (readNumber token).map fun q => (Value.number q, rest) := by
      rw [readLiteral, if_neg hhead, htake, hdrop]
    rw [Field.written, htoken, Field.Safe, Field.value]
    cases readNumber token with
    | none => simp
    | some q => simp [eq_comm]

theorem readTuple_head {n : Nat} {s r : List Byte} {v : Value} {vs : List Value}
    (h : readTuple (n+1) s = some (v :: vs, r)) :
    ∃ t, readLiteral (s.dropWhile isSpace) = some (v, t) := by
  rw [readTuple] at h
  split at h
  · exact absurd h (by simp)
  · next w t hlit =>
    split at h
    · exact absurd h (by simp)
    · split at h
      · obtain ⟨p, -, hp⟩ := Option.map_eq_some_iff.mp h
        obtain ⟨⟨rfl, -⟩, -⟩ : (w = v ∧ _) ∧ _ := by simpa using hp
        exact ⟨t, hlit⟩
      · split at h
        · obtain ⟨⟨rfl, -⟩, -⟩ : (w = v ∧ _) ∧ _ := by simpa using h
          exact ⟨t, hlit⟩
        · exact absurd h (by simp)

theorem readTuple_more {n : Nat} {s t : List Byte} {v : Value}
    (h : readLiteral (s.dropWhile isSpace) = some (v, comma :: t)) :
    readTuple (n+1) s = (readTuple n t).map fun p => (v :: p.1, p.2) := by
  have hc : (comma :: t).dropWhile isSpace = comma :: t := rfl
  rw [readTuple, h]
  simp only [hc, if_true]

theorem readTuple_last {n : Nat} {s trail t : List Byte} {v : Value}
    (ht : trail.all isSpace = true)
    (h : readLiteral (s.dropWhile isSpace) = some (v, trail ++ close :: t)) :
    readTuple (n+1) s = some ([v], t) := by
  have hc : (trail ++ close :: t).dropWhile isSpace = close :: t := by
    rw [List.dropWhile_append_of_pos (List.all_eq_true.mp ht)]
    rfl
  have hne : close ≠ comma := by decide
  rw [readTuple, h]
  simp only [hc, if_neg hne, if_true]

theorem ended_trail {trail : List Byte} (ht : trail.all isSpace = true) (t : List Byte) :
    Ended (trail ++ close :: t) := by
  cases trail with
  | nil => exact ⟨close, t, rfl, by decide⟩
  | cons b bs =>
    have hb : isSpace b = true := List.all_eq_true.mp ht b List.mem_cons_self
    exact ⟨b, bs ++ close :: t, rfl, by simp [endsToken, hb]⟩

theorem readTuple_spoilt {f : Field} (hp : f.Plain) (hs : ¬ f.Safe) {lead rest : List Byte}
    (hl : lead.all isSpace = true) (hr : Ended rest) {n : Nat} {vs : List Value} {r : List Byte} :
    readTuple (n+1) (lead ++ (f.written ++ rest)) ≠ some (f.value :: vs, r) := by
  intro h
  obtain ⟨t, hlit⟩ := readTuple_head h
  rw [dropWhile_blanks hl hp] at hlit
  exact hs ((readLiteral_iff hp hr).mp hlit).1

theorem ended_comma (t : List Byte) : Ended (comma :: t) := ⟨comma, t, rfl, by decide⟩

/-- A row that goes on begins with a field's value exactly when the field is safe and the
rest of the row is read. -/
theorem readTuple_step {f : Field} (hp : f.Plain) {lead : List Byte} (hl : lead.all isSpace = true)
    {n : Nat} {t r : List Byte} {vs : List Value} :
    readTuple (n+1) (lead ++ (f.written ++ comma :: t)) = some (f.value :: vs, r) ↔
      f.Safe ∧ readTuple n t = some (vs, r) := by
  by_cases hs : f.Safe
  · have hlit := (readLiteral_iff hp (ended_comma t)).mpr ⟨hs, rfl⟩
    rw [readTuple_more (by rw [dropWhile_blanks hl hp]; exact hlit), and_iff_right hs,
      Option.map_eq_some_iff]
    constructor
    · intro h
      obtain ⟨⟨vs', r'⟩, hrest, he⟩ := h
      obtain ⟨rfl, rfl⟩ : vs' = vs ∧ r' = r := by simpa using he
      exact hrest
    · intro h
      exact ⟨_, h, rfl⟩
  · exact iff_of_false (readTuple_spoilt hp hs hl (ended_comma t)) fun h => hs h.1

theorem readTuple_pos {n : Nat} {s : List Byte} {p : List Value × List Byte}
    (h : readTuple n s = some p) : ∃ m, n = m + 1 := by
  cases n with
  | zero => exact absurd h (by simp [readTuple])
  | succ m => exact ⟨m, rfl⟩

theorem readTuple_blank (n : Nat) (s : List Byte) : readTuple n (32 :: s) = readTuple n s := by
  have hb : (32 :: s).dropWhile isSpace = s.dropWhile isSpace := rfl
  cases n with
  | zero => rfl
  | succ n => rw [readTuple, readTuple, hb]

/-- Fields with more to come. -/
def ahead (fs : List Field) (t : List Byte) : List Byte :=
  fs.foldr (fun f s => f.written ++ comma :: 32 :: s) t

@[simp] theorem ahead_nil (t : List Byte) : ahead [] t = t := rfl

@[simp] theorem ahead_cons (f : Field) (fs : List Field) (t : List Byte) :
    ahead (f :: fs) t = f.written ++ comma :: 32 :: ahead fs t := rfl

theorem ahead_append (fs : List Field) (t : List Byte) : ahead fs t = ahead fs [] ++ t := by
  induction fs with
  | nil => rfl
  | cons f fs ih => rw [ahead_cons, ahead_cons, ih]; simp

/-- A row that begins with the values of some fields goes on with the rest behind them. -/
theorem readTuple_skip {fs : List Field} (hp : ∀ g ∈ fs, g.Plain) {n : Nat} {t r : List Byte}
    {vs : List Value}
    (h : readTuple n (ahead fs t) = some (fs.map Field.value ++ vs, r)) :
    ∃ m, readTuple m t = some (vs, r) := by
  induction fs generalizing n with
  | nil => exact ⟨n, h⟩
  | cons f fs ih =>
    obtain ⟨m, rfl⟩ := readTuple_pos h
    have hblank : ([] : List Byte).all isSpace = true := rfl
    have hrest := ((readTuple_step (hp f List.mem_cons_self) hblank).mp h).2
    rw [readTuple_blank] at hrest
    exact ih (fun g hg => hp g (List.mem_cons_of_mem f hg)) hrest

/-- The literal ends where the field does, whatever it says. -/
def Field.Whole : Field → Prop
  | .text s => quote ∉ s
  | .bare _ _ => True

theorem readLiteral_rest {f : Field} (hp : f.Plain) (hw : f.Whole) {rest r : List Byte} {v : Value}
    (hr : Ended rest) (h : readLiteral (f.written ++ rest) = some (v, r)) : r = rest := by
  cases f with
  | text s =>
    have hread := (readLiteral_iff hp hr).mpr ⟨hw, rfl⟩
    rw [hread] at h
    exact (Prod.mk.inj (Option.some.inj h)).2.symm
  | bare token value =>
    obtain ⟨hne, hquote, hplain⟩ := hp
    obtain ⟨htake, hdrop⟩ := takeWhile_token hplain hr
    have hhead : (token ++ rest).head? ≠ some quote := by
      rwa [List.head?_append_of_ne_nil _ hne]
    rw [Field.written, readLiteral, if_neg hhead, htake, hdrop] at h
    obtain ⟨q, -, he⟩ := Option.map_eq_some_iff.mp h
    exact (Prod.mk.inj he).2.symm

/-- Whatever a row says in front, it is read on behind the fields there. -/
theorem readTuple_behind {fs : List Field} (hp : ∀ g ∈ fs, g.Plain ∧ g.Whole) {n : Nat}
    {t r : List Byte} {vs : List Value} (h : readTuple n (ahead fs t) = some (vs, r)) :
    ∃ us ws m, vs = us ++ ws ∧ us.length = fs.length ∧ readTuple m t = some (ws, r) := by
  induction fs generalizing n vs with
  | nil => exact ⟨[], vs, n, rfl, rfl, h⟩
  | cons f fs ih =>
    obtain ⟨hf, hfs⟩ := List.forall_mem_cons.mp hp
    obtain ⟨m, rfl⟩ := readTuple_pos h
    have hdrop := dropWhile_blanks (show ([] : List Byte).all isSpace = true from rfl) hf.1
      (comma :: 32 :: ahead fs t)
    rw [List.nil_append] at hdrop
    rw [ahead_cons] at h
    cases hlit : readLiteral (f.written ++ comma :: 32 :: ahead fs t) with
    | none => exact absurd h (by simp [readTuple, hdrop, hlit])
    | some p =>
      obtain ⟨v, rest⟩ := p
      obtain rfl := readLiteral_rest hf.1 hf.2 (ended_comma _) hlit
      rw [readTuple_more (by rw [hdrop]; exact hlit), readTuple_blank] at h
      obtain ⟨⟨ws, r'⟩, hrest, he⟩ := Option.map_eq_some_iff.mp h
      obtain ⟨rfl, rfl⟩ := Prod.mk.inj he
      obtain ⟨us, ws, m, rfl, hlen, hread⟩ := ih hfs hrest
      exact ⟨v :: us, ws, m, rfl, by rw [List.length_cons, hlen, List.length_cons], hread⟩

/-- What begins with a quote is no number. -/
theorem readTuple_text {n : Nat} {s r : List Byte} {q : Rat} {vs : List Value} :
    readTuple n (quote :: s) ≠ some (.number q :: vs, r) := by
  intro h
  obtain ⟨m, rfl⟩ := readTuple_pos h
  obtain ⟨t, hlit⟩ := readTuple_head h
  have hdrop : (quote :: s).dropWhile isSpace = quote :: s := rfl
  rw [hdrop, readLiteral, List.head?_cons, if_pos rfl] at hlit
  obtain ⟨p, -, hp⟩ := Option.map_eq_some_iff.mp hlit
  exact absurd hp (by simp)

/-- The bytes of a text that is read stand in what was read. -/
theorem mem_of_readTuple {n : Nat} {s v r : List Byte} {vs : List Value}
    (h : readTuple n (quote :: s) = some (.text v :: vs, r)) {b : Byte} (hb : b ∈ v) : b ∈ s := by
  obtain ⟨m, rfl⟩ := readTuple_pos h
  obtain ⟨t, hlit⟩ := readTuple_head h
  have hdrop : (quote :: s).dropWhile isSpace = quote :: s := rfl
  rw [hdrop, readLiteral, List.head?_cons, if_pos rfl] at hlit
  obtain ⟨⟨w, t'⟩, hread, he⟩ := Option.map_eq_some_iff.mp hlit
  obtain ⟨rfl, rfl⟩ : w = v ∧ t' = t := by simpa using he
  rw [List.tail_cons] at hread
  rw [(escape_of_readText hread).1]
  exact List.mem_append_left _ (mem_escape hb)

/-- A row is read back as its values, up to its closing parenthesis, exactly when every
field is safe. -/
theorem readTuple_iff {trail : List Byte} (ht : trail.all isSpace = true) (t : List Byte)
    (f : Field) (fs : List Field) {n : Nat} (hn : fs.length < n) {lead : List Byte}
    (hl : lead.all isSpace = true) (hp : ∀ g ∈ f :: fs, g.Plain) {r : List Byte} :
    readTuple n (lead ++ (joined (f :: fs) ++ (trail ++ close :: t))) =
        some ((f :: fs).map Field.value, r) ↔
      (∀ g ∈ f :: fs, g.Safe) ∧ r = t := by
  induction fs generalizing f n lead with
  | nil =>
    obtain ⟨n, rfl⟩ := Nat.exists_eq_succ_of_ne_zero (Nat.ne_of_gt hn)
    have hpf : f.Plain := hp f List.mem_cons_self
    have hended := ended_trail ht t
    rw [joined_singleton]
    by_cases hs : f.Safe
    · have hlit := (readLiteral_iff hpf hended).mpr ⟨hs, rfl⟩
      rw [readTuple_last ht (by rw [dropWhile_blanks hl hpf]; exact hlit)]
      simp [hs, eq_comm]
    · exact iff_of_false (readTuple_spoilt hpf hs hl hended)
        fun h => hs (h.1 f List.mem_cons_self)
  | cons g fs ih =>
    obtain ⟨n, rfl⟩ := Nat.exists_eq_succ_of_ne_zero (Nat.ne_of_gt (Nat.zero_lt_of_lt hn))
    have hpf : f.Plain := hp f List.mem_cons_self
    have hlen : fs.length < n := by rw [List.length_cons] at hn; omega
    have hblank : ([32] : List Byte).all isSpace = true := by decide
    have hih := ih g hlen hblank fun k hk => hp k (List.mem_cons_of_mem f hk)
    rw [joined_cons, List.append_assoc, List.cons_append, List.cons_append, List.map_cons,
      readTuple_step hpf hl, List.forall_mem_cons, and_assoc, ← hih]
    rfl

theorem length_joined (fs : List Field) : fs.length ≤ (joined fs).length + 1 := by
  induction fs with
  | nil => simp
  | cons f fs ih =>
    cases fs with
    | nil => simp
    | cons g fs =>
      have hlen : (joined (f :: g :: fs)).length =
          f.written.length + ((joined (g :: fs)).length + 2) := by
        rw [joined_cons]
        simp
      rw [List.length_cons, hlen]
      omega

theorem readValues_iff {lead trail : List Byte} (hl : lead.all isSpace = true)
    (ht : trail.all isSpace = true) (t : List Byte) (f : Field) (fs : List Field)
    (hp : ∀ g ∈ f :: fs, g.Plain) {r : List Byte} :
    readValues (lead ++ (joined (f :: fs) ++ (trail ++ close :: t))) =
        some ((f :: fs).map Field.value, r) ↔
      (∀ g ∈ f :: fs, g.Safe) ∧ r = t := by
  refine readTuple_iff ht t f fs ?_ hl hp
  have hlen := length_joined (f :: fs)
  simp only [List.length_append, List.length_cons] at hlen ⊢
  omega

/-! ## Floats in rows -/

theorem isNumeral_ends {b : Byte} (hb : isNumeral b = true) :
    b ≠ quote ∧ endsToken b = false := by
  simp only [isNumeral, isDigit, minus, plus, point, Bool.or_eq_true, Bool.and_eq_true,
    decide_eq_true_eq, beq_iff_eq, UInt8.le_iff_toNat_le, ← UInt8.toNat_inj] at hb
  simp only [quote, endsToken, isSpace, comma, close, Bool.or_eq_false_iff, Bool.and_eq_false_iff,
    decide_eq_false_iff_not, beq_eq_false_iff_ne, ne_eq, UInt8.le_iff_toNat_le, ← UInt8.toNat_inj]
  simp only [UInt8.reduceToNat] at hb ⊢
  omega

theorem plain_of_numeral {token : List Byte} (hne : token ≠ []) (h : token.all isNumeral = true)
    (v : Value) : (Field.bare token v).Plain := by
  have hall := List.all_eq_true.mp h
  refine ⟨hne, ?_, fun b hb => (isNumeral_ends (hall b hb)).2⟩
  intro hq
  exact (isNumeral_ends (hall quote (List.mem_of_mem_head? hq))).1 rfl

/-- A float as it is written, for its number. -/
def floatField (x : CFloat) (q : Rat) : Field := .bare x.toString (.number q)

theorem toString_ne_nil (x : CFloat) : x.toString ≠ [] := by
  cases x <;> simp [CFloat.toString, fixed, bytes]

theorem floatField_plain (x : CFloat) (q : Rat) : (floatField x q).Plain :=
  plain_of_numeral (toString_ne_nil x) (isNumeral_toString x) _

theorem floatField_safe_iff {x : CFloat} {q : Rat} (h : x.number = some q) :
    (floatField x q).Safe ↔ x.Micro := by
  rw [floatField, Field.Safe, ← readNumber_toString_iff, Option.map_eq_some_iff, h]
  simp

/-- A number as it was written, for another number. -/
def numberField (x : NumberText) (q : Rat) : Field := .bare x.text (.number q)

theorem numberField_plain (x : NumberText) (q : Rat) : (numberField x q).Plain := by
  refine plain_of_numeral ?_ (readNumber_all x.reads) _
  intro he
  have hnil : readNumber [] = none := rfl
  have hread := x.reads
  rw [he, hnil] at hread
  exact absurd hread (by simp)

theorem numberField_safe_iff (x : NumberText) (q : Rat) : (numberField x q).Safe ↔ x.value = q := by
  rw [numberField, Field.Safe, x.reads]
  simp

/-! ## INSERT -/

/-- Blanks, the clause about conflicts, blanks and semicolons. -/
def isEnd (s : List Byte) : Bool :=
  let s := s.dropWhile isSpace
  ((strip (bytes "ON CONFLICT DO NOTHING") s).getD s).all fun b => isSpace b || b == 59

/-- The values of one row for the table, one for each column from the first on. -/
def readInsert (table s : List Byte) : Option (List Value) :=
  match strip (bytes "INSERT INTO " ++ table ++ bytes " ") s with
  | none => none
  | some s =>
      match strip (bytes "VALUES(") (s.dropWhile isSpace) with
      | none => none
      | some s =>
          match readValues s with
          | none => none
          | some (vs, s) => if isEnd s = true then some vs else none

theorem readInsert_eq_some_iff (table : List Byte) {blanks : List Byte}
    (hb : blanks.all isSpace = true) (s : List Byte) {vs : List Value} :
    readInsert table
        (bytes "INSERT INTO " ++ table ++ bytes " " ++ (blanks ++ (bytes "VALUES(" ++ s))) =
          some vs ↔
      ∃ r, readValues s = some (vs, r) ∧ isEnd r = true := by
  have hdrop : (blanks ++ (bytes "VALUES(" ++ s)).dropWhile isSpace = bytes "VALUES(" ++ s := by
    rw [List.dropWhile_append_of_pos (List.all_eq_true.mp hb)]
    rfl
  simp only [readInsert, strip_append, hdrop]
  cases h : readValues s with
  | none => simp
  | some p =>
    obtain ⟨ws, r⟩ := p
    simp only [Option.some.injEq, Prod.mk.injEq]
    constructor
    · intro hr
      split at hr
      · next hend => exact ⟨r, ⟨Option.some.inj hr, rfl⟩, hend⟩
      · exact absurd hr (by simp)
    · intro hr
      obtain ⟨r', ⟨rfl, rfl⟩, hend⟩ := hr
      exact if_pos hend

end PowerGuru.Lib.SqlLiteral
