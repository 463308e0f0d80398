import PowerGuru.Devices.Serial

/-!
# What `Serial::Read` counts

The loop filters what it reads. Where two tries end with nothing kept, the count of the last
`read` is returned as it is.
-/
namespace PowerGuru.Devices.SerialRead

open Lib.Bytes Serial

/-- A port whose reads fit into the buffer they are asked for. -/
structure Port (nbytes : Nat) where
  attempt : Nat → Attempt
  fits : ∀ i bs, (attempt i).read = .bytes bs → bs.length ≤ nbytes

def Port.next {nbytes : Nat} (p : Port nbytes) : Port nbytes where
  attempt i := p.attempt (i + 1)
  fits i := p.fits (i + 1)

/-- The bytes that the reads of so many tries deliver. -/
def received : Nat → (Nat → Attempt) → List Byte
  | 0, _ => []
  | retries + 1, port =>
      match (port 0).select, (port 0).read with
      | .timeout, _ => []
      | .again, _ => []
      | _, .failed => received retries fun i => port (i + 1)
      | _, .bytes bs =>
          if bs.filter keeps = [] then bs ++ received retries fun i => port (i + 1) else bs

/-- The bytes that are read during a call. -/
def bytesRead (uartfd : Int) (port : Nat → Attempt) : List Byte :=
  if 0 < uartfd then received 2 port else []

/-- The count is that of the bytes which were read and kept, and they are in front of the buffer;
without a count nothing of them is in the buffer. -/
structure Honest (nbytes : Nat) (buf bs : List Byte) (r : Int × List Byte) : Prop where
  stored : 0 < r.1 → r.1 ≤ nbytes ∧ r.2.take r.1.toNat = bs.filter keeps
  empty : r.1 ≤ 0 → r.2 = buf ∨ r.2 = cleared nbytes buf

/-! ## One try -/

/-- The try reads on, and keeps nothing. -/
def Fruitless (a : Attempt) : Prop :=
  a.select ≠ .timeout ∧ a.select ≠ .again ∧
    match a.read with
    | .failed => True
    | .bytes bs => bs.filter keeps = []

/-- What `read` returns. -/
def value : ReadResult → Int
  | .failed => -1
  | .bytes bs => bs.length

def chunk : ReadResult → List Byte
  | .failed => []
  | .bytes bs => bs

theorem chunk_filter {a : Attempt} (h : Fruitless a) :
    (chunk a.read).filter keeps = [] := by
  obtain ⟨-, -, hread⟩ := h
  cases hr : a.read with
  | failed => rfl
  | bytes bs => rwa [hr] at hread

/-- A try that ends the call does so because of `select` or with bytes that are kept. -/
theorem try_cases (a : Attempt) :
    a.select = .timeout ∨ a.select = .again ∨ Fruitless a ∨
      (a.select ≠ .timeout ∧ a.select ≠ .again ∧
        ∃ bs, a.read = .bytes bs ∧ bs.filter keeps ≠ []) := by
  by_cases ht : a.select = .timeout
  · exact Or.inl ht
  · by_cases ha : a.select = .again
    · exact Or.inr (Or.inl ha)
    · refine Or.inr (Or.inr ?_)
      cases hr : a.read with
      | failed => exact Or.inl ⟨ht, ha, by rw [hr]; trivial⟩
      | bytes bs =>
        by_cases hk : bs.filter keeps = []
        · exact Or.inl ⟨ht, ha, by rw [hr]; exact hk⟩
        · exact Or.inr ⟨ht, ha, bs, rfl, hk⟩

section
variable (nbytes n : Nat) {port : Nat → Attempt}

theorem readLoop_timeout (h : (port 0).select = .timeout) (ret : Int) (buf : List Byte) :
    readLoop nbytes (n + 1) port ret buf = (0, cleared nbytes buf) := by
  rw [readLoop, h]

theorem readLoop_again (h : (port 0).select = .again) (ret : Int) (buf : List Byte) :
    readLoop nbytes (n + 1) port ret buf = (-1, cleared nbytes buf) := by
  rw [readLoop, h]

theorem readLoop_fruitless (h : Fruitless (port 0)) (ret : Int) (buf : List Byte) :
    readLoop nbytes (n + 1) port ret buf =
        readLoop nbytes n (fun i => port (i + 1)) (value (port 0).read)
          (cleared nbytes buf) ∧
      received (n + 1) port =
        chunk (port 0).read ++ received n fun i => port (i + 1) := by
  obtain ⟨ht, ha, hread⟩ := h
  rw [readLoop, received]
  cases hr : (port 0).read with
  | failed =>
    cases hs : (port 0).select with
    | timeout => exact absurd hs ht
    | again => exact absurd hs ha
    | ready => exact ⟨rfl, rfl⟩
    | failed => exact ⟨rfl, rfl⟩
  | bytes bs =>
    rw [hr] at hread
    cases hs : (port 0).select with
    | timeout => exact absurd hs ht
    | again => exact absurd hs ha
    | ready => exact ⟨if_pos hread, if_pos hread⟩
    | failed => exact ⟨if_pos hread, if_pos hread⟩

theorem readLoop_kept (ht : (port 0).select ≠ .timeout) (ha : (port 0).select ≠ .again)
    {bs : List Byte} (hr : (port 0).read = .bytes bs) (hk : bs.filter keeps ≠ []) (ret : Int)
    (buf : List Byte) :
    readLoop nbytes (n + 1) port ret buf =
        (((bs.filter keeps).length : Int), copied (bs.filter keeps) (cleared nbytes buf)) ∧
      received (n + 1) port = bs := by
  unfold readLoop received
  rw [hr]
  cases hs : (port 0).select with
  | timeout => exact absurd hs ht
  | again => exact absurd hs ha
  | ready => exact ⟨if_neg hk, if_neg hk⟩
  | failed => exact ⟨if_neg hk, if_neg hk⟩

end

/-! ## The buffer -/

theorem cleared_cleared (nbytes : Nat) (buf : List Byte) :
    cleared nbytes (cleared nbytes buf) = cleared nbytes buf := by
  rw [cleared, cleared, List.drop_left' List.length_replicate]

theorem take_copied (data buf : List Byte) : (copied data buf).take data.length = data :=
  List.take_left' rfl

/-- A count of bytes that are not there. -/
theorem take_cleared_ne {nbytes n : Nat} (hn : 0 < n) (hle : n ≤ nbytes) (buf : List Byte) :
    (cleared nbytes buf).take n ≠ [] := by
  intro h
  have hlen := congrArg List.length h
  rw [cleared, List.length_take, List.length_append, List.length_replicate, List.length_nil] at hlen
  omega

/-! ## The loop -/

/-- All of so many tries are fruitless, and the last value of `read` is a count. -/
def Overcounts : Nat → (Nat → Attempt) → Int → Prop
  | 0, _, ret => 0 < ret
  | n + 1, port, _ =>
      Fruitless (port 0) ∧ Overcounts n (fun i => port (i + 1)) (value (port 0).read)

/-- The buffer is as it was or cleared, and behind a count it is not empty. -/
structure Waiting (nbytes : Nat) (start : List Byte) (ret : Int) (buf : List Byte) : Prop where
  blank : buf = start ∨ buf = cleared nbytes start
  filled : 0 < ret → buf.take ret.toNat ≠ []

theorem Waiting.cleared_eq {nbytes : Nat} {start buf : List Byte} {ret : Int}
    (h : Waiting nbytes start ret buf) : cleared nbytes buf = cleared nbytes start := by
  rcases h.blank with rfl | rfl
  · rfl
  · exact cleared_cleared nbytes start

/-- A fruitless try leaves the next one waiting. -/
theorem Waiting.next {nbytes : Nat} (p : Port nbytes) {start buf : List Byte} {ret : Int}
    (h : Waiting nbytes start ret buf) :
    Waiting nbytes start (value (p.attempt 0).read) (cleared nbytes buf) := by
  refine ⟨Or.inr h.cleared_eq, ?_⟩
  intro hpos
  cases hr : (p.attempt 0).read with
  | failed =>
    rw [hr] at hpos
    exact absurd hpos (by decide)
  | bytes bs =>
    rw [hr] at hpos
    have hfits := p.fits 0 bs hr
    have hcount : (value (.bytes bs)).toNat = bs.length := Int.toNat_natCast bs.length
    rw [hcount]
    refine take_cleared_ne ?_ hfits buf
    have hcast : (0 : Int) < bs.length := hpos
    omega

theorem honest_of_nonpos {nbytes : Nat} {buf bs : List Byte} {r : Int × List Byte} (hr : r.1 ≤ 0)
    (hbuf : r.2 = buf ∨ r.2 = cleared nbytes buf) : Honest nbytes buf bs r :=
  ⟨fun hpos => absurd hpos (by omega), fun _ => hbuf⟩

/-- Only the bytes that are kept matter. -/
theorem honest_congr {nbytes : Nat} {buf bs bs' : List Byte}
    (h : bs.filter keeps = bs'.filter keeps) (r : Int × List Byte) :
    Honest nbytes buf bs r ↔ Honest nbytes buf bs' r := by
  constructor
  · exact fun hr => ⟨h ▸ hr.stored, hr.empty⟩
  · exact fun hr => ⟨h ▸ hr.stored, hr.empty⟩

/-- A chunk that is copied is counted as it is. -/
theorem honest_copied {nbytes : Nat} {bs : List Byte} (hle : bs.length ≤ nbytes)
    (hk : bs.filter keeps ≠ []) (start buf : List Byte) :
    Honest nbytes start bs (((bs.filter keeps).length : Int), copied (bs.filter keeps) buf) := by
  constructor
  · intro _
    have hlen : (bs.filter keeps).length ≤ nbytes := (List.length_filter_le keeps bs).trans hle
    have hcount : (((bs.filter keeps).length : Int)).toNat = (bs.filter keeps).length :=
      Int.toNat_natCast _
    refine ⟨Int.ofNat_le.mpr hlen, ?_⟩
    rw [hcount, take_copied]
  · intro hneg
    have hpos := List.length_pos_iff.mpr hk
    dsimp only at hneg
    omega

/-- Before the first try nothing was read, and each fruitless one adds nothing that is kept. -/
theorem readLoop_honest_iff {nbytes : Nat} (n : Nat) (p : Port nbytes) {start buf : List Byte}
    {ret : Int} (h : Waiting nbytes start ret buf) :
    Honest nbytes start (received n p.attempt) (readLoop nbytes n p.attempt ret buf) ↔
      ¬ Overcounts n p.attempt ret := by
  induction n generalizing p ret buf with
  | zero =>
    constructor
    · intro hhonest hcount
      exact h.filled hcount (hhonest.stored hcount).2
    · intro hcount
      exact ⟨fun hpos => absurd hpos hcount, fun _ => h.blank⟩
  | succ n ih =>
    have hclear := h.cleared_eq
    rcases try_cases (p.attempt 0) with ht | ha | hf | ⟨ht, ha, bs, hr, hk⟩
    · rw [readLoop_timeout nbytes n ht, hclear]
      exact iff_of_true (honest_of_nonpos (Int.le_refl 0) (Or.inr rfl)) fun hcount => hcount.1.1 ht
    · rw [readLoop_again nbytes n ha, hclear]
      exact iff_of_true (honest_of_nonpos (show (-1 : Int) ≤ 0 by decide) (Or.inr rfl))
        fun hcount => hcount.1.2.1 ha
    · obtain ⟨hloop, hreceived⟩ := readLoop_fruitless nbytes n hf ret buf
      have hfilter : (received (n + 1) p.attempt).filter keeps =
          (received n p.next.attempt).filter keeps := by
        rw [hreceived, List.filter_append, chunk_filter hf, List.nil_append]
        rfl
      rw [hloop, honest_congr hfilter, Overcounts, and_iff_right hf]
      exact ih p.next (h.next p)
    · obtain ⟨hloop, hreceived⟩ := readLoop_kept nbytes n ht ha hr hk ret buf
      have hno : ¬ Overcounts (n + 1) p.attempt ret := by
        rintro ⟨⟨-, -, hread⟩, -⟩
        rw [hr] at hread
        exact hk hread
      rw [hloop, hreceived]
      exact iff_of_true (honest_copied (p.fits 0 bs hr) hk start _) hno

/-- The count and the buffer go together exactly if the port is not open, or not both tries read
on and keep nothing, or the second of them reads nothing. -/
theorem read_honest_iff (uartfd : Int) {nbytes : Nat} (p : Port nbytes) (buf : List Byte) :
    Honest nbytes buf (bytesRead uartfd p.attempt) (read uartfd p.attempt nbytes buf) ↔
      ¬ (0 < uartfd ∧ Fruitless (p.attempt 0) ∧ Fruitless (p.attempt 1) ∧
        chunk (p.attempt 1).read ≠ []) := by
  have hvalue : 0 < value (p.attempt 1).read ↔
      chunk (p.attempt 1).read ≠ [] := by
    cases (p.attempt 1).read with
    | failed => exact iff_of_false (by decide) fun hne => hne rfl
    | bytes bs =>
      have hcast : (0 : Int) < bs.length ↔ 0 < bs.length := Int.natCast_pos
      exact hcast.trans List.length_pos_iff
  have hwaiting : Waiting nbytes buf (-1) buf := ⟨Or.inl rfl, fun hpos => absurd hpos (by decide)⟩
  rw [Serial.read, bytesRead]
  by_cases hfd : 0 < uartfd
  · rw [if_pos hfd, if_pos hfd, readLoop_honest_iff 2 p hwaiting, ← hvalue, and_iff_right hfd]
    rfl
  · rw [if_neg hfd, if_neg hfd]
    exact iff_of_true (honest_of_nonpos (show (-1 : Int) ≤ 0 by decide) (Or.inl rfl))
      fun h => hfd h.1

/-- A port that sends ends of lines and nothing else. -/
def blankLines : Port 36 where
  attempt _ := ⟨.ready, .bytes [CR, LF]⟩
  fits i bs h := by
    cases h
    decide

/-- Two bytes are counted, and none is there. -/
theorem blankLines_overcounted :
    (read 3 blankLines.attempt 36 (List.replicate 36 NUL)).1 = 2 ∧
      ¬ Honest 36 (List.replicate 36 NUL) (bytesRead 3 blankLines.attempt)
        (read 3 blankLines.attempt 36 (List.replicate 36 NUL)) := by
  refine ⟨by decide, fun h => ?_⟩
  have hstored := (h.stored (by decide)).2
  exact absurd hstored (by decide)

end PowerGuru.Devices.SerialRead
