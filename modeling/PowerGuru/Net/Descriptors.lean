import PowerGuru.Common
import PowerGuru.Lib.Bytes
import PowerGuru.Lib.Handles

/-!
# The descriptors of a `Tcpip` object

Neither constructor sets `_sockfd` and `_sockIOfd`. `closeNet` leaves the descriptor it
closed in `_sockfd`, and nothing but a new server or client replaces `_sockIOfd`.
-/
namespace PowerGuru.Net.Descriptors

open Lib.Bytes Lib.Handles Common

structure Tcpip where
  sockfd : Int
  sockIOfd : Int
  connections : List Int := []
  hostname : List Byte := []

/-- What `bind` comes to; `errno` may be `EADDRINUSE`. -/
inductive Bind where
  | bound
  | addrInUse
  | otherError

/-- What `close` comes to. A `close` that fails may have released the descriptor. -/
inductive Closing where
  | done
  | failed (released : Bool)

def Closing.released : Closing → Bool
  | .done => true
  | .failed released => released

/-- What a member function returns, the object it leaves and what it did on the way. -/
structure Outcome where
  retcode : Retcode
  object : Tcpip
  events : List (Event Int)

/-- `socket` and the rest are only called if `getAddrInfo` found an address. -/
def createNetServer (t : Tcpip) (addr : Bool) (socket : Int) (bind : Bind) (listen : Int) :
    Outcome :=
  if addr = false then ⟨.error, t, []⟩
  else
    let t := { t with sockIOfd := socket }
    if socket < 0 then ⟨.error, t, []⟩
    else
      match bind with
      | .addrInUse => ⟨.error, t, [.obtained socket, .used socket]⟩
      | _ =>
          let events := [.obtained socket, .used socket, .used socket]
          if listen < 0 then ⟨.error, t, events⟩ else ⟨.success, t, events⟩

def newNetConnection (t : Tcpip) (accept : Int) : Outcome :=
  if t.sockIOfd ≤ 2 then ⟨.error, t, []⟩
  else
    let u := { t with sockfd := accept }
    if accept < 0 then ⟨.error, u, [.used t.sockIOfd]⟩
    else
      ⟨.success, { u with connections := t.connections ++ [accept] },
        [.used t.sockIOfd, .obtained accept]⟩

/-- Without an address the function succeeds with whatever `_sockfd` was. -/
def createNetClient (t : Tcpip) (hostname : List Byte) (addr : Bool)
    (socket connect select again : Int) (closing : Closing) : Outcome :=
  let connected (t : Tcpip) : Tcpip := { t with hostname := hostname, sockIOfd := t.sockfd }
  if addr = false then ⟨.success, connected t, []⟩
  else
    let t := { t with sockfd := socket }
    if socket < 0 then ⟨.error, t, []⟩
    else if 0 ≤ connect then ⟨.success, connected t, [.obtained socket, .used socket]⟩
    else if select = -1 then
      -- `shutdown` does not close
      ⟨.error, t, [.obtained socket, .used socket, .used socket, .used socket]⟩
    else if again ≤ 0 then
      -- `connect` returns 0 when it succeeds
      ⟨.error, t, [.obtained socket, .used socket, .used socket, .used socket,
        .closed socket closing.released]⟩
    else ⟨.success, connected t, [.obtained socket, .used socket, .used socket, .used socket]⟩

def closeConnection (t : Tcpip) (closing : Closing) : Outcome :=
  if 0 < t.sockfd then
    ⟨.success, { t with sockfd := 0 }, [.closed t.sockfd closing.released]⟩
  else ⟨.error, t, []⟩

/-- The attempts of `closeNet`, given what each would come to. -/
def attempts (fd : Int) : List Closing → Retcode × List (Event Int)
  | [] => (.error, [])
  | .done :: _ => (.success, [.closed fd true])
  | .failed released :: rest =>
      let r := attempts fd rest
      (r.1, .closed fd released :: r.2)

def closeNet (t : Tcpip) (first second third : Closing) : Outcome :=
  if t.sockfd ≤ 0 then ⟨.success, t, []⟩
  else
    let r := attempts t.sockfd [first, second, third]
    ⟨r.1, t, r.2⟩

/-! ## Runs -/

/-- A call, with what the system calls in it come to. -/
inductive Call where
  | createNetServer (addr : Bool) (socket : Int) (bind : Bind) (listen : Int)
  | newNetConnection (accept : Int)
  | createNetClient (hostname : List Byte) (addr : Bool) (socket connect select again : Int)
      (closing : Closing)
  | closeConnection (closing : Closing)
  | closeNet (first second third : Closing)

def step (t : Tcpip) : Call → Outcome
  | .createNetServer addr socket bind listen => createNetServer t addr socket bind listen
  | .newNetConnection accept => newNetConnection t accept
  | .createNetClient hostname addr socket connect select again closing =>
      createNetClient t hostname addr socket connect select again closing
  | .closeConnection closing => closeConnection t closing
  | .closeNet first second third => closeNet t first second third

def events (t : Tcpip) : List Call → List (Event Int)
  | [] => []
  | c :: cs => (step t c).events ++ events (step t c).object cs

/-! ## What the two members name -/

structure Slot where
  fd : Int
  mark : Mark

/-- `_sockfd` and `_sockIOfd`. -/
structure Slots where
  conn : Slot
  io : Slot

def Slot.obtained (s : Slot) (fd : Int) : Slot := if fd = s.fd then ⟨fd, .held⟩ else s

def Slot.closed (s : Slot) (fd : Int) (released : Bool) : Slot :=
  if fd = s.fd then ⟨fd, s.mark.closed released⟩ else s

/-- The system gives out a descriptor, under a number that may have been in use before. -/
def Slots.obtained (m : Slots) (fd : Int) : Slots := ⟨m.conn.obtained fd, m.io.obtained fd⟩

/-- Both members may name the descriptor that is closed. -/
def Slots.closed (m : Slots) (fd : Int) (released : Bool) : Slots :=
  ⟨m.conn.closed fd released, m.io.closed fd released⟩

/-- Some attempt that is made releases the descriptor. -/
def Closing.ends : List Closing → Bool
  | [] => false
  | .done :: _ => true
  | .failed released :: rest => released || ends rest

def Slots.after (m : Slots) : Call → Slots
  | .createNetServer addr socket _ _ =>
      if addr = false then m
      else if socket < 0 then { m with io := ⟨socket, .loose⟩ }
      else { m.obtained socket with io := ⟨socket, .held⟩ }
  | .newNetConnection accept =>
      if m.io.fd ≤ 2 then m
      else if accept < 0 then { m with conn := ⟨accept, .loose⟩ }
      else { m.obtained accept with conn := ⟨accept, .held⟩ }
  | .createNetClient _ addr socket connect select again closing =>
      if addr = false then { m with io := m.conn }
      else if socket < 0 then { m with conn := ⟨socket, .loose⟩ }
      else
        let m := { m.obtained socket with conn := ⟨socket, .held⟩ }
        if 0 ≤ connect then { m with io := m.conn }
        else if select = -1 then m
        else if again ≤ 0 then m.closed socket closing.released
        else { m with io := m.conn }
  | .closeConnection closing =>
      if 0 < m.conn.fd then { m.closed m.conn.fd closing.released with conn := ⟨0, .loose⟩ } else m
  | .closeNet first second third =>
      if m.conn.fd ≤ 0 then m else m.closed m.conn.fd (Closing.ends [first, second, third])

/-- No attempt to close comes after one that failed but released the descriptor. -/
def NoneInVain (first second : Closing) : Prop :=
  first ≠ .failed true ∧ (first = .failed false → second ≠ .failed true)

/-- The descriptor that the call closes or accepts on is not gone, and `closeNet` stops
when it is. -/
def Ready (m : Slots) : Call → Prop
  | .createNetServer _ _ _ _ => True
  | .createNetClient _ _ _ _ _ _ _ => True
  | .newNetConnection _ => 2 < m.io.fd → m.io.mark ≠ .gone
  | .closeConnection _ => 0 < m.conn.fd → m.conn.mark ≠ .gone
  | .closeNet first second _ =>
      0 < m.conn.fd → m.conn.mark ≠ .gone ∧ (m.conn.mark = .held → NoneInVain first second)

def AllReady (m : Slots) : List Call → Prop
  | [] => True
  | c :: cs => Ready m c ∧ AllReady (m.after c) cs

/-! ## Each call -/

/-- The numbers of the members, and what has become of their descriptors. A number that no
call closes or accepts on does not matter. -/
structure Describes (m : Slots) (t : Tcpip) (before : List (Event Int)) : Prop where
  conn_fd : m.conn.fd = t.sockfd
  io_fd : m.io.fd = t.sockIOfd
  conn_mark : 0 < t.sockfd → m.conn.mark = mark before t.sockfd
  io_mark : 2 < t.sockIOfd → m.io.mark = mark before t.sockIOfd

theorem Describes.obtained {m : Slots} {t : Tcpip} {before : List (Event Int)}
    (h : Describes m t before) (fd : Int) :
    Describes (m.obtained fd) t (.obtained fd :: before) := by
  obtain ⟨hc, hi, hcm, him⟩ := h
  refine ⟨?_, ?_, ?_, ?_⟩
  · simp only [Slots.obtained, Slot.obtained, hc]
    split
    · next he => exact he
    · exact hc
  · simp only [Slots.obtained, Slot.obtained, hi]
    split
    · next he => exact he
    · exact hi
  · intro hpos
    simp only [Slots.obtained, Slot.obtained, hc]
    split
    · next he => rw [he, mark_obtained]
    · next he => rw [mark_obtained_ne he, hcm hpos]
  · intro hpos
    simp only [Slots.obtained, Slot.obtained, hi]
    split
    · next he => rw [he, mark_obtained]
    · next he => rw [mark_obtained_ne he, him hpos]

/-- Closing the descriptor of `_sockfd`. -/
theorem Describes.closed {m : Slots} {t : Tcpip} {before : List (Event Int)}
    (h : Describes m t before) (released : Bool) :
    Describes (m.closed t.sockfd released) t (.closed t.sockfd released :: before) := by
  obtain ⟨hc, hi, hcm, him⟩ := h
  refine ⟨?_, ?_, ?_, ?_⟩
  · simp [Slots.closed, Slot.closed, hc]
  · simp only [Slots.closed, Slot.closed, hi]
    split
    · next he => exact he
    · exact hi
  · intro hpos
    simp [Slots.closed, Slot.closed, hc, hcm hpos]
  · intro hio
    simp only [Slots.closed, Slot.closed, hi]
    split
    · next he => rw [he, mark_closed, him hio]
    · next he => rw [mark_closed_ne he, him hio]

theorem Describes.used {m : Slots} {t : Tcpip} {before : List (Event Int)}
    (h : Describes m t before) (fd : Int) : Describes m t (.used fd :: before) :=
  ⟨h.conn_fd, h.io_fd, h.conn_mark, h.io_mark⟩

theorem Describes.renamed {m : Slots} {t : Tcpip} {before : List (Event Int)}
    (h : Describes m t before) {fd : Int} {k : Mark} (hk : 0 < fd → k = mark before fd) :
    Describes { m with conn := ⟨fd, k⟩ } { t with sockfd := fd } before :=
  ⟨rfl, h.io_fd, hk, h.io_mark⟩

theorem Describes.listening {m : Slots} {t : Tcpip} {before : List (Event Int)}
    (h : Describes m t before) {fd : Int} {k : Mark} (hk : 2 < fd → k = mark before fd) :
    Describes { m with io := ⟨fd, k⟩ } { t with sockIOfd := fd } before :=
  ⟨h.conn_fd, rfl, h.conn_mark, hk⟩

/-- A client has one descriptor for both. -/
theorem Describes.connected {m : Slots} {t : Tcpip} {before : List (Event Int)}
    (h : Describes m t before) (hostname : List Byte) :
    Describes { m with io := m.conn } { t with hostname := hostname, sockIOfd := t.sockfd }
      before :=
  ⟨h.conn_fd, h.conn_fd, h.conn_mark, fun (hpos : 2 < t.sockfd) => h.conn_mark (by omega)⟩

/-- The events of the call are in order exactly if it is ready, and then the slots follow. -/
def Follows (m : Slots) (t : Tcpip) (before : List (Event Int)) (c : Call) : Prop :=
  (Orderly before (step t c).events ↔ Ready m c) ∧
    (Ready m c → Describes (m.after c) (step t c).object ((step t c).events.reverse ++ before))

theorem follows_server {m : Slots} {t : Tcpip} {before : List (Event Int)}
    (h : Describes m t before) (addr : Bool) (socket : Int) (bind : Bind) (listen : Int) :
    Follows m t before (.createNetServer addr socket bind listen) := by
  by_cases haddr : addr = false
  · simp [Follows, step, createNetServer, Slots.after, Ready, haddr, h]
  by_cases hneg : socket < 0
  · have hnext : Describes { m with io := ⟨socket, .loose⟩ } { t with sockIOfd := socket } before :=
      h.listening fun hpos => absurd hpos (by omega)
    simp [Follows, step, createNetServer, Slots.after, Ready, haddr, hneg, hnext]
  · have hopen : Describes { m.obtained socket with io := ⟨socket, .held⟩ }
        { t with sockIOfd := socket } (.obtained socket :: before) :=
      (h.obtained socket).listening fun _ => (mark_obtained before socket).symm
    have hbound := hopen.used socket
    have hlistening := hbound.used socket
    cases bind with
    | addrInUse =>
      simp [Follows, step, createNetServer, Slots.after, Ready, haddr, hneg, hbound]
    | bound =>
      by_cases hl : listen < 0 <;>
        simp [Follows, step, createNetServer, Slots.after, Ready, haddr, hneg, hl, hlistening]
    | otherError =>
      by_cases hl : listen < 0 <;>
        simp [Follows, step, createNetServer, Slots.after, Ready, haddr, hneg, hl, hlistening]

theorem follows_connection {m : Slots} {t : Tcpip} {before : List (Event Int)}
    (h : Describes m t before) (accept : Int) :
    Follows m t before (.newNetConnection accept) := by
  by_cases hlow : t.sockIOfd ≤ 2
  · have hnot : ¬ 2 < t.sockIOfd := by omega
    simp [Follows, step, newNetConnection, Slots.after, Ready, h.io_fd, hlow, hnot, h]
  have hpos : 2 < t.sockIOfd := by omega
  have hmark := h.io_mark hpos
  by_cases hneg : accept < 0
  · have hnext : Describes { m with conn := ⟨accept, .loose⟩ } { t with sockfd := accept }
        (.used t.sockIOfd :: before) :=
      (h.used _).renamed fun hp => absurd hp (by omega)
    simp [Follows, step, newNetConnection, Slots.after, Ready, h.io_fd, hlow, hneg, hpos, hmark,
      hnext]
  · have hnext : Describes { m.obtained accept with conn := ⟨accept, .held⟩ }
        { t with sockfd := accept } (.obtained accept :: .used t.sockIOfd :: before) :=
      ((h.used _).obtained accept).renamed fun _ => (mark_obtained _ accept).symm
    have hpushed : Describes { m.obtained accept with conn := ⟨accept, .held⟩ }
        { t with sockfd := accept, connections := t.connections ++ [accept] }
        (.obtained accept :: .used t.sockIOfd :: before) :=
      ⟨hnext.conn_fd, hnext.io_fd, hnext.conn_mark, hnext.io_mark⟩
    simp [Follows, step, newNetConnection, Slots.after, Ready, h.io_fd, hlow, hneg, hpos, hmark,
      hpushed]

theorem follows_client {m : Slots} {t : Tcpip} {before : List (Event Int)}
    (h : Describes m t before) (hostname : List Byte) (addr : Bool)
    (socket connect select again : Int) (closing : Closing) :
    Follows m t before (.createNetClient hostname addr socket connect select again closing) := by
  by_cases haddr : addr = false
  · simp [Follows, step, createNetClient, Slots.after, Ready, haddr, h.connected]
  by_cases hneg : socket < 0
  · have hnext : Describes { m with conn := ⟨socket, .loose⟩ } { t with sockfd := socket } before :=
      h.renamed fun hpos => absurd hpos (by omega)
    simp [Follows, step, createNetClient, Slots.after, Ready, haddr, hneg, hnext]
  have hopen : Describes { m.obtained socket with conn := ⟨socket, .held⟩ }
      { t with sockfd := socket } (.obtained socket :: before) :=
    (h.obtained socket).renamed fun _ => (mark_obtained before socket).symm
  have hfirst := hopen.used socket
  by_cases hconnect : 0 ≤ connect
  · simp [Follows, step, createNetClient, Slots.after, Ready, haddr, hneg, hconnect,
      hfirst.connected hostname]
  have hthird := (hfirst.used socket).used socket
  by_cases hselect : select = -1
  · simp [Follows, step, createNetClient, Slots.after, Ready, haddr, hneg, hconnect, hselect,
      hthird]
  by_cases hagain : again ≤ 0
  · have hclosed := hthird.closed closing.released
    simp [Follows, step, createNetClient, Slots.after, Ready, haddr, hneg, hconnect, hselect,
      hagain, hclosed]
  · simp [Follows, step, createNetClient, Slots.after, Ready, haddr, hneg, hconnect, hselect,
      hagain, hthird.connected hostname]

theorem follows_close {m : Slots} {t : Tcpip} {before : List (Event Int)}
    (h : Describes m t before) (closing : Closing) :
    Follows m t before (.closeConnection closing) := by
  by_cases hpos : 0 < t.sockfd
  · have hnext : Describes
        { m.closed t.sockfd closing.released with conn := ⟨0, .loose⟩ } { t with sockfd := 0 }
        (.closed t.sockfd closing.released :: before) :=
      (h.closed closing.released).renamed fun hz => absurd hz (by decide)
    simp [Follows, step, closeConnection, Slots.after, Ready, h.conn_fd, hpos, h.conn_mark hpos,
      hnext]
  · simp [Follows, step, closeConnection, Slots.after, Ready, h.conn_fd, hpos, h]

/-- Closing twice is closing once, with what either does. -/
theorem closed_closed (k : Mark) (a b : Bool) : (k.closed a).closed b = k.closed (a || b) := by
  cases k <;> cases a <;> cases b <;> rfl

theorem slots_closed_closed (m : Slots) (fd : Int) (a b : Bool) :
    (m.closed fd a).closed fd b = m.closed fd (a || b) := by
  have hslot : ∀ s : Slot, (s.closed fd a).closed fd b = s.closed fd (a || b) := by
    intro s
    by_cases he : fd = s.fd
    · simp [Slot.closed, he, closed_closed]
    · simp [Slot.closed, he]
  simp [Slots.closed, hslot]

theorem slots_closed_false (m : Slots) (fd : Int) : m.closed fd false = m := by
  have hmark : ∀ k : Mark, k.closed false = k := fun k => by cases k <;> rfl
  have hslot : ∀ s : Slot, s.closed fd false = s := by
    intro s
    by_cases he : fd = s.fd
    · simp [Slot.closed, he, hmark]
    · simp [Slot.closed, he]
  simp [Slots.closed, hslot]

theorem Describes.attempts {m : Slots} {t : Tcpip} {before : List (Event Int)}
    (h : Describes m t before) (cs : List Closing) :
    Describes (m.closed t.sockfd (Closing.ends cs)) t
      ((Descriptors.attempts t.sockfd cs).2.reverse ++ before) := by
  induction cs generalizing m before with
  | nil => rwa [Closing.ends, slots_closed_false]
  | cons c cs ih =>
    cases c with
    | done => exact h.closed true
    | failed released =>
      have hrest := ih (h.closed released)
      rw [slots_closed_closed] at hrest
      simpa [Descriptors.attempts, Closing.ends] using hrest

/-- After an attempt that failed there is another one. -/
theorem orderly_attempts_iff {before : List (Event Int)} {fd : Int} {first second third : Closing} :
    Orderly before (Descriptors.attempts fd [first, second, third]).2 ↔
      mark before fd ≠ .gone ∧ (mark before fd = .held → NoneInVain first second) := by
  cases hmark : mark before fd with
  | gone => cases first <;> simp [attempts, hmark]
  | loose =>
    cases first <;> cases second <;> cases third <;> simp [attempts, hmark, Mark.closed]
  | held =>
    rcases first with _ | (_ | _) <;> rcases second with _ | (_ | _) <;> cases third <;>
      simp [attempts, hmark, Mark.closed, NoneInVain]

theorem follows_closeNet {m : Slots} {t : Tcpip} {before : List (Event Int)}
    (h : Describes m t before) (first second third : Closing) :
    Follows m t before (.closeNet first second third) := by
  by_cases hpos : 0 < t.sockfd
  · have hnot : ¬ t.sockfd ≤ 0 := by omega
    have hnext := h.attempts [first, second, third]
    simp [Follows, step, closeNet, Slots.after, Ready, h.conn_fd, hpos, hnot, h.conn_mark hpos,
      orderly_attempts_iff, hnext]
  · have hle : t.sockfd ≤ 0 := by omega
    simp [Follows, step, closeNet, Slots.after, Ready, h.conn_fd, hpos, hle, h]

/-! ## Whole runs -/

theorem follows (m : Slots) (t : Tcpip) (before : List (Event Int)) (h : Describes m t before)
    (c : Call) : Follows m t before c := by
  cases c with
  | createNetServer addr socket bind listen => exact follows_server h addr socket bind listen
  | newNetConnection accept => exact follows_connection h accept
  | createNetClient hostname addr socket connect select again closing =>
    exact follows_client h hostname addr socket connect select again closing
  | closeConnection closing => exact follows_close h closing
  | closeNet first second third => exact follows_closeNet h first second third

theorem orderly_events_iff {m : Slots} {t : Tcpip} {before : List (Event Int)}
    (h : Describes m t before) (cs : List Call) :
    Orderly before (events t cs) ↔ AllReady m cs := by
  induction cs generalizing m t before with
  | nil => exact Iff.rfl
  | cons c cs ih =>
    obtain ⟨hstep, hnext⟩ := follows m t before h c
    rw [events, orderly_append, hstep, AllReady]
    exact and_congr_right fun hready => ih (hnext hready)

/-- Before the first call the members hold whatever was in memory. -/
def Slots.initial (t : Tcpip) : Slots := ⟨⟨t.sockfd, .loose⟩, ⟨t.sockIOfd, .loose⟩⟩

/-- A client that is closed twice. -/
def closedTwice : List Call :=
  [.createNetClient (bytes "localhost") true 5 0 1 0 .done, .closeNet .done .done .done,
    .closeNet .done .done .done]

theorem closedTwice_disorderly : ¬ Orderly [] (events ⟨0, 0, [], []⟩ closedTwice) := by
  have hevents : events ⟨0, 0, [], []⟩ closedTwice =
      [.obtained 5, .used 5, .closed 5 true, .closed 5 true] := rfl
  rw [hevents]
  simp [Mark.closed]

/-- Nothing is done with a descriptor after it was closed exactly if every call finds the one
it closes or accepts on not gone, and `closeNet` does not go on closing. -/
theorem orderly_iff_ready (t : Tcpip) (cs : List Call) :
    Orderly [] (events t cs) ↔ AllReady (Slots.initial t) cs :=
  orderly_events_iff ⟨rfl, rfl, fun _ => rfl, fun _ => rfl⟩ cs

end PowerGuru.Net.Descriptors
