import PowerGuru.Net.Descriptors

/-!
# What a new client or server has

The calls of `createNetClient` and `createNetServer` again, with what they make of the
sockets behind the descriptors.
-/
namespace PowerGuru.Net.Connecting

open Lib.Bytes Common Descriptors

/-- The socket behind a descriptor, if there is one. It is bound if `bind` has given it the address
that was asked for. -/
structure Sock where
  bound : Bool
  listening : Bool
  connected : Bool

def Sock.idle : Sock := ⟨false, false, false⟩

abbrev Kernel := Int → Sock

/-- What `connect` comes to. It fails without and with a connection that is being made or has
been made before. -/
inductive Connect where
  | done
  | already
  | pending
  | failed

def Connect.value : Connect → Int
  | .done => 0
  | _ => -1

def Connect.connects : Connect → Bool
  | .done => true
  | .already => true
  | _ => false

def Kernel.set (k : Kernel) (fd : Int) (s : Sock) : Kernel := Function.update k fd s

@[simp] theorem Kernel.set_self (k : Kernel) (fd : Int) (s : Sock) : k.set fd s fd = s := by
  rw [Kernel.set, Function.update_self]

def Kernel.socket (k : Kernel) (fd : Int) : Kernel := k.set fd Sock.idle

def Kernel.connect (k : Kernel) (fd : Int) (c : Connect) : Kernel :=
  k.set fd { k fd with connected := c.connects }

def Kernel.shutdown (k : Kernel) (fd : Int) : Kernel := k.set fd { k fd with connected := false }

def Kernel.close (k : Kernel) (fd : Int) (closing : Closing) : Kernel :=
  if closing.released = true then k.set fd Sock.idle else k

def Kernel.bind (k : Kernel) (fd : Int) : Bind → Kernel
  | .bound => k.set fd { k fd with bound := true }
  | .addrInUse => k
  | .otherError => k

def Kernel.listen (k : Kernel) (fd : Int) (result : Int) : Kernel :=
  if result < 0 then k else k.set fd { k fd with listening := true }

/-- A descriptor is not negative. -/
def Connected (k : Kernel) (fd : Int) : Prop := 0 ≤ fd ∧ (k fd).connected = true

def Serving (k : Kernel) (fd : Int) : Prop :=
  0 ≤ fd ∧ (k fd).bound = true ∧ (k fd).listening = true

structure Setup where
  retcode : Retcode
  object : Tcpip
  kernel : Kernel

/-! ## The two functions -/

structure ServerCalls where
  addr : Bool
  socket : Int
  bind : Bind
  listen : Int

def createNetServer (k : Kernel) (t : Tcpip) (c : ServerCalls) : Setup :=
  if c.addr = false then ⟨.error, t, k⟩
  else
    let t := { t with sockIOfd := c.socket }
    if c.socket < 0 then ⟨.error, t, k⟩
    else
      let k := (k.socket c.socket).bind c.socket c.bind
      match c.bind with
      | .addrInUse => ⟨.error, t, k⟩
      | _ =>
          -- any other error of `bind` only goes to the log
          if c.listen < 0 then ⟨.error, t, k⟩ else ⟨.success, t, k.listen c.socket c.listen⟩

structure ClientCalls where
  addr : Bool
  socket : Int
  connect : Connect
  select : Int
  again : Connect
  closing : Closing

/-- The loop goes round once: of `select` only the -1 matters. -/
def createNetClient (k : Kernel) (t : Tcpip) (hostname : List Byte) (c : ClientCalls) : Setup :=
  let connected (t : Tcpip) : Tcpip := { t with hostname := hostname, sockIOfd := t.sockfd }
  if c.addr = false then ⟨.success, connected t, k⟩
  else
    let t := { t with sockfd := c.socket }
    if c.socket < 0 then ⟨.error, t, k⟩
    else
      let k := (k.socket c.socket).connect c.socket c.connect
      if 0 ≤ c.connect.value then ⟨.success, connected t, k⟩
      else if c.select = -1 then ⟨.error, t, k.shutdown c.socket⟩
      else
        let k := k.connect c.socket c.again
        if c.again.value ≤ 0 then ⟨.error, t, k.close c.socket c.closing⟩
        else ⟨.success, connected t, k⟩

/-- These are the two functions that were followed through the descriptors. -/
theorem createNetServer_refines (k : Kernel) (t : Tcpip) (c : ServerCalls) :
    (createNetServer k t c).retcode =
        (Descriptors.createNetServer t c.addr c.socket c.bind c.listen).retcode ∧
      (createNetServer k t c).object =
        (Descriptors.createNetServer t c.addr c.socket c.bind c.listen).object := by
  unfold createNetServer Descriptors.createNetServer
  cases c.bind <;> dsimp only <;> split_ifs <;> exact ⟨rfl, rfl⟩

theorem createNetClient_refines (k : Kernel) (t : Tcpip) (hostname : List Byte) (c : ClientCalls) :
    (createNetClient k t hostname c).retcode =
        (Descriptors.createNetClient t hostname c.addr c.socket c.connect.value c.select
          c.again.value c.closing).retcode ∧
      (createNetClient k t hostname c).object =
        (Descriptors.createNetClient t hostname c.addr c.socket c.connect.value c.select
          c.again.value c.closing).object := by
  unfold createNetClient Descriptors.createNetClient
  dsimp only
  split_ifs <;> exact ⟨rfl, rfl⟩

/-! ## What the result is to say -/

/-- A client succeeds exactly if its descriptor is connected. -/
def ClientTruthful (r : Setup) : Prop := r.retcode = .success ↔ Connected r.kernel r.object.sockfd

/-- A server succeeds exactly if its descriptor is bound and listening. -/
def ServerTruthful (r : Setup) : Prop := r.retcode = .success ↔ Serving r.kernel r.object.sockIOfd

theorem truthful_error {p : Prop} (h : ¬ p) : Retcode.error = .success ↔ p :=
  iff_of_false (by decide) h

/-- The second `connect` is reached and finds or makes a connection. -/
def ClientCalls.Reconnects (c : ClientCalls) : Prop :=
  c.addr = true ∧ 0 ≤ c.socket ∧ c.connect.value < 0 ∧ c.select ≠ -1 ∧ c.again.connects = true

/-- `listen` is reached and succeeds behind a `bind` that failed. -/
def ServerCalls.Unbound (c : ServerCalls) : Prop :=
  c.addr = true ∧ 0 ≤ c.socket ∧ c.bind = .otherError ∧ 0 ≤ c.listen

theorem Connect.value_nonpos (c : Connect) : c.value ≤ 0 := by cases c <;> decide

theorem Connect.connects_of_value {c : Connect} (h : 0 ≤ c.value) : c.connects = true := by
  cases c with
  | done => rfl
  | _ => exact absurd h (by decide)

/-! ## The client -/

theorem not_connected_of_neg {k : Kernel} {fd : Int} (h : fd < 0) : ¬ Connected k fd :=
  fun hc => absurd hc.1 (by omega)

/-- Closing undoes the connection of the second attempt, if it releases the descriptor. -/
theorem connected_close_iff {k : Kernel} {fd : Int} (hfd : 0 ≤ fd) (c : Connect)
    (closing : Closing) :
    Connected ((k.connect fd c).close fd closing) fd ↔
      c.connects = true ∧ closing.released = false := by
  rw [Kernel.close]
  by_cases h : closing.released = true
  · rw [if_pos h, h]
    refine iff_of_false ?_ fun hc => absurd hc.2 (by decide)
    rintro ⟨-, hc⟩
    rw [Kernel.set_self] at hc
    exact absurd hc (by decide)
  · rw [if_neg h, Connected, Kernel.connect, Kernel.set_self]
    simp [hfd, h]

theorem client_truthful_iff (k : Kernel) (t : Tcpip) (hostname : List Byte) (c : ClientCalls) :
    ClientTruthful (createNetClient k t hostname c) ↔
      (c.addr = false → Connected k t.sockfd) ∧ (c.Reconnects → c.closing.released = true) := by
  by_cases haddr : c.addr = false
  · -- nothing is done, and that is a success
    have hno : ¬ c.Reconnects := fun h => absurd (h.1.symm.trans haddr) (by decide)
    rw [createNetClient, if_pos haddr, ClientTruthful]
    simp [haddr, hno]
  · -- an exit is as it should be if the second `connect` was not reached
    have hquiet (hno : ¬ c.Reconnects) :
        (c.addr = false → Connected k t.sockfd) ∧ (c.Reconnects → c.closing.released = true) :=
      ⟨fun h => absurd h haddr, fun h => absurd h hno⟩
    rw [createNetClient, if_neg haddr]
    by_cases hsocket : c.socket < 0
    · rw [if_pos hsocket]
      exact iff_of_true (truthful_error (not_connected_of_neg hsocket))
        (hquiet fun h => absurd h.2.1 (by omega))
    · rw [if_neg hsocket]
      have hfd : 0 ≤ c.socket := by omega
      by_cases hconnect : 0 ≤ c.connect.value
      · have hconnected : Connected ((k.socket c.socket).connect c.socket c.connect) c.socket := by
          refine ⟨hfd, ?_⟩
          rw [Kernel.connect, Kernel.set_self]
          exact Connect.connects_of_value hconnect
        rw [if_pos hconnect]
        exact iff_of_true (iff_of_true rfl hconnected)
          (hquiet fun h => absurd h.2.2.1 (by omega))
      · rw [if_neg hconnect]
        by_cases hselect : c.select = -1
        · have hdown : ¬ Connected (((k.socket c.socket).connect c.socket c.connect).shutdown
              c.socket) c.socket := by
            rintro ⟨-, hc⟩
            rw [Kernel.shutdown, Kernel.set_self] at hc
            exact absurd hc Bool.false_ne_true
          rw [if_pos hselect]
          exact iff_of_true (truthful_error hdown) (hquiet fun h => h.2.2.2.1 hselect)
        · -- whatever the second `connect` returns, the descriptor is closed
          have hagain : c.Reconnects ↔ c.again.connects = true := by
            simp [ClientCalls.Reconnects, haddr, hfd, hselect, Int.not_le.mp hconnect]
          rw [if_neg hselect, if_pos (Connect.value_nonpos c.again), ClientTruthful]
          dsimp only
          rw [connected_close_iff hfd, hagain]
          cases c.again.connects <;> cases c.closing.released <;> simp [haddr]

/-! ## The server -/

theorem not_serving_of_neg {k : Kernel} {fd : Int} (h : fd < 0) : ¬ Serving k fd :=
  fun hs => absurd hs.1 (by omega)

/-- A socket is not listening before `listen`. -/
theorem not_listening_bind (k : Kernel) (fd : Int) (bind : Bind) :
    (((k.socket fd).bind fd bind) fd).listening = false := by
  have hidle : ((k.socket fd) fd).listening = false := by
    rw [Kernel.socket, Kernel.set_self]
    rfl
  cases bind with
  | bound => rwa [Kernel.bind, Kernel.set_self]
  | addrInUse => exact hidle
  | otherError => exact hidle

theorem not_serving_bind (k : Kernel) (fd : Int) (bind : Bind) :
    ¬ Serving ((k.socket fd).bind fd bind) fd := by
  rintro ⟨-, -, hl⟩
  rw [not_listening_bind] at hl
  exact absurd hl (by decide)

theorem serving_listen_iff {k : Kernel} {fd result : Int} (hfd : 0 ≤ fd) (hresult : 0 ≤ result) :
    Serving (k.listen fd result) fd ↔ (k fd).bound = true := by
  rw [Kernel.listen, if_neg (by omega), Serving, Kernel.set_self]
  simp [hfd]

/-- Behind `listen` a socket serves exactly if `bind` gave it the address. -/
theorem serving_bind_listen_iff (k : Kernel) {fd result : Int} (hfd : 0 ≤ fd)
    (hresult : 0 ≤ result) (bind : Bind) :
    Serving (((k.socket fd).bind fd bind).listen fd result) fd ↔ bind = .bound := by
  rw [serving_listen_iff hfd hresult]
  cases bind with
  | bound =>
    rw [Kernel.bind, Kernel.set_self]
    exact iff_of_true rfl rfl
  | addrInUse =>
    rw [Kernel.bind, Kernel.socket, Kernel.set_self]
    exact iff_of_false (by decide) (by simp)
  | otherError =>
    rw [Kernel.bind, Kernel.socket, Kernel.set_self]
    exact iff_of_false (by decide) (by simp)

/-- The exits behind `bind`. -/
theorem listen_truthful_iff (k : Kernel) (t : Tcpip) (h : 0 ≤ t.sockIOfd) (bind : Bind)
    (result : Int) :
    ServerTruthful
        (if result < 0 then ⟨.error, t, (k.socket t.sockIOfd).bind t.sockIOfd bind⟩
        else ⟨.success, t,
          ((k.socket t.sockIOfd).bind t.sockIOfd bind).listen t.sockIOfd result⟩) ↔
      (0 ≤ result → bind = .bound) := by
  by_cases hresult : result < 0
  · rw [if_pos hresult]
    exact iff_of_true (truthful_error (not_serving_bind k t.sockIOfd bind))
      fun hle => absurd hle (by omega)
  · have hle : 0 ≤ result := by omega
    rw [if_neg hresult, ServerTruthful]
    dsimp only
    rw [serving_bind_listen_iff k h hle]
    simp [hle]

theorem server_truthful_iff (k : Kernel) (t : Tcpip) (c : ServerCalls) :
    ServerTruthful (createNetServer k t c) ↔
      (c.addr = false → ¬ Serving k t.sockIOfd) ∧ ¬ c.Unbound := by
  by_cases haddr : c.addr = false
  · have hno : ¬ c.Unbound := fun h => absurd (h.1.symm.trans haddr) (by decide)
    rw [createNetServer, if_pos haddr, ServerTruthful]
    simp [haddr, hno]
  · rw [createNetServer, if_neg haddr]
    have hskip : c.addr = false → ¬ Serving k t.sockIOfd := fun h => absurd h haddr
    by_cases hsocket : c.socket < 0
    · rw [if_pos hsocket]
      exact iff_of_true (truthful_error (not_serving_of_neg hsocket))
        ⟨hskip, fun h => absurd h.2.1 (by omega)⟩
    · have hfd : 0 ≤ c.socket := by omega
      have hunbound : c.Unbound ↔ c.bind = .otherError ∧ 0 ≤ c.listen := by
        simp [ServerCalls.Unbound, haddr, hfd]
      have hlisten (bind : Bind) :=
        listen_truthful_iff k { t with sockIOfd := c.socket } hfd bind c.listen
      rw [if_neg hsocket, and_iff_right hskip, hunbound]
      cases hbind : c.bind with
      | addrInUse =>
        exact iff_of_true (truthful_error (not_serving_bind k c.socket .addrInUse)) (by simp)
      | bound => exact (hlisten .bound).trans (iff_of_true (fun _ => rfl) (by simp))
      | otherError =>
        -- `listen` makes a server of a socket that did not get the address
        exact (hlisten .otherError).trans (by simp)

/-! ## Both -/

/-- A client tells the truth exactly if an address is found, or none is and the old descriptor is
connected, and the descriptor that the second `connect` connects is gone after `close`; a server
does exactly if no `listen` succeeds behind a `bind` that failed, and no old server goes on where
no address is found. -/
theorem setup_truthful_iff (k : Kernel) (t : Tcpip) :
    (∀ hostname c, ClientTruthful (createNetClient k t hostname c) ↔
      (c.addr = false → Connected k t.sockfd) ∧ (c.Reconnects → c.closing.released = true)) ∧
    (∀ c, ServerTruthful (createNetServer k t c) ↔
      (c.addr = false → ¬ Serving k t.sockIOfd) ∧ ¬ c.Unbound) :=
  ⟨client_truthful_iff k t, server_truthful_iff k t⟩

/-- A process without sockets. -/
def fresh : Kernel := fun _ => Sock.idle

/-- A host without an address is a success, and so is a port that is not to be had. -/
theorem setup_untruthful :
    ¬ ClientTruthful
      (createNetClient fresh ⟨-1, -1, [], []⟩ (bytes "nowhere")
        ⟨false, -1, .failed, 0, .failed, .done⟩) ∧
    ¬ ServerTruthful (createNetServer fresh ⟨-1, -1, [], []⟩ ⟨true, 3, .otherError, 0⟩) := by
  constructor
  · intro h
    exact absurd (h.mp rfl).1 (by decide)
  · intro h
    exact absurd (h.mp rfl).2.1 (by decide)

end PowerGuru.Net.Connecting
