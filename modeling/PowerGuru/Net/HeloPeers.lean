import PowerGuru.Net.Encodings

/-!
# The helo of two peers

`heloCreate` writes what the sender calls remote into `client` and itself into `server`.
The receiver compares the first with what it calls remote and the second with itself, so
what it accepts is the helo of a peer with its own four texts.
-/
namespace PowerGuru.Net.HeloPeers

open Lib.Bytes Common Xml XmlText Messages RoundTrip Encodings

/-! ## Results -/

mutual

/-- What the methods return while `process` walks the tree, with the tags. -/
def results : Msgs → XMLNode → Except Crash (List (List Byte × ErrorCode))
  | m, ⟨name, value, children, attributes⟩ => do
      let xml : XMLNode := ⟨name, value, children, attributes⟩
      let fptr ← methodGet name
      let rs ← resultsAll (fptr m xml).2 children
      return (name, (fptr m xml).1) :: rs

def resultsAll : Msgs → List XMLNode → Except Crash (List (List Byte × ErrorCode))
  | _, [] => .ok []
  | m, xml :: xmls => do
      let rs ← results m xml
      let m' ← process m xml
      let rs' ← resultsAll m' xmls
      return rs ++ rs'

end

/-- The text is parsed and processed to its end, with these results. -/
def Answers (libxml : Libxml) (m : Msgs) (text : List Byte)
    (P : List (List Byte × ErrorCode) → Prop) : Prop :=
  Decodes libxml (delivered text) fun root => ∃ rs, results m root = .ok rs ∧ P rs

/-- Both handlers are called and none of them objects. -/
def Accepts (libxml : Libxml) (m : Msgs) (text : List Byte) : Prop :=
  Answers libxml m text fun rs => ∀ tag ∈ [bytes "client", bytes "server"],
    (tag, .success) ∈ rs ∧ (tag, .notSupported) ∉ rs

/-- One of the handlers objects. -/
def Rejects (libxml : Libxml) (m : Msgs) (text : List Byte) : Prop :=
  Answers libxml m text fun rs => ∃ tag ∈ [bytes "client", bytes "server"],
    (tag, .notSupported) ∈ rs

/-- What each side calls itself is what the other calls remote. -/
def Mirror (a b : Msgs) : Prop :=
  a.thisip = b.remoteip ∧ a.thishost = b.remotehost ∧
    b.thisip = a.remoteip ∧ b.thishost = a.remotehost

/-- Host names and addresses have no markup. -/
structure Peer extends Msgs where
  thisip_ok : legal thisip = true ∧ Quotable thisip
  remoteip_ok : legal remoteip = true ∧ Quotable remoteip
  thishost_ok : Plain thishost
  remotehost_ok : Plain remotehost

/-! ## The text of a helo -/

def clientTag : TagName := ⟨bytes "client", by decide, by decide, by decide⟩

def serverTag : TagName := ⟨bytes "server", by decide, by decide, by decide⟩

def ipName : PropertyName := ⟨⟨bytes "ip", by decide, by decide, by decide⟩, by decide⟩

/-- An element with an address and a host. -/
def hostText (tag : TagName) (ip host z : List Byte) : List Byte :=
  tag.with ipName ip (host ++ (tag.stop ++ z))

def heloText (m : Msgs) : List Byte :=
  powerguruTag.with versionName version (hostText clientTag m.remoteip m.remotehost
    (hostText serverTag m.thisip m.thishost powerguruTag.stop))

theorem heloCreate_eq (m : Msgs) : heloCreate m = ends (heloText m) := by
  simp [heloCreate, heloText, hostText, header, TagName.with, TagName.stop, PropertyName.text,
    powerguruTag, versionName, clientTag, serverTag, ipName, bytes]

theorem legal_host {tag : TagName} (ht : legal tag.name = true ∧ tag.name.all isAscii = true)
    {ip host : List Byte} (hip : legal ip = true) (hhost : legal host = true) (z : List Byte) :
    legal (hostText tag ip host z) = legal z := by
  have hfront : (60 :: (tag.name ++ [32, 105, 112, 61, 34])).all isAscii = true := by
    rw [List.all_cons, List.all_append, ht.2]
    decide
  have hstop : (tag.name ++ [62]).all isAscii = true := by
    rw [List.all_append, ht.2]
    decide
  have htext : hostText tag ip host z = (60 :: (tag.name ++ [32, 105, 112, 61, 34])) ++
      (ip ++ 34 :: 62 :: (host ++ 60 :: 47 :: ((tag.name ++ [62]) ++ z))) := by
    simp [hostText, TagName.with, TagName.stop, PropertyName.text, ipName, bytes]
  rw [htext, legal_ascii_append hfront, legal_append (by decide), hip, legal_cons (by decide),
    legal_cons (by decide), legal_append (by decide), hhost, legal_cons (by decide),
    legal_cons (by decide), legal_ascii_append hstop]
  rfl

theorem legal_heloText (p : Peer) : legal (heloText p.toMsgs) = true := by
  have hfront : (powerguruTag.with versionName version []).all isAscii = true := by decide
  have htext : ∀ s, powerguruTag.with versionName version s =
      powerguruTag.with versionName version [] ++ s := by
    intro s
    simp [TagName.with, PropertyName.text]
  rw [heloText, htext, legal_ascii_append hfront,
    legal_host (by decide) p.remoteip_ok.1 p.remotehost_ok.1,
    legal_host (by decide) p.thisip_ok.1 p.thishost_ok.1]
  decide

theorem document_heloText (p : Peer) :
    document (heloText p.toMsgs) = some (.element powerguruTag.name (property versionName version)
      [.element clientTag.name (property ipName p.remoteip) (leaf p.remotehost),
        .element serverTag.name (property ipName p.thisip) (leaf p.thishost)]) := by
  have hfuel : ∃ k, (heloText p.toMsgs).length = k + 4 := by
    refine ⟨(heloText p.toMsgs).length - 4, (Nat.sub_add_cancel ?_).symm⟩
    have hstop : 4 ≤ powerguruTag.stop.length := by decide
    simp only [heloText, hostText, TagName.with, PropertyName.text, List.length_cons,
      List.length_append]
    omega
  obtain ⟨k, hk⟩ := hfuel
  have hstop := content_stop powerguruTag (k+1) [bytes "xml"] []
  rw [List.append_nil] at hstop
  apply document_attribute powerguruTag versionName (by decide) (legal_heloText p)
  rw [← heloText, hk, hostText, hostText,
    content_attribute clientTag ipName p.remoteip_ok.2 p.remotehost_ok.2,
    content_attribute serverTag ipName p.thisip_ok.2 p.thishost_ok.2, hstop]
  rfl

theorem lf_not_mem_heloText (p : Peer) : LF ∉ heloText p.toMsgs := by
  have hip : ∀ {ip : List Byte}, Quotable ip → LF ∉ ip := by
    intro ip h hm
    exact absurd (h.2.2.2 LF hm (by decide)) (by decide)
  have h1 := hip p.remoteip_ok.2
  have h2 := hip p.thisip_ok.2
  have h3 := p.remotehost_ok.2.2.2.1
  have h4 := p.thishost_ok.2.2.2.1
  simp only [LF] at h1 h2 h3 h4
  simp [heloText, hostText, TagName.with, TagName.stop, PropertyName.text, powerguruTag,
    versionName, version, clientTag, serverTag, ipName, bytes, LF, h1, h2, h3, h4]

/-- The helo arrives as it was written. -/
theorem delivered_helo (p : Peer) : delivered (heloCreate p.toMsgs) = heloText p.toMsgs := by
  have hnul := nul_not_mem_of_legal (legal_heloText p)
  rw [delivered, heloCreate_eq, ends, cstr_append_nul [] hnul,
    cutAtLast_of_not_mem (lf_not_mem_heloText p)]

/-! ## Its tree -/

def hostNode (tag : TagName) (ip host : List Byte) : XMLNode :=
  ⟨tag.name, host, [], [(ipName.name, ip)]⟩

theorem extractNode_host (tag : TagName) {ip host : List Byte} (hip : ip ≠ []) (h : Plain host) :
    extractNode (.element tag.name (property ipName ip) (leaf host)) =
      .ok (hostNode tag ip host) := by
  have hattributes : extractAttributes [] (property ipName ip) = .ok [(ipName.name, ip)] := by
    rw [property, if_neg hip]
    rfl
  have hchildren : extractChildren (leaf host) = .ok [] := by
    by_cases hx : host = []
    · rw [leaf, if_pos hx]
      rfl
    · rw [leaf, if_neg hx]
      rfl
  refine extractNode_element.mpr ⟨_, hattributes, [], hchildren, ?_⟩
  rw [valueOf_leaf h.2.2.2.1]
  rfl

/-- The two elements of a helo. -/
def heloChildren (m : Msgs) : List Node :=
  [.element clientTag.name (property ipName m.remoteip) (leaf m.remotehost),
    .element serverTag.name (property ipName m.thisip) (leaf m.thishost)]

def heloNode (m : Msgs) : XMLNode :=
  ⟨bytes "powerguru", valueOf (heloChildren m), [hostNode clientTag m.remoteip m.remotehost,
    hostNode serverTag m.thisip m.thishost], [(bytes "version", version)]⟩

theorem property_filled {ip : List Byte} (h : ∀ a ∈ property ipName ip, a.2.isSome = true) :
    ip ≠ [] := by
  intro he
  have hnone := h (ipName.name, none) (by rw [property, if_pos he]; exact List.mem_singleton_self _)
  exact absurd hnone (by simp)

section
variable {libxml : Libxml}
variable (hlib : ∀ s, libxml (bytes "<powerguru" ++ s) = document (bytes "<powerguru" ++ s))
include hlib

/-- An address that is not set is an empty attribute, which `extractNode` follows. -/
theorem decodes_helo (p : Peer) (P : XMLNode → Prop) :
    Decodes libxml (delivered (heloCreate p.toMsgs)) P ↔
      p.remoteip ≠ [] ∧ p.thisip ≠ [] ∧ P (heloNode p.toMsgs) := by
  have hne : heloText p.toMsgs ≠ [] := by simp [heloText, TagName.with]
  have htree : libxml (heloText p.toMsgs) = some (.element powerguruTag.name
      (property versionName version) (heloChildren p.toMsgs)) :=
    (hlib (versionName.text version (hostText clientTag p.remoteip p.remotehost
      (hostText serverTag p.thisip p.thishost powerguruTag.stop)))).trans (document_heloText p)
  rw [delivered_helo]
  by_cases hset : p.remoteip ≠ [] ∧ p.thisip ≠ []
  · have hserver := extractNode_host serverTag hset.2 p.thishost_ok
    have hclient := extractNode_host clientTag hset.1 p.remotehost_ok
    have hchildren : extractChildren (heloChildren p.toMsgs) =
        .ok [hostNode clientTag p.remoteip p.remotehost,
          hostNode serverTag p.thisip p.thishost] := by
      rw [heloChildren, extractChildren_cons,
        if_pos (show (Node.element _ _ _).isElement = true from rfl)]
      refine ⟨_, hclient, [hostNode serverTag p.thisip p.thishost], ?_, rfl⟩
      rw [extractChildren_cons, if_pos (show (Node.element _ _ _).isElement = true from rfl)]
      exact ⟨_, hserver, [], rfl, rfl⟩
    rw [decodes_of_tree htree (extractNode_root hchildren) hne]
    exact ⟨fun h => ⟨hset.1, hset.2, h⟩, fun h => h.2.2⟩
  · refine iff_of_false ?_ fun h => hset ⟨h.1, h.2.1⟩
    intro hd
    obtain ⟨root, x, hroot, hx, -⟩ := (decodes_iff hne).mp hd
    rw [htree] at hroot
    obtain rfl := Option.some.inj hroot
    obtain ⟨-, ⟨hclient, -⟩, ⟨hserver, -⟩, -⟩ := (extractNode_ok_iff _).mp ⟨x, hx⟩
    exact hset ⟨property_filled hclient, property_filled hserver⟩

end

/-! ## What the receiver makes of it -/

theorem clientProcess_same (m : Msgs) (xml : XMLNode) : (clientProcess m xml).2 = m := by
  unfold clientProcess
  split
  · rfl
  · split <;> rfl

/-- The results for a helo, by those of the two handlers. -/
def verdicts (client server : ErrorCode) : List (List Byte × ErrorCode) :=
  [(bytes "powerguru", .success), (bytes "client", client), (bytes "server", server)]

theorem results_helo (m sender : Msgs) :
    results m (heloNode sender) =
      .ok (verdicts (clientProcess m (hostNode clientTag sender.remoteip sender.remotehost)).1
        (serverProcess m (hostNode serverTag sender.thisip sender.thishost)).1) := by
  have hroot : methodGet (bytes "powerguru") = .ok powerguruProcess := rfl
  have hclient : methodGet clientTag.name = .ok clientProcess := rfl
  have hserver : methodGet serverTag.name = .ok serverProcess := rfl
  simp only [heloNode, results, resultsAll, process, processAll, processNode, hostNode, hroot,
    hclient, hserver, powerguruProcess, bind, Except.bind, pure, Except.pure]
  rw [clientProcess_same]
  rfl

/-- The results of a helo are those of its two handlers. -/
theorem answers_helo (m sender : Msgs) (P : List (List Byte × ErrorCode) → Prop) :
    (∃ rs, results m (heloNode sender) = .ok rs ∧ P rs) ↔
      P (verdicts (clientProcess m (hostNode clientTag sender.remoteip sender.remotehost)).1
        (serverProcess m (hostNode serverTag sender.thisip sender.thishost)).1) := by
  rw [results_helo]
  simp

theorem verdicts_accept_iff (a b : ErrorCode) :
    (∀ tag ∈ [bytes "client", bytes "server"],
      (tag, .success) ∈ verdicts a b ∧ (tag, .notSupported) ∉ verdicts a b) ↔
      a = .success ∧ b = .success := by
  cases a <;> cases b <;> decide

theorem verdicts_reject_iff (a b : ErrorCode) :
    (∃ tag ∈ [bytes "client", bytes "server"], (tag, .notSupported) ∈ verdicts a b) ↔
      ¬ (a = .success ∧ b = .success) := by
  cases a <;> cases b <;> decide

/-- The handlers compare the helo with the receiver's own texts. -/
def Same (receiver sender : Msgs) : Prop :=
  sender.thisip = receiver.thisip ∧ sender.thishost = receiver.thishost ∧
    (receiver.remoteip ≠ [] → sender.remoteip = receiver.remoteip) ∧
    (receiver.remotehost ≠ [] → sender.remotehost = receiver.remotehost)

instance (receiver sender : Msgs) : Decidable (Same receiver sender) :=
  inferInstanceAs (Decidable (_ ∧ _ ∧ (_ → _) ∧ (_ → _)))

theorem clientProcess_iff (m : Msgs) (ip host : List Byte) :
    (clientProcess m (hostNode clientTag ip host)).1 = .success ↔
      (m.remoteip ≠ [] → ip = m.remoteip) ∧ (m.remotehost ≠ [] → host = m.remotehost) := by
  have hattr : attribIs (hostNode clientTag ip host) m.remoteip = false ↔ ip ≠ m.remoteip := by
    simp [attribIs, hostNode]
  unfold clientProcess
  split
  · next h =>
    rw [hattr] at h
    exact iff_of_false (by simp) fun hs => h.2 (hs.1 h.1)
  · next h =>
    rw [hattr, not_and, not_not] at h
    split
    · next h' => exact iff_of_false (by simp) fun hs => h'.2 (hs.2 h'.1)
    · next h' =>
      rw [not_and, not_not] at h'
      exact iff_of_true rfl ⟨h, h'⟩

theorem serverProcess_iff (m : Msgs) (ip host : List Byte) :
    (serverProcess m (hostNode serverTag ip host)).1 = .success ↔
      ip = m.thisip ∧ host = m.thishost := by
  have hattr : attribIs (hostNode serverTag ip host) m.thisip = false ↔ ip ≠ m.thisip := by
    simp [attribIs, hostNode]
  unfold serverProcess
  split
  · next h =>
    rw [hattr] at h
    exact iff_of_false (by simp) fun hs => h hs.1
  · next h =>
    rw [hattr, not_not] at h
    split
    · next h' => exact iff_of_false (by simp) fun hs => h' hs.2
    · next h' => exact iff_of_true rfl ⟨h, not_not.mp h'⟩

/-- Both handlers are content with the helo of a peer with the receiver's own texts. -/
theorem handlers_iff (receiver sender : Msgs) :
    ((clientProcess receiver (hostNode clientTag sender.remoteip sender.remotehost)).1 = .success ∧
      (serverProcess receiver (hostNode serverTag sender.thisip sender.thishost)).1 = .success) ↔
      Same receiver sender := by
  rw [clientProcess_iff, serverProcess_iff, Same]
  constructor
  · rintro ⟨⟨hip, hhost⟩, hip', hhost'⟩
    exact ⟨hip', hhost', hip, hhost⟩
  · rintro ⟨hip', hhost', hip, hhost⟩
    exact ⟨⟨hip, hhost⟩, hip', hhost'⟩

section
variable {libxml : Libxml}
variable (hlib : ∀ s, libxml (bytes "<powerguru" ++ s) = document (bytes "<powerguru" ++ s))
include hlib

theorem accepts_iff (receiver sender : Peer) :
    Accepts libxml receiver.toMsgs (heloCreate sender.toMsgs) ↔
      sender.remoteip ≠ [] ∧ sender.thisip ≠ [] ∧ Same receiver.toMsgs sender.toMsgs := by
  rw [Accepts, Answers, decodes_helo hlib, answers_helo, verdicts_accept_iff, handlers_iff]

theorem rejects_iff (receiver sender : Peer) :
    Rejects libxml receiver.toMsgs (heloCreate sender.toMsgs) ↔
      sender.remoteip ≠ [] ∧ sender.thisip ≠ [] ∧ ¬ Same receiver.toMsgs sender.toMsgs := by
  rw [Rejects, Answers, decodes_helo hlib, answers_helo, verdicts_reject_iff, handlers_iff]

end

/-- The receiver is its own peer. -/
def Loopback (m : Msgs) : Prop := m.thisip = m.remoteip ∧ m.thishost = m.remotehost

instance (m : Msgs) : Decidable (Loopback m) := inferInstanceAs (Decidable (_ ∧ _))

instance (a b : Msgs) : Decidable (Mirror a b) := inferInstanceAs (Decidable (_ ∧ _ ∧ _ ∧ _))

theorem same_of_mirror {a b : Msgs} (hm : Mirror a b) : Same a b ↔ Loopback a := by
  obtain ⟨hip, hhost, hip', hhost'⟩ := hm
  rw [Same, Loopback, hip', hhost', ← hip, ← hhost]
  constructor
  · rintro ⟨h1, h2, -, -⟩
    exact ⟨h1.symm, h2.symm⟩
  · rintro ⟨h1, h2⟩
    exact ⟨h1.symm, h2.symm, fun _ => h1, fun _ => h2⟩

theorem Mirror.symm {a b : Msgs} (h : Mirror a b) : Mirror b a := ⟨h.2.2.1, h.2.2.2, h.1, h.2.1⟩

theorem loopback_of_mirror {a b : Msgs} (hm : Mirror a b) (h : Loopback a) : Loopback b :=
  ⟨by rw [hm.2.2.1, ← h.1, hm.1], by rw [hm.2.2.2, ← h.2, hm.2.1]⟩

/-- Mirror peers accept each other and others are rejected, if and only if the sender writes two
addresses and, of two mirror peers, each is its own, while other peers differ in what is
compared. -/
theorem agreement_iff (libxml : Libxml)
    (hlib : ∀ s, libxml (bytes "<powerguru" ++ s) = document (bytes "<powerguru" ++ s))
    (receiver sender : Peer) :
    ((Mirror receiver.toMsgs sender.toMsgs →
        Accepts libxml receiver.toMsgs (heloCreate sender.toMsgs) ∧
          Accepts libxml sender.toMsgs (heloCreate receiver.toMsgs)) ∧
      (¬ Mirror receiver.toMsgs sender.toMsgs →
        Rejects libxml receiver.toMsgs (heloCreate sender.toMsgs))) ↔
    sender.remoteip ≠ [] ∧ sender.thisip ≠ [] ∧
      (Mirror receiver.toMsgs sender.toMsgs → Loopback receiver.toMsgs) ∧
      (¬ Mirror receiver.toMsgs sender.toMsgs → ¬ Same receiver.toMsgs sender.toMsgs) := by
  rw [accepts_iff hlib, accepts_iff hlib, rejects_iff hlib]
  by_cases hm : Mirror receiver.toMsgs sender.toMsgs
  · have hips := hm
    obtain ⟨hip, -, hip', -⟩ := hips
    simp only [hm, true_imp_iff, not_true, false_imp_iff, and_true, same_of_mirror hm,
      same_of_mirror hm.symm]
    constructor
    · rintro ⟨⟨h1, h2, h3⟩, -⟩
      exact ⟨h1, h2, h3⟩
    · rintro ⟨h1, h2, h3⟩
      exact ⟨⟨h1, h2, h3⟩, hip' ▸ h2, hip ▸ h1, loopback_of_mirror hm h3⟩
  · simp only [hm, false_imp_iff, not_false_iff, true_imp_iff, true_and]

/-- A host that talks to itself. -/
def localhost : Peer where
  netMode := .daemon
  cache := []
  thisip := bytes "127.0.0.1"
  thishost := bytes "localhost"
  remoteip := bytes "127.0.0.1"
  remotehost := bytes "localhost"
  sent := []
  thisip_ok := by decide
  remoteip_ok := by decide
  thishost_ok := by decide
  remotehost_ok := by decide

theorem localhost_agrees :
    Accepts document localhost.toMsgs (heloCreate localhost.toMsgs) :=
  (((agreement_iff document (fun _ => rfl) localhost localhost).mpr
    ⟨by decide, by decide, fun _ => by decide, fun h => absurd (by decide) h⟩).1 (by decide)).1

/-- A daemon and its client. -/
def daemonPeer : Peer where
  netMode := .daemon
  cache := []
  thisip := bytes "192.168.0.5"
  thishost := bytes "solar"
  remoteip := bytes "192.168.0.7"
  remotehost := bytes "desk"
  sent := []
  thisip_ok := by decide
  remoteip_ok := by decide
  thishost_ok := by decide
  remotehost_ok := by decide

def clientPeer : Peer where
  netMode := .client
  cache := []
  thisip := bytes "192.168.0.7"
  thishost := bytes "desk"
  remoteip := bytes "192.168.0.5"
  remotehost := bytes "solar"
  sent := []
  thisip_ok := by decide
  remoteip_ok := by decide
  thishost_ok := by decide
  remotehost_ok := by decide

/-- The two are mirror images and reject each other. -/
theorem mirror_rejected :
    Mirror daemonPeer.toMsgs clientPeer.toMsgs ∧
      ¬ Accepts document daemonPeer.toMsgs (heloCreate clientPeer.toMsgs) := by
  refine ⟨by decide, ?_⟩
  rw [accepts_iff fun _ => rfl]
  decide

end PowerGuru.Net.HeloPeers
