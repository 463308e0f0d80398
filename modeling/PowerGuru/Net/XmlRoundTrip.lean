import PowerGuru.Net.Commands
import PowerGuru.Net.XmlVerbatim

/-!
# Commands that are read back

`createCommand` puts its arguments between tags as they are, and `extractNode` keeps the
first line of a value. A command is read back exactly if its arguments are plain.
-/
namespace PowerGuru.Net.RoundTrip

open Lib.Bytes Common Xml XmlText Commands

/-! ## What `parseMem` makes of them -/

/-- The text is parsed and converted, to a tree of this kind. -/
def Decodes (libxml : Libxml) (s : List Byte) (P : XMLNode → Prop) : Prop :=
  ∃ x, parseMem libxml none s = .ok (true, some x) ∧ P x

/-- A command whose only child has the name and the value. -/
def IsCommand (name value : List Byte) (x : XMLNode) : Prop :=
  x.name = bytes "command" ∧ ∃ c, x.children = [c] ∧ c.name = name ∧ c.value = value

/-- A HELO with its two children. -/
def IsHelo (host user : List Byte) (x : XMLNode) : Prop :=
  x.name = bytes "command" ∧ ∃ c, x.children = [c] ∧ c.name = bytes "helo" ∧
    ∃ h u, c.children = [h, u] ∧ h.name = bytes "hostname" ∧ h.value = host ∧
      u.name = bytes "user" ∧ u.value = user

theorem decodes_iff {libxml : Libxml} {s : List Byte} (hs : s ≠ []) {P : XMLNode → Prop} :
    Decodes libxml s P ↔ ∃ root x, libxml s = some root ∧ extractNode root = .ok x ∧ P x := by
  have hl : ¬ s.length = 0 := fun h => hs (List.length_eq_zero_iff.mp h)
  rw [Decodes]
  simp only [parseMem, if_neg hl]
  cases libxml s with
  | none => simp
  | some root => simp [bind_ok_iff, pure, Except.pure]

/-! ## The tags -/

def commandTag : TagName := ⟨bytes "command", by decide, by decide, by decide⟩
def listTag : TagName := ⟨bytes "list", by decide, by decide, by decide⟩
def pollTag : TagName := ⟨bytes "poll", by decide, by decide, by decide⟩
def nopTag : TagName := ⟨bytes "nop", by decide, by decide, by decide⟩
def heloTag : TagName := ⟨bytes "helo", by decide, by decide, by decide⟩
def hostnameTag : TagName := ⟨bytes "hostname", by decide, by decide, by decide⟩
def userTag : TagName := ⟨bytes "user", by decide, by decide, by decide⟩

/-- The commands whose argument is one text. -/
def tagOf : Cmd → Option TagName
  | .nop => some nopTag
  | .list => some listTag
  | .poll => some pollTag
  | _ => none

theorem tagOf_cases {cmd : Cmd} {tag : TagName} (h : tagOf cmd = some tag) :
    (cmd = .nop ∧ tag = nopTag) ∨ (cmd = .list ∧ tag = listTag) ∨
      (cmd = .poll ∧ tag = pollTag) := by
  cases cmd with
  | nop => exact Or.inl ⟨rfl, (Option.some.inj h).symm⟩
  | list => exact Or.inr (Or.inl ⟨rfl, (Option.some.inj h).symm⟩)
  | poll => exact Or.inr (Or.inr ⟨rfl, (Option.some.inj h).symm⟩)
  | helo => exact absurd h (by simp [tagOf])
  | result => exact absurd h (by simp [tagOf])
  | event => exact absurd h (by simp [tagOf])

/-- What is behind the text in a command. -/
def behind (tag : TagName) : List Byte := tag.stop ++ (commandTag.stop ++ [LF])

theorem tagged_eq (tag : TagName) (x : List Byte) :
    tagged tag.name x = tag.start ++ (x ++ tag.stop) := by
  simp [tagged, TagName.start, TagName.stop, bytes]

theorem createCommand_body {cmd : Cmd} (h : cmd ≠ .result) (args str : List Byte) :
    createCommand cmd args str =
      commandTag.start ++ (createBody cmd args ++ (commandTag.stop ++ [LF])) := by
  simp [createCommand, h, TagName.start, TagName.stop, commandTag, bytes, LF]

theorem createCommand_text {cmd : Cmd} {tag : TagName} (h : tagOf cmd = some tag)
    (args str : List Byte) :
    createCommand cmd args str = commandTag.start ++ (tag.start ++ (args ++ behind tag)) := by
  have hbody : cmd ≠ .result ∧ createBody cmd args = tagged tag.name args := by
    rcases tagOf_cases h with ⟨rfl, rfl⟩ | ⟨rfl, rfl⟩ | ⟨rfl, rfl⟩ <;> exact ⟨by simp, rfl⟩
  rw [createCommand_body hbody.1, hbody.2, tagged_eq]
  simp [behind]

/-- The text of a HELO. -/
def heloText (host user : List Byte) : List Byte :=
  commandTag.start ++ (heloTag.start ++ (hostnameTag.start ++ (host ++ (hostnameTag.stop ++
    (userTag.start ++ (user ++ (userTag.stop ++ behind heloTag)))))))

theorem createHelo_text {host : List Byte} (h : blank ∉ host) (user str : List Byte) :
    createCommand .helo (host ++ blank :: user) str = heloText host user := by
  have hall : ∀ b ∈ host, (b != blank) = true :=
    fun b hb => bne_iff_ne.mpr fun he => h (he ▸ hb)
  have hhost : hostname (host ++ blank :: user) = host := by
    rw [hostname, List.takeWhile_append_of_pos hall]
    simp
  have huser : Commands.user (host ++ blank :: user) = some user := by
    rw [Commands.user, if_pos (by simp), List.dropWhile_append_of_pos hall]
    simp
  have hbody : createBody .helo (host ++ blank :: user) =
      tagged heloTag.name (tagged hostnameTag.name host ++ tagged userTag.name user) := by
    rw [createBody, hhost, huser]
    rfl
  rw [createCommand_body (by simp), hbody, tagged_eq, tagged_eq, tagged_eq]
  simp [behind, heloText]

/-! ## One text -/

/-- One line of legal character data without a reference. -/
def Plain (x : List Byte) : Prop := legal x = true ∧ Verbatim x

instance (x : List Byte) : Decidable (Plain x) :=
  inferInstanceAs (Decidable (legal x = true ∧ Verbatim x))

theorem tagOf_ascii {cmd : Cmd} {tag : TagName} (h : tagOf cmd = some tag) :
    (commandTag.start ++ tag.start).all isAscii = true ∧ legal (behind tag) = true := by
  rcases tagOf_cases h with ⟨-, rfl⟩ | ⟨-, rfl⟩ | ⟨-, rfl⟩ <;> decide

theorem stop_cons (tag : TagName) (z : List Byte) :
    tag.stop ++ z = 60 :: (47 :: (tag.name ++ [62]) ++ z) := rfl

theorem legal_text {cmd : Cmd} {tag : TagName} (h : tagOf cmd = some tag) (args : List Byte) :
    legal (commandTag.start ++ (tag.start ++ (args ++ behind tag))) = legal args := by
  obtain ⟨hascii, hrest⟩ := tagOf_ascii h
  rw [behind, stop_cons] at hrest ⊢
  rw [← List.append_assoc, legal_between hascii, hrest, Bool.and_true]

theorem size_stop (tag : TagName) (z : List Byte) :
    size (tag.stop ++ z) = size tag.name + 4 + size z := by
  have hopen : size (bytes "</") = 3 := rfl
  have hclose : size [62] = 1 := rfl
  rw [TagName.stop, size_append, size_append, size_append, hopen, hclose]
  omega

theorem extractNode_value {name : List Byte} {ps : List (List Byte × Option (List Byte))}
    {children : List Node} {x : XMLNode} (h : extractNode (.element name ps children) = .ok x) :
    x.value = valueOf children := by
  obtain ⟨as, -, xs, -, rfl⟩ := extractNode_element.mp h
  rfl

/-- The first child is the first element. -/
theorem extractNode_children {name tag : List Byte} {ps : List (List Byte × Option (List Byte))}
    {inner sibs : List Node} {x : XMLNode}
    (h : extractNode (.element name ps (.element tag [] inner :: sibs)) = .ok x) :
    ∃ c cs, x.children = c :: cs ∧ extractNode (.element tag [] inner) = .ok c ∧
      extractChildren sibs = .ok cs := by
  obtain ⟨as, -, xs, hxs, rfl⟩ := extractNode_element.mp h
  have helement : (Node.element tag [] inner).isElement = true := rfl
  rw [extractChildren_cons, if_pos helement] at hxs
  obtain ⟨c, hc, cs, hcs, rfl⟩ := hxs
  exact ⟨c, cs, rfl, hc, hcs⟩

theorem plain_of_decodes {libxml : Libxml} {cmd : Cmd} {tag : TagName} (h : tagOf cmd = some tag)
    {args str : List Byte}
    (hlib : libxml (createCommand cmd args str) = document (createCommand cmd args str))
    (hd : Decodes libxml (createCommand cmd args str) (IsCommand tag.name args)) : Plain args := by
  have htext := createCommand_text h args str
  have hne : createCommand cmd args str ≠ [] := by rw [htext]; simp [TagName.start]
  obtain ⟨root, x, hroot, hx, -, c, hchildren, -, hvalue⟩ := (decodes_iff hne).mp hd
  rw [hlib, htext] at hroot
  obtain ⟨hlegal, n, children, t, r, hcontent, hclose, rfl⟩ := document_inv hroot
  obtain ⟨m, inner, u, v, sibs, hinner, hstop, hsibs, rfl⟩ := content_tag_inv hcontent
  obtain ⟨c', cs, hcs, hc, -⟩ := extractNode_children hx
  obtain rfl : c = c' := by rw [hchildren] at hcs; exact (List.cons.inj hcs).1
  rw [extractNode_value hc] at hvalue
  refine ⟨(legal_text h args).symm.trans hlegal, ?_⟩
  rw [behind, stop_cons] at hinner
  rcases verbatim_or_costly hinner hvalue with hv | hcost
  · exact hv
  · rw [← stop_cons, size_append, size_stop, size_stop] at hcost
    have h1 := size_closeTag hstop
    have h2 := fits_content m _ _ _ _ hsibs
    have h3 := size_closeTag hclose
    have hlf : size [LF] = 1 := rfl
    omega

/-- A text between tags, with more behind it. -/
theorem content_tagged {x : List Byte} (h : Verbatim x) (tag : TagName) (n : Nat) (scope : Scope)
    (z : List Byte) :
    content (n+3) scope (tag.start ++ (x ++ (tag.stop ++ z))) =
      (content (n+2) scope z).map fun q => (.element tag.name [] (leaf x) :: q.1, q.2) := by
  rw [content_tag, content_leaf h, enclosed, closeTag_stop]
  rfl

theorem extractNode_bare {name : List Byte} {children : List Node} {xs : List XMLNode}
    (h : extractChildren children = .ok xs) :
    extractNode (.element name [] children) = .ok ⟨name, valueOf children, xs, []⟩ :=
  extractNode_element.mpr ⟨[], rfl, xs, h, rfl⟩

/-- A leaf of any name. -/
theorem extractNode_leaf (name : List Byte) {x : List Byte} (h : Verbatim x) :
    extractNode (.element name [] (leaf x)) = .ok ⟨name, x, [], []⟩ := by
  have hchildren : extractChildren (leaf x) = .ok [] := by
    by_cases hx : x = []
    · rw [leaf, if_pos hx]
      rfl
    · rw [leaf, if_neg hx]
      rfl
  have hvalue := valueOf_leaf h.2.2.1
  rw [extractNode_bare hchildren, hvalue]

theorem extractChildren_element {name : List Byte} {children ns : List Node} {x : XMLNode}
    {xs : List XMLNode} (hx : extractNode (.element name [] children) = .ok x)
    (hxs : extractChildren ns = .ok xs) :
    extractChildren (.element name [] children :: ns) = .ok (x :: xs) := by
  rw [extractChildren_cons, if_pos (show (Node.element _ _ _).isElement = true from rfl)]
  exact ⟨x, hx, xs, hxs, rfl⟩

theorem extractChildren_nil : extractChildren [] = .ok [] := rfl

theorem decodes_of_plain {libxml : Libxml} {cmd : Cmd} {tag : TagName} (h : tagOf cmd = some tag)
    {args str : List Byte}
    (hlib : libxml (createCommand cmd args str) = document (createCommand cmd args str))
    (hp : Plain args) : Decodes libxml (createCommand cmd args str) (IsCommand tag.name args) := by
  have htext := createCommand_text h args str
  have hne : createCommand cmd args str ≠ [] := by rw [htext]; simp [TagName.start]
  have hlegal := (legal_text h args).trans hp.1
  have hfuel : ∃ k, (commandTag.start ++ (tag.start ++ (args ++ behind tag))).length = k + 3 := by
    refine ⟨_, (Nat.sub_add_cancel ?_).symm⟩
    simp only [List.length_append, show commandTag.start.length = 9 from rfl]
    omega
  obtain ⟨k, hk⟩ := hfuel
  have hcontent : content (commandTag.start ++ (tag.start ++ (args ++ behind tag))).length
      [bytes "xml"] (tag.start ++ (args ++ behind tag)) =
        some ([.element tag.name [] (leaf args)], commandTag.stop ++ [LF]) := by
    rw [hk, behind, content_tagged hp.2, content_stop]
    rfl
  rw [decodes_iff hne, hlib, htext, document_intro hlegal hcontent]
  have hleaf := extractNode_leaf tag.name hp.2
  have hcommand := extractChildren_element hleaf extractChildren_nil
  exact ⟨_, _, rfl, extractNode_bare hcommand, rfl, _, rfl, rfl, rfl⟩

/-! ## HELO -/

theorem legal_helo (host user : List Byte) :
    legal (heloText host user) = (legal host && legal user) := by
  have hfront : (commandTag.start ++ (heloTag.start ++ hostnameTag.start)).all isAscii = true := by
    decide
  have hmiddle : (hostnameTag.stop ++ userTag.start).all isAscii = true := by decide
  have hback : legal (userTag.stop ++ behind heloTag) = true := by decide
  have htext : heloText host user =
      (commandTag.start ++ (heloTag.start ++ hostnameTag.start)) ++ (host ++ (hostnameTag.stop ++
        (userTag.start ++ (user ++ (userTag.stop ++ behind heloTag))))) := by
    simp [heloText]
  rw [htext, stop_cons hostnameTag, legal_between hfront, ← stop_cons, ← List.append_assoc,
    stop_cons userTag, legal_between hmiddle, ← stop_cons, hback, Bool.and_true]

/-- An element takes its name, and its value if there is one. -/
theorem size_value {n : Node} (he : n.isElement = true) {x : XMLNode} (h : extractNode n = .ok x) :
    size x.name + 4 + size x.value ≤ nodeSize n := by
  cases n with
  | text content => exact absurd he (by simp [Node.isElement])
  | comment content => exact absurd he (by simp [Node.isElement])
  | element name ps children =>
    obtain ⟨as, -, xs, -, rfl⟩ := extractNode_element.mp h
    rw [nodeSize]
    cases children with
    | nil => simp [valueOf]
    | cons c cs =>
      have hline := size_firstLine_le c.getContent
      have hcontent : size c.getContent ≤ nodeSize c := by
        cases c with
        | element n ps cs => exact size_characters _
        | text content => exact size_characters _
        | comment content => rw [nodeSize, Node.getContent]
      simp only [List.isEmpty_cons, Bool.false_eq_true, if_false, valueOf, nodesSize_cons]
      omega

theorem size_only {ns : List Node} {x : XMLNode} (h : extractChildren ns = .ok [x]) :
    size x.name + 4 + size x.value ≤ nodesSize ns := by
  induction ns with
  | nil => exact absurd h (by simp [extractChildren])
  | cons n ns ih =>
    rw [extractChildren_cons] at h
    rw [nodesSize_cons]
    split at h
    · next he =>
      obtain ⟨y, hy, ys, -, hxy⟩ := h
      obtain ⟨rfl, -⟩ := List.cons.inj hxy
      have hvalue := size_value he hy
      omega
    · have hrest := ih h
      omega

theorem size_start (tag : TagName) (z : List Byte) :
    size (tag.start ++ z) = size tag.name + 2 + size z := by
  have hopen : cost 60 = 1 := rfl
  have hclose : size [62] = 1 := rfl
  rw [TagName.start, List.cons_append, size_cons, size_append, size_append, hopen, hclose]
  omega

theorem plain_of_helo {libxml : Libxml} {host user : List Byte}
    (hlib : libxml (heloText host user) = document (heloText host user))
    (hd : Decodes libxml (heloText host user) (IsHelo host user)) : Plain host ∧ Plain user := by
  have hne : heloText host user ≠ [] := by simp [heloText, TagName.start]
  obtain ⟨root, x, hroot, hx, -, c, hchildren, -, h, u, hpair, -, hhost, hname, huser⟩ :=
    (decodes_iff hne).mp hd
  rw [hlib, heloText] at hroot
  obtain ⟨hlegal, n, children, t, r, hcontent, hclose, rfl⟩ := document_inv hroot
  obtain ⟨m, inner, t1, v1, sibs, hinner, hstop, hsibs, rfl⟩ := content_tag_inv hcontent
  obtain ⟨k, innerH, t2, v2, sibsH, hinnerH, hstopH, hsibsH, rfl⟩ := content_tag_inv hinner
  obtain ⟨c', cs, hcs, hc, -⟩ := extractNode_children hx
  obtain rfl : c = c' := by rw [hchildren] at hcs; exact (List.cons.inj hcs).1
  obtain ⟨h', hs, hhs, hh, hrest⟩ := extractNode_children hc
  obtain ⟨rfl, rfl⟩ : h = h' ∧ [u] = hs := by rw [hpair] at hhs; exact List.cons.inj hhs
  rw [extractNode_value hh] at hhost
  rw [← heloText, legal_helo, Bool.and_eq_true] at hlegal
  have hlf : size [LF] = 1 := rfl
  have h1 := size_closeTag hstop
  have h2 := fits_content m _ _ _ _ hsibs
  have h3 := size_closeTag hclose
  have hverbatim : Verbatim host := by
    have hinner' := hinnerH
    rw [stop_cons] at hinner'
    rcases verbatim_or_costly hinner' hhost with hv | hcost
    · exact hv
    · rw [← stop_cons, size_append, size_stop, size_start, size_append, size_stop, behind,
        size_stop, size_stop] at hcost
      have h4 := size_closeTag hstopH
      have h5 := fits_content k _ _ _ _ hsibsH
      have h6 := size_only hrest
      have h7 : size u.name = size userTag.name := by rw [hname]; rfl
      have h8 : size userTag.name = 4 := rfl
      rw [huser] at h6
      omega
  obtain ⟨rfl, rfl⟩ := content_leaf_inv hverbatim hinnerH
  rw [closeTag_stop] at hstopH
  obtain rfl := Option.some.inj hstopH
  obtain ⟨j, innerU, t3, v3, sibsU, hinnerU, hstopU, hsibsU, rfl⟩ := content_tag_inv hsibsH
  rw [extractChildren_cons, if_pos (show (Node.element _ _ _).isElement = true from rfl)] at hrest
  obtain ⟨u', hu, us, -, hus⟩ := hrest
  obtain rfl : u' = u := (List.cons.inj hus).1
  rw [extractNode_value hu] at huser
  refine ⟨⟨hlegal.1, hverbatim⟩, hlegal.2, ?_⟩
  rw [stop_cons] at hinnerU
  rcases verbatim_or_costly hinnerU huser with hv | hcost
  · exact hv
  · rw [← stop_cons, size_append, size_stop, behind, size_stop, size_stop] at hcost
    have h4 := size_closeTag hstopU
    have h5 := fits_content j _ _ _ _ hsibsU
    omega

theorem content_helo {host user : List Byte} (hh : Verbatim host) (hu : Verbatim user) (k : Nat)
    (scope : Scope) :
    content (k+6) scope (heloTag.start ++ (hostnameTag.start ++ (host ++ (hostnameTag.stop ++
      (userTag.start ++ (user ++ (userTag.stop ++ behind heloTag))))))) =
      some ([.element heloTag.name [] [.element hostnameTag.name [] (leaf host),
        .element userTag.name [] (leaf user)]], commandTag.stop ++ [LF]) := by
  rw [content_tag, content_tagged hh, content_tagged hu, behind, content_stop]
  simp only [Option.map_some, enclosed, closeTag_stop, Option.bind_some, content_stop]

theorem helo_of_plain {libxml : Libxml} {host user : List Byte}
    (hlib : libxml (heloText host user) = document (heloText host user))
    (hh : Plain host) (hu : Plain user) :
    Decodes libxml (heloText host user) (IsHelo host user) := by
  have hne : heloText host user ≠ [] := by simp [heloText, TagName.start]
  have hlegal : legal (heloText host user) = true := by rw [legal_helo, hh.1, hu.1]; rfl
  have hfuel : ∃ k, (heloText host user).length = k + 6 := by
    refine ⟨_, (Nat.sub_add_cancel ?_).symm⟩
    simp only [heloText, List.length_append, show commandTag.start.length = 9 from rfl]
    omega
  obtain ⟨k, hk⟩ := hfuel
  have hcontent := content_helo hh.2 hu.2 k [bytes "xml"]
  rw [← hk] at hcontent
  rw [decodes_iff hne, hlib, heloText, document_intro hlegal hcontent]
  have huser := extractChildren_element (extractNode_leaf userTag.name hu.2) extractChildren_nil
  have hpair := extractChildren_element (extractNode_leaf hostnameTag.name hh.2) huser
  have hhelo := (extractNode_bare hpair : extractNode (.element heloTag.name [] _) = _)
  have hcommand := extractChildren_element hhelo extractChildren_nil
  exact ⟨_, _, rfl, extractNode_bare hcommand, rfl, _, rfl, rfl, _, _, rfl, rfl, rfl, rfl, rfl⟩

/-! ## All commands -/

/-- If libxml2 parses the documents that begin with a command exactly as XML has them, a command
is read back if and only if every text in it is plain. -/
theorem createCommand_decodes_iff (libxml : Libxml)
    (hlib : ∀ s, libxml (commandTag.start ++ s) = document (commandTag.start ++ s)) :
    (∀ cmd tag, tagOf cmd = some tag → ∀ args str,
      (Decodes libxml (createCommand cmd args str) (IsCommand tag.name args) ↔ Plain args)) ∧
    (∀ host user, blank ∉ host → ∀ str,
      (Decodes libxml (createCommand .helo (host ++ blank :: user) str) (IsHelo host user) ↔
        Plain host ∧ Plain user)) := by
  constructor
  · intro cmd tag h args str
    have hs : libxml (createCommand cmd args str) = document (createCommand cmd args str) := by
      rw [createCommand_text h]
      exact hlib _
    exact ⟨plain_of_decodes h hs, decodes_of_plain h hs⟩
  · intro host user hblank str
    rw [createHelo_text hblank]
    have hs : libxml (heloText host user) = document (heloText host user) := hlib _
    exact ⟨plain_of_helo hs, fun h => helo_of_plain hs h.1 h.2⟩

/-- `foo`, as the tests have it. -/
theorem createCommand_foo :
    Decodes document (createCommand .list (bytes "foo") [])
      (IsCommand listTag.name (bytes "foo")) :=
  ((createCommand_decodes_iff document fun _ => rfl).1 .list listTag rfl (bytes "foo") []).mpr
    (by decide)

/-- An ampersand. -/
theorem createCommand_ampersand :
    ¬ Decodes document (createCommand .list (bytes "a&b") [])
      (IsCommand listTag.name (bytes "a&b")) := by
  intro h
  have hplain := plain_of_decodes (show tagOf .list = some listTag from rfl) rfl h
  exact absurd hplain (by decide)

end PowerGuru.Net.RoundTrip
