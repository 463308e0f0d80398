import PowerGuru.Net.XmlText

/-!
# What markup costs

Nothing in a document is longer than the text it is read from, and whatever is no
character data is a good deal shorter. The bytes `!`, `/` and `?` count twice, so that
every comment, section, instruction and element with a content costs at least eight more
than the content.
-/
namespace PowerGuru.Net.XmlText

open Lib.Bytes Lib.Strtol Lib.Utf8 Xml

def cost (b : Byte) : Nat := if b = 33 ∨ b = 47 ∨ b = 63 then 2 else 1

def size (s : List Byte) : Nat := (s.map cost).sum

theorem cost_pos (b : Byte) : 1 ≤ cost b := by
  unfold cost
  split <;> omega

theorem cost_le (b : Byte) : cost b ≤ 2 := by
  unfold cost
  split <;> omega

@[simp] theorem size_nil : size [] = 0 := rfl

@[simp] theorem size_cons (b : Byte) (s : List Byte) : size (b :: s) = cost b + size s := rfl

@[simp] theorem size_append (s t : List Byte) : size (s ++ t) = size s + size t := by
  simp [size]

theorem length_le_size (s : List Byte) : s.length ≤ size s := by
  induction s with
  | nil => simp
  | cons b s ih =>
    have hb := cost_pos b
    rw [List.length_cons, size_cons]
    omega

theorem size_le_length (s : List Byte) : size s ≤ 2 * s.length := by
  induction s with
  | nil => simp
  | cons b s ih =>
    have hb := cost_le b
    rw [List.length_cons, size_cons]
    omega

theorem size_pos {s : List Byte} (h : s ≠ []) : 1 ≤ size s := by
  have hl := List.length_pos_iff.mpr h
  have hs := length_le_size s
  omega

theorem size_split (p : Byte → Bool) (s : List Byte) :
    size (s.takeWhile p) + size (s.dropWhile p) = size s := by
  rw [← size_append, List.takeWhile_append_dropWhile]

theorem size_dropWhile_le (p : Byte → Bool) (s : List Byte) : size (s.dropWhile p) ≤ size s := by
  have h := size_split p s
  omega

theorem takeWhile_of_size {p : Byte → Bool} {s : List Byte}
    (h : size s ≤ size (s.takeWhile p)) : s.takeWhile p = s := by
  have hs := size_split p s
  have hd : s.dropWhile p = [] := by
    by_contra hne
    have hpos := size_pos hne
    omega
  conv_rhs => rw [← List.takeWhile_append_dropWhile (p := p) (l := s), hd, List.append_nil]

theorem size_strip {word s t : List Byte} (h : strip word s = some t) :
    size word + size t = size s := by
  rw [strip_eq_some_iff.mp h, size_append]

/-! ## Character data -/

theorem size_high {l : List Byte} (h : ∀ b ∈ l, 128 ≤ b.toNat) : size l = l.length := by
  induction l with
  | nil => rfl
  | cons b l ih =>
    have hb : cost b = 1 := by
      have hhigh := h b List.mem_cons_self
      have hne : ¬ (b = 33 ∨ b = 47 ∨ b = 63) := by
        intro hc
        rcases hc with rfl | rfl | rfl <;> exact absurd hhigh (by decide)
      exact if_neg hne
    rw [size_cons, hb, ih fun c hc => h c (List.mem_cons_of_mem b hc), List.length_cons]
    omega

theorem toNat_high {n : Nat} (hl : 128 ≤ n) (hu : n < 256) : 128 ≤ (UInt8.ofNat n).toNat := by
  rw [UInt8.toNat_ofNat']
  omega

theorem size_encode {c : Nat} (h : c ≤ 0x10FFFF) :
    size (encode c) ≤ 2 ∨ (128 ≤ c ∧ size (encode c) ≤ 4) := by
  by_cases hc : c < 0x80
  · have hs := size_le_length (encode c)
    have hl : (encode c).length = 1 := by rw [encode, if_pos hc]; rfl
    omega
  · right
    have hall : (∀ b ∈ encode c, 128 ≤ b.toNat) ∧ (encode c).length ≤ 4 := by
      rw [encode, if_neg hc]
      split
      · simp only [List.forall_mem_cons]
        exact ⟨⟨toNat_high (by omega) (by omega), toNat_high (by omega) (by omega), by simp⟩,
          by simp⟩
      · split
        · simp only [List.forall_mem_cons]
          exact ⟨⟨toNat_high (by omega) (by omega), toNat_high (by omega) (by omega),
            toNat_high (by omega) (by omega), by simp⟩, by simp⟩
        · simp only [List.forall_mem_cons]
          exact ⟨⟨toNat_high (by omega) (by omega), toNat_high (by omega) (by omega),
            toNat_high (by omega) (by omega), toNat_high (by omega) (by omega), by simp⟩, by simp⟩
    have hsize := size_high hall.1
    omega

/-- A character takes more than two bytes only if its reference has more than `k` digits. -/
theorem size_charRef {base k : Nat} (hb : 0 < base) (hk : base^k ≤ 128) {ds x : List Byte}
    (h : charRef base ds = some x) :
    1 ≤ size ds ∧ (size x ≤ 2 ∨ (k < size ds ∧ size x ≤ 4)) := by
  rw [charRef] at h
  split at h
  · next hc =>
    obtain ⟨hne, -, hchar⟩ := hc
    obtain rfl := Option.some.inj h
    have hlimit : digitsFrom base 0 ds ≤ 0x10FFFF := by
      simp only [isChar, Bool.or_eq_true, Bool.and_eq_true, beq_iff_eq, decide_eq_true_eq] at hchar
      omega
    refine ⟨size_pos hne, ?_⟩
    rcases size_encode hlimit with hs | ⟨hbig, hs⟩
    · exact Or.inl hs
    · refine Or.inr ⟨?_, hs⟩
      have hlen : k < ds.length := by
        by_contra hle
        have hlt := digitsFrom_lt hb 0 ds
        have hpow : base^ds.length ≤ base^k := Nat.pow_le_pow_right hb (by omega)
        omega
      have hsize := length_le_size ds
      omega
  · exact absurd h (by simp)

theorem size_refer {ref x : List Byte} (h : refer ref = some x) : size x < size ref + 2 := by
  have hentity : ∀ word c : List Byte, size c ≤ size word → ref = word → c = x →
      size x < size ref + 2 := by
    intro word c hc hr hx
    rw [hr, ← hx]
    omega
  rw [refer] at h
  split at h
  · next hr => exact hentity _ _ (by decide) hr (Option.some.inj h)
  split at h
  · next hr => exact hentity _ _ (by decide) hr (Option.some.inj h)
  split at h
  · next hr => exact hentity _ _ (by decide) hr (Option.some.inj h)
  split at h
  · next hr => exact hentity _ _ (by decide) hr (Option.some.inj h)
  split at h
  · next hr => exact hentity _ _ (by decide) hr (Option.some.inj h)
  split at h
  · next ds hs =>
    have hword : size (bytes "#x") = 2 := rfl
    have hds := size_strip hs
    have hc := size_charRef (show 0 < 16 by decide) (show 16^1 ≤ 128 by decide) h
    omega
  · split at h
    · next ds hs =>
      have hword : size (bytes "#") = 1 := rfl
      have hds := size_strip hs
      have hc := size_charRef (show 0 < 10 by decide) (show 10^2 ≤ 128 by decide) h
      omega
    · exact absurd h (by simp)

theorem expand_sizes (s : List Byte) :
    (∀ t, expand none s = some t → size t ≤ size s ∧ (size t = size s → t = s ∧ 38 ∉ s)) ∧
    ∀ ref t, expand (some ref) s = some t → size t < size ref + 1 + size s := by
  induction s with
  | nil =>
    constructor
    · intro t h
      obtain rfl := Option.some.inj h
      simp
    · intro ref t h
      exact absurd h (by simp [expand])
  | cons b s ih =>
    obtain ⟨ihText, ihRef⟩ := ih
    constructor
    · intro t h
      rw [expand] at h
      split at h
      · next hb =>
        have hlt := ihRef [] t h
        have hc : cost b = 1 := by rw [hb]; rfl
        rw [size_nil] at hlt
        rw [size_cons, hc]
        exact ⟨by omega, by omega⟩
      · next hb =>
        obtain ⟨u, hu, rfl⟩ := Option.map_eq_some_iff.mp h
        obtain ⟨hle, heq⟩ := ihText u hu
        rw [size_cons, size_cons]
        refine ⟨by omega, ?_⟩
        intro he
        obtain ⟨rfl, hn⟩ := heq (by omega)
        exact ⟨rfl, by simp [hn, Ne.symm hb]⟩
    · intro ref t h
      rw [expand] at h
      split at h
      · next hb =>
        split at h
        · next c hc =>
          obtain ⟨u, hu, rfl⟩ := Option.map_eq_some_iff.mp h
          have hle := (ihText u hu).1
          have href := size_refer hc
          have hrev : size ref.reverse = size ref := by simp [size]
          have h59 : cost b = 1 := by rw [hb]; rfl
          rw [size_append, size_cons, h59]
          omega
        · exact absurd h (by simp)
      · have hlt := ihRef (b :: ref) t h
        rw [size_cons] at hlt ⊢
        omega

/-- Text is as long as it is written only if it has no reference. -/
theorem expand_size {s t : List Byte} (h : expand none s = some t) :
    size t ≤ size s ∧ (size t = size s → t = s ∧ 38 ∉ s) := (expand_sizes s).1 t h

theorem expand_of_not_mem {s : List Byte} (h : 38 ∉ s) : expand none s = some s := by
  induction s with
  | nil => rfl
  | cons b s ih =>
    obtain ⟨hb, hs⟩ := not_or.mp (List.mem_cons.not.mp h)
    rw [expand, if_neg (Ne.symm hb), ih hs]
    rfl

/-! ## Line ends -/

theorem size_normalize (s : List Byte) : size (normalize s) ≤ size s := by
  induction s with
  | nil => simp [normalize]
  | cons b s ih =>
    have hb := cost_pos b
    have hlf : cost LF = 1 := rfl
    rw [normalize]
    split
    · split
      · rw [size_cons]; omega
      · rw [size_cons, size_cons]; omega
    · rw [size_cons, size_cons]; omega

theorem cr_not_mem_normalize (s : List Byte) : CR ∉ normalize s := by
  induction s with
  | nil => simp [normalize]
  | cons b s ih =>
    have hlf : CR ≠ LF := by decide
    rw [normalize]
    split
    · split
      · exact ih
      · simp [hlf, ih]
    · next hb => simp [Ne.symm hb, ih]

theorem normalize_of_not_mem {s : List Byte} (h : CR ∉ s) : normalize s = s := by
  induction s with
  | nil => rfl
  | cons b s ih =>
    obtain ⟨hb, hs⟩ := not_or.mp (List.mem_cons.not.mp h)
    rw [normalize, if_neg (Ne.symm hb), ih hs]

/-! ## Tags -/

theorem size_readName {s name t : List Byte} (h : readName s = some (name, t)) :
    size name + size t = size s ∧ 1 ≤ size name := by
  rw [readName] at h
  split at h
  · next hv =>
    obtain ⟨rfl, rfl⟩ := Prod.mk.inj (Option.some.inj h)
    refine ⟨size_split isNameByte s, size_pos ?_⟩
    intro he
    rw [he] at hv
    exact absurd hv (by decide)
  · exact absurd h (by simp)

theorem size_readValue {s v t : List Byte} (h : readValue s = some (v, t)) : size t ≤ size s := by
  rw [readValue] at h
  split at h
  · exact absurd h (by simp)
  next e s' hs =>
  split at h
  · exact absurd h (by simp)
  next q u hu =>
  split at h
  · exact absurd h (by simp)
  next b rest hrest =>
  have h1 := size_dropWhile_le isS s
  have h2 := size_dropWhile_le isS s'
  have h3 := size_dropWhile_le (· != q) u
  rw [hs, size_cons] at h1
  rw [hu, size_cons] at h2
  rw [hrest, size_cons] at h3
  dsimp only at h
  split at h
  · obtain ⟨value, -, he⟩ := Option.map_eq_some_iff.mp h
    obtain ⟨-, rfl⟩ := Prod.mk.inj he
    omega
  · exact absurd h (by simp)

theorem size_readAttributes {n : Nat} {s t : List Byte} {as : List (List Byte × List Byte)}
    (h : readAttributes n s = some (as, t)) : size t ≤ size s := by
  induction n generalizing s as with
  | zero => exact absurd h (by simp [readAttributes])
  | succ n ih =>
    rw [readAttributes] at h
    have hdrop := size_dropWhile_le isS s
    split at h
    · obtain ⟨-, rfl⟩ := Prod.mk.inj (Option.some.inj h)
      exact hdrop
    split at h
    · exact absurd h (by simp)
    split at h
    · exact absurd h (by simp)
    next name u hname =>
    split at h
    · exact absurd h (by simp)
    next value v hvalue =>
    obtain ⟨⟨as', t'⟩, hrest, he⟩ := Option.map_eq_some_iff.mp h
    obtain ⟨-, rfl⟩ := Prod.mk.inj he
    have h1 := ih hrest
    have h2 := size_readValue hvalue
    have h3 := (size_readName hname).1
    omega

theorem size_localName (scope : Scope) (name : List Byte) :
    size (localName scope name) ≤ size name := by
  have htail : ∀ s : List Byte, size s.tail ≤ size s := by
    intro s
    cases s <;> simp
  simp only [localName]
  split
  · exact (htail _).trans (size_dropWhile_le _ name)
  · exact le_refl _

theorem size_closeTag {name s r : List Byte} (h : closeTag name s = some r) :
    size name + 4 + size r ≤ size s := by
  rw [closeTag] at h
  split at h
  · exact absurd h (by simp)
  next t ht =>
  have hword := size_strip ht
  have hopen : size (bytes "</") = 3 := rfl
  have hdrop := size_dropWhile_le isS t
  rw [size_append, hopen] at hword
  split at h
  · next b r' hr =>
    rw [hr, size_cons] at hdrop
    have hb := cost_pos b
    split at h
    · obtain rfl := Option.some.inj h
      omega
    · exact absurd h (by simp)
  · exact absurd h (by simp)

/-! ## Nodes -/

mutual

/-- The least that a node takes. -/
def nodeSize : Node → Nat
  | .element name _ children =>
      if children.isEmpty = true then size name + 4 else 2 * size name + 6 + nodesSize children
  | .text x => size x
  | .comment x => size x

def nodesSize : List Node → Nat
  | [] => 0
  | n :: ns => nodeSize n + nodesSize ns

end

mutual

theorem size_characters : ∀ n : Node, size n.characters ≤ nodeSize n
  | .element name properties children => by
      have hc := size_charactersAll children
      rw [Node.characters, nodeSize]
      cases children with
      | nil => simp [charactersAll]
      | cons c cs =>
        simp only [List.isEmpty_cons, Bool.false_eq_true, if_false]
        omega
  | .text x => le_refl _
  | .comment x => by simp [Node.characters]

theorem size_charactersAll : ∀ ns : List Node, size (charactersAll ns) ≤ nodesSize ns
  | [] => le_refl _
  | n :: ns => by
      have hn := size_characters n
      have hns := size_charactersAll ns
      rw [charactersAll, nodesSize, size_append]
      omega

end

theorem nodesSize_cons (n : Node) (ns : List Node) :
    nodesSize (n :: ns) = nodeSize n + nodesSize ns := by
  rw [nodesSize]

/-- What a piece of markup costs: at least the node, and eight more than its content. -/
def Costs (s : List Byte) (node : Node) (r : List Byte) : Prop :=
  nodeSize node + size r ≤ size s ∧
    (node.getContent ≠ [] → size node.getContent + 8 + size r ≤ size s)

theorem costs_comment {s r : List Byte} {node : Node} (h : comment s = some (node, r)) :
    Costs (bytes "<!--" ++ s) node r := by
  rw [comment] at h
  split at h
  · next x b r' hcut =>
    split at h
    · obtain ⟨rfl, rfl⟩ := Prod.mk.inj (Option.some.inj h)
      have hn := size_normalize x
      have hb := cost_pos b
      have hopen : size (bytes "<!--") = 5 := rfl
      have hdash : size (bytes "--") = 2 := rfl
      simp only [Costs, nodeSize, Node.getContent, eq_of_cut hcut, size_append, size_cons, hopen,
        hdash]
      exact ⟨by omega, fun _ => by omega⟩
    · exact absurd h (by simp)
  · exact absurd h (by simp)

theorem costs_cdata {s r : List Byte} {node : Node} (h : cdata s = some (node, r)) :
    Costs (bytes "<![CDATA[" ++ s) node r := by
  rw [cdata] at h
  obtain ⟨⟨x, r'⟩, hcut, he⟩ := Option.map_eq_some_iff.mp h
  obtain ⟨rfl, rfl⟩ := Prod.mk.inj he
  have hn := size_normalize x
  have hopen : size (bytes "<![CDATA[") = 10 := rfl
  have hclose : size (bytes "]]>") = 3 := rfl
  simp only [Costs, nodeSize, Node.getContent, Node.characters, eq_of_cut hcut, size_append, hopen,
    hclose]
  exact ⟨by omega, fun _ => by omega⟩

theorem costs_instruction {s r : List Byte} {node : Node} (h : instruction s = some (node, r)) :
    Costs (bytes "<?" ++ s) node r := by
  rw [instruction] at h
  split at h
  · exact absurd h (by simp)
  next x r' hcut =>
  split at h
  · exact absurd h (by simp)
  next target t hname =>
  split at h
  · next hc =>
    obtain ⟨rfl, rfl⟩ := Prod.mk.inj (Option.some.inj h)
    obtain ⟨hsize, htarget⟩ := size_readName hname
    have hopen : size (bytes "<?") = 3 := rfl
    have hclose : size (bytes "?>") = 3 := rfl
    have hn := size_normalize (t.dropWhile isS)
    have hdrop := size_dropWhile_le isS t
    simp only [Costs, nodeSize, Node.getContent, eq_of_cut hcut, size_append, hopen, hclose]
    refine ⟨by omega, ?_⟩
    intro hne
    -- a content stands behind at least one blank
    have hblank : size (t.dropWhile isS) + 1 ≤ size t := by
      rcases hc.2 with rfl | hs
      · exact absurd rfl hne
      · cases t with
        | nil => exact absurd hs (by simp)
        | cons b t =>
          have hb : isS b = true := by simpa using hs
          have hrest := size_dropWhile_le isS t
          have hcost := cost_pos b
          rw [List.dropWhile_cons, if_pos hb, size_cons]
          omega
    omega
  · exact absurd h (by simp)

/-- Nothing that is read inside costs less than its nodes. -/
def Fits (inside : Scope → List Byte → Option (List Node × List Byte)) : Prop :=
  ∀ scope s ns r, inside scope s = some (ns, r) → nodesSize ns + size r ≤ size s

theorem costs_element {inside : Scope → List Byte → Option (List Node × List Byte)}
    (hin : Fits inside) {scope : Scope} {s r : List Byte} {node : Node}
    (h : element inside scope s = some (node, r)) : Costs (bytes "<" ++ s) node r := by
  rw [element] at h
  split at h
  · exact absurd h (by simp)
  next name t hname =>
  split at h
  · exact absurd h (by simp)
  next attributes u hattributes =>
  obtain ⟨hsize, hone⟩ := size_readName hname
  have hu := size_readAttributes hattributes
  have hlocal := size_localName (declared attributes ++ scope) name
  have hopen : size (bytes "<") = 1 := rfl
  dsimp only at h
  split at h
  · split at h
    · next r' hstrip =>
      obtain ⟨rfl, rfl⟩ := Prod.mk.inj (Option.some.inj h)
      have hempty := size_strip hstrip
      have hclose : size (bytes "/>") = 3 := rfl
      refine ⟨?_, fun hne => absurd rfl hne⟩
      simp only [nodeSize, List.isEmpty_nil, if_true, size_append]
      omega
    split at h
    · exact absurd h (by simp)
    next v hstrip =>
    have hend := size_strip hstrip
    have hclose : size (bytes ">") = 1 := rfl
    split at h
    · exact absurd h (by simp)
    next children w hchildren =>
    obtain ⟨r', hr, he⟩ := Option.map_eq_some_iff.mp h
    obtain ⟨rfl, rfl⟩ := Prod.mk.inj he
    have hinside := hin _ _ _ _ hchildren
    have htag := size_closeTag hr
    have hall := size_charactersAll children
    simp only [Costs, nodeSize, Node.getContent, Node.characters, size_append]
    refine ⟨?_, fun _ => by omega⟩
    split <;> omega
  · exact absurd h (by simp)

theorem costs_item {inside : Scope → List Byte → Option (List Node × List Byte)}
    (hin : Fits inside) {scope : Scope} {s r : List Byte} {node : Node}
    (h : item inside scope s = some (node, r)) : Costs s node r := by
  rw [item] at h
  split at h
  · next t ht => rw [strip_eq_some_iff.mp ht]; exact costs_comment h
  split at h
  · next t ht => rw [strip_eq_some_iff.mp ht]; exact costs_cdata h
  split at h
  · next t ht => rw [strip_eq_some_iff.mp ht]; exact costs_instruction h
  split at h
  · next t ht => rw [strip_eq_some_iff.mp ht]; exact costs_element hin h
  · exact absurd h (by simp)

theorem size_chars {s r : List Byte} {node : Node} (h : chars s = some (node, r)) :
    nodeSize node + size r ≤ size s := by
  simp only [chars] at h
  split at h
  · exact absurd h (by simp)
  · obtain ⟨x, hx, he⟩ := Option.map_eq_some_iff.mp h
    obtain ⟨rfl, rfl⟩ := Prod.mk.inj he
    have hexpand := (expand_size hx).1
    have hnormal := size_normalize (s.takeWhile (· != 60))
    have hsplit := size_split (· != 60) s
    rw [nodeSize]
    omega

/-- The step and the run of `content`. -/
theorem fits_content (n : Nat) : Fits (content n) := by
  induction n with
  | zero =>
    intro scope s ns r h
    exact absurd h (by simp [content])
  | succ n ih =>
    intro scope s ns r h
    rcases content_succ_cases h with ⟨rfl, rfl⟩ | ⟨node, t, ns', hnode, hrest, rfl⟩
    · rw [nodesSize]
      omega
    · have hsibs := ih scope t ns' r hrest
      have hfirst : nodeSize node + size t ≤ size s := by
        split at hnode
        · exact (costs_item ih hnode).1
        · exact size_chars hnode
      rw [nodesSize_cons]
      omega

end PowerGuru.Net.XmlText
