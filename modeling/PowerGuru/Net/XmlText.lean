import PowerGuru.Lib.Strtol
import PowerGuru.Lib.Utf8
import PowerGuru.Net.Xml

/-!
# Well-formed XML

The productions of XML 1.0 with namespaces, for a document that begins with its root
element, and the tree that libxml2 makes of it. A text node holds what stands between
two tags, comments, processing instructions or CDATA sections.
-/
namespace PowerGuru.Net.XmlText

open Lib.Bytes Lib.Strtol Lib.Utf8 Xml

/-! ## Characters -/

/-- `Char`. -/
def isChar (c : Nat) : Bool :=
  c == 9 || c == 10 || c == 13 || (32 ≤ c && c ≤ 0xD7FF) || (0xE000 ≤ c && c ≤ 0xFFFD) ||
    (0x10000 ≤ c && c ≤ 0x10FFFF)

/-- `NameStartChar`. -/
def isNameStart (c : Nat) : Bool :=
  c == 58 || (65 ≤ c && c ≤ 90) || c == 95 || (97 ≤ c && c ≤ 122) || (0xC0 ≤ c && c ≤ 0xD6) ||
    (0xD8 ≤ c && c ≤ 0xF6) || (0xF8 ≤ c && c ≤ 0x2FF) || (0x370 ≤ c && c ≤ 0x37D) ||
    (0x37F ≤ c && c ≤ 0x1FFF) || (0x200C ≤ c && c ≤ 0x200D) || (0x2070 ≤ c && c ≤ 0x218F) ||
    (0x2C00 ≤ c && c ≤ 0x2FEF) || (0x3001 ≤ c && c ≤ 0xD7FF) || (0xF900 ≤ c && c ≤ 0xFDCF) ||
    (0xFDF0 ≤ c && c ≤ 0xFFFD) || (0x10000 ≤ c && c ≤ 0xEFFFF)

/-- `NameChar`. -/
def isNameChar (c : Nat) : Bool :=
  isNameStart c || c == 45 || c == 46 || (48 ≤ c && c ≤ 57) || c == 0xB7 ||
    (0x300 ≤ c && c ≤ 0x36F) || (0x203F ≤ c && c ≤ 0x2040)

/-- The text is UTF-8 and every character of it is one of XML. -/
def legal (s : List Byte) : Bool :=
  match codes none s with
  | some cs => cs.all isChar
  | none => false

/-- `S`. -/
def isS (b : Byte) : Bool := b == 32 || b == 9 || b == 13 || b == 10

/-- A byte that can stand in a name, whatever characters its neighbours make of it. -/
def isNameByte (b : Byte) : Bool := 128 ≤ b.toNat || isNameChar b.toNat

/-- `Name`. -/
def validName (name : List Byte) : Bool :=
  match codes none name with
  | some (c :: cs) => isNameStart c && cs.all isNameChar
  | _ => false

def readName (s : List Byte) : Option (List Byte × List Byte) :=
  let name := s.takeWhile isNameByte
  if validName name = true then some (name, s.dropWhile isNameByte) else none

/-! ## References and line ends -/

/-- The digits of a character reference. -/
def charRef (base : Nat) (ds : List Byte) : Option (List Byte) :=
  if ds ≠ [] ∧ ds.all (fun d => digitValue d < base) = true ∧ isChar (digitsFrom base 0 ds) = true
  then some (encode (digitsFrom base 0 ds)) else none

/-- What stands between `&` and `;`. Without a DTD only five entities are declared. -/
def refer (ref : List Byte) : Option (List Byte) :=
  if ref = bytes "lt" then some (bytes "<")
  else if ref = bytes "gt" then some (bytes ">")
  else if ref = bytes "amp" then some (bytes "&")
  else if ref = bytes "apos" then some (bytes "'")
  else if ref = bytes "quot" then some (bytes "\"")
  else
    match strip (bytes "#x") ref with
    | some ds => charRef 16 ds
    | none =>
        match strip (bytes "#") ref with
        | some ds => charRef 10 ds
        | none => none

/-- The text with its references replaced; a reference that has begun is kept in reverse. -/
def expand : Option (List Byte) → List Byte → Option (List Byte)
  | none, [] => some []
  | some _, [] => none
  | none, b :: s =>
      if b = 38 then expand (some []) s else (expand none s).map fun t => b :: t
  | some ref, b :: s =>
      if b = 59 then
        match refer ref.reverse with
        | some c => (expand none s).map fun t => c ++ t
        | none => none
      else expand (some (b :: ref)) s

/-- CR LF and a lone CR are line feeds. -/
def normalize : List Byte → List Byte
  | [] => []
  | b :: s =>
      if b = CR then (if s.head? = some LF then normalize s else LF :: normalize s)
      else b :: normalize s

/-! ## Tags -/

/-- `AttValue` behind the name: `=` and a text in quotes. -/
def readValue (s : List Byte) : Option (List Byte × List Byte) :=
  match s.dropWhile isS with
  | [] => none
  | e :: s =>
      match s.dropWhile isS with
      | [] => none
      | q :: s =>
          let raw := s.takeWhile (· != q)
          match s.dropWhile (· != q) with
          | [] => none
          | _ :: rest =>
              if e = 61 ∧ (q = 34 ∨ q = 39) ∧ 60 ∉ raw then
                (expand none ((normalize raw).map fun b => if isS b = true then 32 else b)).map
                  fun value => (value, rest)
              else none

/-- The attributes, up to the end of the tag; there is a blank in front of each. -/
def readAttributes : Nat → List Byte → Option (List (List Byte × List Byte) × List Byte)
  | 0, _ => none
  | n + 1, s =>
      let t := s.dropWhile isS
      if t.head? = some 62 ∨ t.head? = some 47 then some ([], t)
      else if (s.head?.any isS) = false then none
      else
        match readName t with
        | none => none
        | some (name, t) =>
            match readValue t with
            | none => none
            | some (value, t) => (readAttributes n t).map fun p => ((name, value) :: p.1, p.2)

/-- The prefixes that are bound. -/
abbrev Scope := List (List Byte)

/-- A name without its prefix, if that is bound. -/
def localName (scope : Scope) (name : List Byte) : List Byte :=
  let l := (name.dropWhile (· != 58)).tail
  if name.takeWhile (· != 58) ∈ scope ∧ l ≠ [] then l else name

def declared (attributes : List (List Byte × List Byte)) : Scope :=
  attributes.filterMap fun a => if a.2 = [] then none else strip (bytes "xmlns:") a.1

/-- The properties of the node: all attributes but the declarations of namespaces. -/
def properties (scope : Scope) (attributes : List (List Byte × List Byte)) :
    List (List Byte × Option (List Byte)) :=
  (attributes.filter fun a =>
      !(a.1 == bytes "xmlns" || (bytes "xmlns:").isPrefixOf a.1)).map
    fun a => (localName scope a.1, if a.2 = [] then none else some a.2)

/-- `ETag`. -/
def closeTag (name s : List Byte) : Option (List Byte) :=
  match strip (bytes "</" ++ name) s with
  | none => none
  | some t =>
      match t.dropWhile isS with
      | b :: r => if b = 62 then some r else none
      | [] => none

/-! ## Content -/

/-- A comment, from behind `<!--`. -/
def comment (s : List Byte) : Option (Node × List Byte) :=
  match cut (bytes "--") s with
  | some (x, b :: r) => if b = 62 then some (.comment (normalize x), r) else none
  | _ => none

/-- A section, from behind `<![CDATA[`. -/
def cdata (s : List Byte) : Option (Node × List Byte) :=
  (cut (bytes "]]>") s).map fun p => (.text (normalize p.1), p.2)

/-- A processing instruction, from behind `<?`. -/
def instruction (s : List Byte) : Option (Node × List Byte) :=
  match cut (bytes "?>") s with
  | none => none
  | some (x, r) =>
      match readName x with
      | none => none
      | some (target, t) =>
          if target.map (fun b => if b < 97 then b + 32 else b) ≠ bytes "xml" ∧
              (t = [] ∨ t.head?.any isS = true) then
            some (.comment (normalize (t.dropWhile isS)), r)
          else none

/-- Character data, up to the next `<`. -/
def chars (s : List Byte) : Option (Node × List Byte) :=
  let raw := s.takeWhile (· != 60)
  if occursIn (bytes "]]>") raw = true then none
  else (expand none (normalize raw)).map fun x => (.text x, s.dropWhile (· != 60))

section
variable (inside : Scope → List Byte → Option (List Node × List Byte))

/-- An element, from behind `<`. -/
def element (scope : Scope) (s : List Byte) : Option (Node × List Byte) :=
  match readName s with
  | none => none
  | some (name, t) =>
      match readAttributes (t.length + 1) t with
      | none => none
      | some (attributes, t) =>
          let scope := declared attributes ++ scope
          let node := Node.element (localName scope name) (properties scope attributes)
          if (attributes.map Prod.fst).Nodup then
            match strip (bytes "/>") t with
            | some r => some (node [], r)
            | none =>
                match strip (bytes ">") t with
                | none => none
                | some t =>
                    match inside scope t with
                    | none => none
                    | some (children, t) => (closeTag name t).map fun r => (node children, r)
          else none

/-- What begins with `<`. -/
def item (scope : Scope) (s : List Byte) : Option (Node × List Byte) :=
  match strip (bytes "<!--") s with
  | some t => comment t
  | none =>
      match strip (bytes "<![CDATA[") s with
      | some t => cdata t
      | none =>
          match strip (bytes "<?") s with
          | some t => instruction t
          | none =>
              match strip (bytes "<") s with
              | some t => element inside scope t
              | none => none

end

/-- `content`, up to an end tag. -/
def content : Nat → Scope → List Byte → Option (List Node × List Byte)
  | 0, _, _ => none
  | n + 1, scope, s =>
      if s = [] ∨ (bytes "</").isPrefixOf s = true then some ([], s)
      else
        match if s.head? = some 60 then item (content n) scope s else chars s with
        | none => none
        | some (node, t) => (content n scope t).map fun p => (node :: p.1, p.2)

/-- It ends at once, or there is a node with more of it behind. -/
theorem content_succ_cases {n : Nat} {scope : Scope} {s r : List Byte} {ns : List Node}
    (h : content (n + 1) scope s = some (ns, r)) :
    ns = [] ∧ r = s ∨
      ∃ node t ns', (if s.head? = some 60 then item (content n) scope s else chars s) =
        some (node, t) ∧ content n scope t = some (ns', r) ∧ ns = node :: ns' := by
  rw [content] at h
  split at h
  · obtain ⟨rfl, rfl⟩ := Prod.mk.inj (Option.some.inj h)
    exact Or.inl ⟨rfl, rfl⟩
  split at h
  · exact absurd h (by simp)
  next node t hnode =>
  obtain ⟨⟨ns', r'⟩, hrest, he⟩ := Option.map_eq_some_iff.mp h
  obtain ⟨rfl, rfl⟩ := Prod.mk.inj he
  exact Or.inr ⟨node, t, ns', hnode, hrest, rfl⟩

/-- `Misc*`, to the end of the text. -/
def misc : Nat → List Byte → Bool
  | 0, _ => false
  | n + 1, s =>
      let t := s.dropWhile isS
      if t = [] then true
      else
        match strip (bytes "<!--") t with
        | some u =>
            match comment u with
            | some (_, r) => misc n r
            | none => false
        | none =>
            match strip (bytes "<?") t with
            | some u =>
                match instruction u with
                | some (_, r) => misc n r
                | none => false
            | none => false

/-- The root element of the document, `none` when it is not well formed. -/
def document (s : List Byte) : Option Node :=
  if legal s = true then
    match strip (bytes "<") s with
    | none => none
    | some t =>
        match element (content s.length) [bytes "xml"] t with
        | some (root, r) => if misc (r.length + 1) r = true then some root else none
        | none => none
  else none

end PowerGuru.Net.XmlText
