import JarGate.Text.Hex
import JarGate.Text.Utf8
import JarGate.Bytes
import JarGate.Yaml.Place

/-!
# YAML tokens

The tokens of a YAML text. Indentation shows as the tokens that open and close a block. Also the
readers of the tokens that consist of a mark and a name: anchors, tags and directives. A tag is a
string of octets, since its escapes name octets and nothing says that these are a text.
-/

namespace JarGate.Yaml

/-- A token. -/
inductive Token where
  | versionDirective (major minor : Nat)
  | tagDirective (handle : String) (base : Bytes)
  | documentStart
  | documentEnd
  | blockSequenceStart
  | blockMappingStart
  | blockEnd
  | flowSequenceStart
  | flowSequenceEnd
  | flowMappingStart
  | flowMappingEnd
  | blockEntry
  | flowEntry
  | key
  | value
  | alias (name : String)
  | anchor (name : String)
  /-- A tag as its handle, which may be empty, and what is written after it. -/
  | tag (handle : String) (suffix : Bytes)
  | scalar (text : String) (plain : Bool)
  | streamEnd
  deriving DecidableEq, Repr

namespace Token

/-- The characters that may follow the name of an anchor without a gap. -/
def endsAnchor : List Char → Bool
  | c :: rest => "?:,]\x7d%@\x60".toList.contains c || atGap (c :: rest)
  | [] => true

/-- The name of an anchor or an alias after its mark. -/
def anchorName? (p : Place) : Option (String × Place) :=
  let name := p.rest.takeWhile isWordChar
  let p := p.afterWhile isWordChar
  if !name.isEmpty && endsAnchor p.rest then some (String.ofList name, p) else none

/-- Whether a tag may have the character where it stands without an escape. Within angle brackets it
may have some more. -/
def isTagChar (bracketed : Bool) (c : Char) : Bool :=
  isWordChar c || ";/?:@&=+$.!~*'()".toList.contains c ||
    (bracketed && (c == ',' || c == '[' || c == ']'))

/-- The octet of two hexadecimal digits after a percent sign. -/
def octet? : List Char → Option (UInt8 × List Char)
  | '%' :: a :: b :: rest => do
    let high ← Text.Hex.digitValue? a
    let low ← Text.Hex.digitValue? b
    return (UInt8.ofNat (high * 16 + low), rest)
  | _ => none

/-- How many octets follow the first octet of a character. -/
def tailCount? (b : UInt8) : Option Nat :=
  if b < 0x80 then some 0
  else if b < 0xC0 then none
  else if b < 0xE0 then some 1
  else if b < 0xF0 then some 2
  else if b < 0xF8 then some 3
  else none

/-- The octets that continue a character. -/
def tailOctets? : Nat → List Char → Option (Bytes × List Char)
  | 0, cs => some ([], cs)
  | n + 1, cs => do
    let (b, cs) ← octet? cs
    if 0x80 ≤ b ∧ b < 0xC0 then
      let (bs, cs) ← tailOctets? n cs
      return (b :: bs, cs)
    else none

/-- The octets of a character that is written with percent signs. Their form is checked, but not that
there is a character of these octets. -/
def escapedOctets? (cs : List Char) : Option (Bytes × List Char) := do
  let (b, cs) ← octet? cs
  let (bs, cs) ← tailOctets? (← tailCount? b) cs
  return (b :: bs, cs)

/-- The octets of a tag behind those of `done` reversed, and what follows them. Each round takes a
character at least. -/
def tagOctetsOnto (bracketed : Bool) : Nat → Bytes → List Char → Option (Bytes × List Char)
  | 0, _, _ => none
  | rounds + 1, done, cs =>
    match cs with
    | [] => some (done.reverse, [])
    | '%' :: _ =>
      match escapedOctets? cs with
      | some (bs, cs) => tagOctetsOnto bracketed rounds (bs.reverse ++ done) cs
      | none => none
    | c :: rest =>
      if isTagChar bracketed c then tagOctetsOnto bracketed rounds (c.toUInt8 :: done) rest
      else some (done.reverse, cs)

/-- The octets of a tag, and what follows them. -/
def tagOctets? (bracketed : Bool) (cs : List Char) : Option (Bytes × List Char) :=
  tagOctetsOnto bracketed (cs.length + 1) [] cs

/-- What counts of the octets of a tag: those before the first that is zero. -/
def beforeZero (bs : Bytes) : Bytes :=
  bs.takeWhile (· != 0)

/-- The part of a tag up to its second exclamation mark, or up to where a handle cannot go on. -/
def handle? : List Char → Option (List Char × List Char)
  | '!' :: rest =>
    let word := rest.takeWhile isWordChar
    match rest.dropWhile isWordChar with
    | '!' :: rest => some ('!' :: word ++ ['!'], rest)
    | rest => some ('!' :: word, rest)
  | _ => none

/-- A tag. One that has nothing to say is a single exclamation mark. -/
def tag? (inFlow : Bool) (p : Place) : Option (Token × Place) := do
  let (token, rest) ← match p.rest with
    | '!' :: '<' :: rest =>
      match ← tagOctets? true rest with
      | ([], _) => none
      | (name, '>' :: rest) => some (Token.tag "" (beforeZero name), rest)
      | _ => none
    | rest => do
      let (first, rest) ← handle? rest
      if 2 ≤ first.length ∧ first.getLast? = some '!' then
        match ← tagOctets? false rest with
        | ([], _) => none
        | (name, rest) => some (.tag (String.ofList first) (beforeZero name), rest)
      else
        let (name, rest) ← tagOctets? false rest
        match beforeZero ((first.drop 1).map Char.toUInt8 ++ name) with
        | [] => some (.tag "" (Text.Utf8.encode "!"), rest)
        | suffix => some (.tag "!" suffix, rest)
  if atGap rest || (inFlow && rest.head? == some ',') then return (token, p.reach rest) else none

/-- A number of at most nine digits. -/
def versionNumber? (cs : List Char) : Option (Nat × List Char) :=
  let ds := cs.takeWhile Char.isDigit
  if ds.isEmpty || 9 < ds.length then none
  else
    some (ds.foldl (fun n d => n * 10 + (d.toNat - '0'.toNat)) 0, cs.dropWhile Char.isDigit)

/-- The version of the language that a directive gives. -/
def version? (cs : List Char) : Option (Token × List Char) := do
  let (major, cs) ← versionNumber? cs
  match cs with
  | '.' :: cs =>
    let (minor, cs) ← versionNumber? cs
    return (.versionDirective major minor, cs)
  | _ => none

/-- The handle that a directive declares, and what it stands for. -/
def declaration? (cs : List Char) : Option (Token × List Char) := do
  let (handle, cs) ← handle? cs
  if handle ≠ ['!'] ∧ handle.getLast? ≠ some '!' then none
  match cs with
  | [] => none
  | c :: _ => if isBlank c then pure () else none
  match ← tagOctets? true (cs.dropWhile isBlank) with
  | ([], _) => none
  | (base, rest) =>
    if atGap rest then return (.tagDirective (String.ofList handle) (beforeZero base), rest)
    else none

/-- A directive after its percent sign, up to the end of what it says. -/
def directive? (cs : List Char) : Option (Token × List Char) :=
  let name := String.ofList (cs.takeWhile isWordChar)
  let rest := cs.dropWhile isWordChar
  if atGap rest then
    let arguments := rest.dropWhile isBlank
    if name == "YAML" then version? arguments
    else if name == "TAG" then declaration? arguments
    else none
  else none

end Token

end JarGate.Yaml
