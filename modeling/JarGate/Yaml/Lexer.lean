import JarGate.Yaml.Scalar
import JarGate.Yaml.Token

/-!
# The tokens of a YAML text

A colon makes a key of what stands before it on the line, so a place where a key may have begun is
remembered until then, and the marker of the key is put among the tokens that were found already. A
token that starts a column deeper than those before it opens a block, and one that starts further to
the left closes blocks.
-/

namespace JarGate.Yaml

/-- A token that a colon would make the start of a key. -/
structure PossibleKey where
  /-- How many tokens come before it. -/
  number : Nat
  line : Nat
  column : Nat
  /-- How many octets of the line come before it. -/
  octets : Nat
  /-- Whether the token stands where the block it belongs to has nothing but keys. -/
  required : Bool

/-- The state of the lexer. -/
structure Lexer where
  place : Place
  /-- The tokens found, the last one first. -/
  tokens : List Token
  count : Nat
  /-- The columns of the open blocks, the innermost first. -/
  indents : List Nat
  /-- The key that may have begun outside of flow collections, or in each open one, the innermost
  first. -/
  keys : List (Option PossibleKey)
  /-- Whether a key may begin at the next token. -/
  keyAllowed : Bool

namespace Lexer

/-- The start of a text. -/
def start (text : String) : Lexer where
  place := Place.start text
  tokens := []
  count := 0
  indents := []
  keys := [none]
  keyAllowed := true

/-- Whether the lexer is inside a flow collection. -/
def inFlow (l : Lexer) : Bool :=
  1 < l.keys.length

/-- The column of the innermost block, and one less than the first column where there is none. -/
def indent (l : Lexer) : Int :=
  match l.indents with
  | [] => -1
  | n :: _ => n

/-- Adds a token. -/
def push (l : Lexer) (t : Token) : Lexer :=
  { l with tokens := t :: l.tokens, count := l.count + 1 }

/-- Adds a token that comes after the first `number` ones. -/
def pushAt (l : Lexer) (number : Nat) (t : Token) : Lexer :=
  let later := l.count - number
  { l with
    tokens := l.tokens.take later ++ t :: l.tokens.drop later
    count := l.count + 1 }

/-- Moves on by a number of characters of the line. -/
def skip (l : Lexer) (count : Nat) : Lexer :=
  { l with place := l.place.after count }

/-! ### Keys -/

/-- The greatest number of octets from the start of a key to its colon. -/
def maxKeyLength : Nat := 1024

/-- Forgets a key that ended with its line or became too long, and fails if there has to be one. -/
def expireKey (p : Place) : Option PossibleKey → Option (Option PossibleKey)
  | none => some none
  | some k =>
    if k.line < p.line ∨ k.octets + maxKeyLength < p.octets then
      if k.required then none else some none
    else some (some k)

/-- Forgets the keys that can no longer be. -/
def expireKeys (l : Lexer) : Option Lexer := do
  return { l with keys := ← l.keys.mapM (expireKey l.place) }

/-- Forgets the key that may have begun on the innermost level, and fails if there has to be one. -/
def dropKey (l : Lexer) : Option Lexer :=
  match l.keys with
  | some k :: keys => if k.required then none else some { l with keys := none :: keys }
  | _ => some l

/-- Remembers that a key may begin at the next token. -/
def saveKey (l : Lexer) : Option Lexer :=
  if l.keyAllowed then do
    let required := !l.inFlow && l.indent == (l.place.column : Int)
    let l ← l.dropKey
    let p := l.place
    let key : PossibleKey := ⟨l.count, p.line, p.column, p.octets, required⟩
    return { l with keys := some key :: l.keys.drop 1 }
  else some l

/-- Says whether a key may begin at the next token. -/
def allowKey (l : Lexer) (allowed : Bool) : Lexer :=
  { l with keyAllowed := allowed }

/-! ### Indentation -/

/-- Opens a block at a column, unless the innermost one is as deep. Its token comes after the first
`number` ones. -/
def roll (l : Lexer) (column number : Nat) (t : Token) : Lexer :=
  if !l.inFlow && l.indent < (column : Int) then
    { l.pushAt number t with indents := column :: l.indents }
  else l

/-- Closes blocks that are deeper than a column, at most as many as are open. -/
def unrollTo (column : Int) : List Nat → Lexer → Lexer
  | [], l => { l with indents := [] }
  | n :: indents, l =>
    if column < (n : Int) then unrollTo column indents (l.push .blockEnd)
    else { l with indents := n :: indents }

/-- Closes the blocks that are deeper than a column. -/
def unroll (l : Lexer) (column : Int) : Lexer :=
  if l.inFlow then l else unrollTo column l.indents l

/-! ### Between tokens -/

/-- Skips blanks, comments and line breaks up to the next token. Tabs separate tokens only where no
key may begin. Each round skips a character at least. -/
def toToken : Nat → Lexer → Lexer
  | 0, l => l
  | rounds + 1, l =>
    match l.place.rest with
    | [] => l
    | c :: _ =>
      if isByteOrderMark c && l.place.column == 0 then toToken rounds (l.skip 1)
      else if c == ' ' || (c == '\t' && (l.inFlow || !l.keyAllowed)) then
        toToken rounds (l.skip 1)
      else if c == '#' then
        toToken rounds { l with place := l.place.afterWhile (!isBreak ·) }
      else if isBreak c then
        toToken rounds { l with
          place := l.place.nextLine, keyAllowed := l.keyAllowed || !l.inFlow }
      else l

/-! ### Tokens -/

/-- Ends all blocks, as the start and the end of a document do. -/
def endBlocks (l : Lexer) : Option Lexer := do
  return (← (l.unroll (-1)).dropKey).allowKey false

/-- A token of some characters that no key can begin with. -/
def mark (l : Lexer) (length : Nat) (t : Token) (keyAllowed : Bool) : Option Lexer := do
  return (((← l.dropKey).allowKey keyAllowed).push t).skip length

/-- A directive, and the rest of its line. -/
def directive (l : Lexer) : Option Lexer := do
  let l ← l.endBlocks
  let (t, rest) ← Token.directive? (l.place.rest.drop 1)
  return { l with place := ← restOfLine? (l.place.reach rest) }.push t

/-- The start of a flow collection. -/
def flowStart (l : Lexer) (t : Token) : Option Lexer := do
  let l ← l.saveKey
  return (({ l with keys := none :: l.keys }.allowKey true).push t).skip 1

/-- The end of a flow collection. -/
def flowEnd (l : Lexer) (t : Token) : Option Lexer := do
  let l ← l.dropKey
  let keys := if l.inFlow then l.keys.drop 1 else l.keys
  return (({ l with keys }.allowKey false).push t).skip 1

/-- The mark of an entry or of a key that is not in a flow collection and opens its block. -/
def blockMark (l : Lexer) (opening : Token) : Option Lexer :=
  if l.inFlow then some l
  else if l.keyAllowed then some (l.roll l.place.column l.count opening)
  else none

/-- The colon that ends a key, which may be empty. -/
def colon (l : Lexer) : Option Lexer :=
  match l.keys with
  | some k :: keys =>
    let l := { l.pushAt k.number .key with keys := none :: keys }
    some (((l.roll k.column k.number .blockMappingStart).allowKey false).push .value |>.skip 1)
  | _ => do
    let l ← l.blockMark .blockMappingStart
    return ((l.allowKey (!l.inFlow)).push .value).skip 1

/-- A token that a key may begin with, and that moves to another place. -/
def content (l : Lexer) (read : Place → Option (Token × Place)) : Option Lexer := do
  let l ← l.saveKey
  let (t, p) ← read l.place
  return { l.allowKey false with place := p }.push t

/-- A scalar in quotes. -/
def quotedScalar (single : Bool) (p : Place) : Option (Token × Place) := do
  let (text, p) ← quoted single (p.after 1)
  return (.scalar (String.ofList text) false, p)

/-- A scalar without quotes. -/
def plainScalar (l : Lexer) : Option Lexer := do
  let l ← l.saveKey
  let s ← plain l.inFlow (l.indent + 1) l.place
  return { l.allowKey s.onNewLine with place := s.place }.push
    (.scalar (String.ofList s.text) true)

/-- A scalar that is an indented block. -/
def blockScalar (l : Lexer) (literal : Bool) : Option Lexer := do
  let l ← l.dropKey
  let (text, p) ← block literal l.indent (l.place.after 1)
  return { l.allowKey true with place := p }.push (.scalar (String.ofList text) false)

/-- The characters that a plain scalar cannot start with, whatever follows them. -/
def isIndicator (c : Char) : Bool :=
  ",[]\x7b\x7d#&*!|>'\"%@\x60".toList.contains c

/-- Whether a plain scalar starts with these characters. -/
def startsPlain (inFlow : Bool) : List Char → Bool
  | '-' :: c :: _ => !isBlank c
  | '-' :: [] => true
  | '?' :: rest | ':' :: rest => !inFlow && !atGap rest
  | c :: _ => !isIndicator c && !isBlank c
  | [] => false

/-- The token at a place that has one. -/
def token (l : Lexer) : Option Lexer :=
  match l.place.rest with
  | [] => some l
  | c :: rest =>
    let separate := l.inFlow || atGap rest
    if c == '%' && l.place.column == 0 then l.directive
    else if l.place.atDocumentMarker then do
      let l ← l.endBlocks
      return (l.push (if c == '-' then .documentStart else .documentEnd)).skip 3
    else if c == '[' then l.flowStart .flowSequenceStart
    else if c == '\x7b' then l.flowStart .flowMappingStart
    else if c == ']' then l.flowEnd .flowSequenceEnd
    else if c == '\x7d' then l.flowEnd .flowMappingEnd
    else if c == ',' then l.mark 1 .flowEntry true
    else if c == '-' && atGap rest then do
      (← l.blockMark .blockSequenceStart).mark 1 .blockEntry true
    else if c == '?' && separate then do
      (← l.blockMark .blockMappingStart).mark 1 .key (!l.inFlow)
    else if c == ':' && separate then l.colon
    else if c == '*' then
      l.content fun p => (Token.anchorName? (p.after 1)).map fun (n, p) => (.alias n, p)
    else if c == '&' then
      l.content fun p => (Token.anchorName? (p.after 1)).map fun (n, p) => (.anchor n, p)
    else if c == '!' then l.content (Token.tag? l.inFlow)
    else if c == '|' && !l.inFlow then l.blockScalar true
    else if c == '>' && !l.inFlow then l.blockScalar false
    else if c == '\'' then l.content (quotedScalar true)
    else if c == '"' then l.content (quotedScalar false)
    else if startsPlain l.inFlow l.place.rest then l.plainScalar
    else none

/-- Finds tokens up to the end of the text. A token takes a character at least, so as many rounds as
characters are enough. -/
def run : Nat → Lexer → Option Lexer
  | 0, _ => none
  | rounds + 1, l => do
    let l ← (toToken (l.place.size + 1) l).expireKeys
    let l := l.unroll l.place.column
    if l.place.rest.isEmpty then return (← l.endBlocks).push .streamEnd
    else run rounds (← l.token)

end Lexer

/-- The tokens of a text, if all its characters are allowed and each belongs to a token. -/
def tokens? (text : String) : Option (List Token) :=
  if text.toList.all isAllowed then
    let l := Lexer.start text
    (l.run (l.place.size + 1)).map (·.tokens.reverse)
  else none

end JarGate.Yaml
