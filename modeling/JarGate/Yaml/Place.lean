/-!
# Places in a YAML text

A text is a list of characters in which every line ends in a single break. A `Place` is what is left
of it, with the line and the column reached; the octets of the line so far are counted too, since
they limit the length of keys. Two of the break characters count as text when lines are folded; the
others are all written as a line feed from the start.
-/

namespace JarGate.Yaml

/-- The separators that end a line and are kept in the text of a scalar. -/
def isSeparator (c : Char) : Bool :=
  c.toNat == 0x2028 || c.toNat == 0x2029

/-- A character that ends a line, after `unifyBreaks`. -/
def isBreak (c : Char) : Bool :=
  c == '\n' || isSeparator c

/-- A character that may stand between the words of a line. -/
def isBlank (c : Char) : Bool :=
  c == ' ' || c == '\t'

/-- The character that may open a line without being part of it. -/
def isByteOrderMark (c : Char) : Bool :=
  c.toNat == 0xFEFF

/-- A character of the names of anchors, directives and tag handles. -/
def isWordChar (c : Char) : Bool :=
  c.isAlphanum || c == '_' || c == '-'

/-- A character that a text may contain. -/
def isAllowed (c : Char) : Bool :=
  let n := c.toNat
  n == 0x09 || n == 0x0A || n == 0x0D || (0x20 ≤ n && n ≤ 0x7E) || n == 0x85 ||
    (0xA0 ≤ n && n ≤ 0xD7FF) || (0xE000 ≤ n && n ≤ 0xFFFD) || 0x10000 ≤ n

/-- Writes each end of line as a single line feed, behind the characters of `done` reversed; the
separators stay. -/
def unifyBreaksOnto (done : List Char) : List Char → List Char
  | [] => done.reverse
  | '\r' :: '\n' :: cs => unifyBreaksOnto ('\n' :: done) cs
  | c :: cs =>
    unifyBreaksOnto ((if c = '\r' ∨ c.toNat = 0x85 then '\n' else c) :: done) cs

/-- The characters of a text with its ends of lines unified. -/
def unifyBreaks (text : String) : List Char :=
  unifyBreaksOnto [] text.toList

/-- Whether characters end, or go on with a blank or a break. -/
def atGap : List Char → Bool
  | [] => true
  | c :: _ => isBlank c || isBreak c

/-- How many octets characters are written with. -/
def octetCount (cs : List Char) : Nat :=
  cs.foldl (fun n c => n + c.utf8Size) 0

/-- How many characters come before the next break. -/
def lineLength (cs : List Char) : Nat :=
  (cs.takeWhile (!isBreak ·)).length

/-- What is left of a text, and where that is. -/
structure Place where
  rest : List Char
  line : Nat
  column : Nat
  /-- How many octets of the line come before. -/
  octets : Nat
  /-- How many characters the whole text has. No more than these are left. -/
  size : Nat
  deriving Repr

namespace Place

/-- The start of a text. -/
def start (text : String) : Place :=
  let cs := unifyBreaks text
  ⟨cs, 0, 0, 0, cs.length⟩

/-- A later place, before which its line has nothing but blanks. -/
def afterBlanks (p : Place) (rest : List Char) (line column : Nat) : Place :=
  { p with rest, line, column, octets := column }

/-- The place after some characters, none of which is a break. -/
def after (p : Place) (count : Nat) : Place :=
  { p with
    rest := p.rest.drop count
    column := p.column + count
    octets := p.octets + octetCount (p.rest.take count) }

/-- The place on the same line where `rest` is left. -/
def reach (p : Place) (rest : List Char) : Place :=
  p.after (lineLength p.rest - lineLength rest)

/-- The place after all characters of a class, none of which is a break. -/
def afterWhile (p : Place) (test : Char → Bool) : Place :=
  p.after (p.rest.takeWhile test).length

/-- The start of the next line, from the break that ends this one. -/
def nextLine (p : Place) : Place :=
  match p.rest with
  | c :: rest =>
    if isBreak c then { p with rest, line := p.line + 1, column := 0, octets := 0 } else p
  | [] => p

/-- Whether a line starts here with the marker of the start or the end of a document. -/
def atDocumentMarker (p : Place) : Bool :=
  p.column == 0 &&
    match p.rest with
    | '-' :: '-' :: '-' :: rest => atGap rest
    | '.' :: '.' :: '.' :: rest => atGap rest
    | _ => false

end Place

end JarGate.Yaml
