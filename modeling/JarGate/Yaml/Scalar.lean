import JarGate.Text.Hex
import JarGate.Yaml.Place

/-!
# The text of scalars

A scalar is written plain, in quotes, or as an indented block. In the first two, a line break stands
for a space, and each further break for itself; in a block the breaks are kept, or folded likewise
between lines that start with no blank. Each reader answers the text and the place after it.
-/

namespace JarGate.Yaml

/-- What a run of breaks stands for where lines are folded. -/
def folded : List Char → List Char
  | [] => []
  | ['\n'] => [' ']
  | '\n' :: breaks => breaks
  | breaks => breaks

/-! ### Plain scalars -/

/-- How far a plain scalar goes on one line. -/
inductive PlainLine where
  /-- The characters of the line, and what follows them and the blanks behind them. -/
  | ends (text : List Char) (rest : List Char)
  | unexpectedColon

/-- Whether a colon that is followed by these characters ends a plain scalar. -/
def endsPlain (inFlow : Bool) : List Char → Bool
  | ':' :: rest => atGap rest
  | c :: _ => inFlow && (c == ',' || c == '[' || c == ']' || c == '\x7b' || c == '\x7d')
  | [] => true

/-- Whether a colon stands before an indicator of a flow collection, where it can neither belong to a
scalar nor end it. -/
def isStrayColon : List Char → Bool
  | ':' :: c :: _ =>
    c == ',' || c == '?' || c == '[' || c == ']' || c == '\x7b' || c == '\x7d'
  | _ => false

/-- The part of a plain scalar on one line, behind the characters of `done` reversed. Blanks are part
of it if more text follows them. -/
def plainLine (inFlow : Bool) (blanks done : List Char) : List Char → PlainLine
  | [] => .ends done.reverse []
  | c :: rest =>
    if isBreak c then .ends done.reverse (c :: rest)
    else if isBlank c then plainLine inFlow (c :: blanks) done rest
    else if c == '#' && !blanks.isEmpty then .ends done.reverse (c :: rest)
    else if inFlow && isStrayColon (c :: rest) then .unexpectedColon
    else if endsPlain inFlow (c :: rest) then .ends done.reverse (c :: rest)
    else plainLine inFlow [] (c :: (blanks ++ done)) rest

/-- The breaks from a line and column on, which are behind `p`, with those of `done` reversed in front
of them, and the first place after them that has text. Blanks between them are skipped; one that
`refuses` their column and themselves fails. -/
def skipLines (refuses : Nat → Char → Bool) (p : Place) (done : List Char) (line column : Nat) :
    List Char → Option (List Char × Place)
  | [] => some (done.reverse, p.afterBlanks [] line column)
  | c :: rest =>
    if isBreak c then skipLines refuses p (c :: done) (line + 1) 0 rest
    else if isBlank c then
      if refuses column c then none else skipLines refuses p done line (column + 1) rest
    else some (done.reverse, p.afterBlanks (c :: rest) line column)

/-- A plain scalar: its text, the place after it, and whether that is on a line of its own. -/
structure PlainScalar where
  text : List Char
  place : Place
  onNewLine : Bool

/-- Reads a plain scalar from a place where it goes on, after the characters `done` and the breaks
`breaks`. Each round but the last reads a line. -/
def plainFrom (inFlow : Bool) (indent : Int) : Nat → List Char → List Char → Place →
    Option PlainScalar
  | 0, _, _, _ => none
  | rounds + 1, done, breaks, p =>
    match plainLine inFlow [] [] p.rest with
    | .unexpectedColon => none
    | .ends [] _ => some ⟨done, p, !breaks.isEmpty⟩
    | .ends text rest =>
      let done := done ++ folded breaks ++ text
      let p := p.reach rest
      let refuses (column : Nat) (c : Char) : Bool := (column : Int) < indent && c == '\t'
      match rest with
      | [] => some ⟨done, p, false⟩
      | c :: _ =>
        if isBreak c then
          match skipLines refuses p [] p.line p.column rest with
          | none => none
          | some (breaks, p) =>
            if p.rest.isEmpty || (!inFlow && (p.column : Int) < indent) || p.atDocumentMarker ||
                p.rest.head? == some '#' then
              some ⟨done, p, true⟩
            else plainFrom inFlow indent rounds done breaks p
        else some ⟨done, p, false⟩

/-- Reads a plain scalar. Outside of flow collections it ends where a line is indented less than
`indent`. -/
def plain (inFlow : Bool) (indent : Int) (p : Place) : Option PlainScalar :=
  plainFrom inFlow indent (p.size + 1) [] [] p

/-! ### Quoted scalars -/

/-- How far a quoted scalar goes on one line. -/
inductive QuotedLine where
  /-- The closing quote was found; `rest` follows it. -/
  | closed (text rest : List Char)
  /-- The line ends at `rest`, and the break counts. -/
  | broken (text rest : List Char)
  /-- The line ends at `rest`, and the break does not count. -/
  | joined (text rest : List Char)
  | malformed

/-- The character of an escape without digits in double quotes. -/
def escaped? (c : Char) : Option Char :=
  match c with
  | '0' => some (Char.ofNat 0x00)
  | 'a' => some (Char.ofNat 0x07)
  | 'b' => some (Char.ofNat 0x08)
  | 't' | '\t' => some '\t'
  | 'n' => some '\n'
  | 'v' => some (Char.ofNat 0x0B)
  | 'f' => some (Char.ofNat 0x0C)
  | 'r' => some '\r'
  | 'e' => some (Char.ofNat 0x1B)
  | ' ' => some ' '
  | '"' => some '"'
  | '/' => some '/'
  | '\\' => some '\\'
  | 'N' => some (Char.ofNat 0x85)
  | '_' => some (Char.ofNat 0xA0)
  | 'L' => some (Char.ofNat 0x2028)
  | 'P' => some (Char.ofNat 0x2029)
  | _ => none

/-- The character that hexadecimal digits name. -/
def charOfHex? (digits : List Char) : Option Char := do
  let ds ← digits.mapM Text.Hex.digitValue?
  let n := ds.foldl (fun n d => n * 16 + d) 0
  if 0x10FFFF < n ∨ (0xD800 ≤ n ∧ n ≤ 0xDFFF) then none else some (Char.ofNat n)

/-- The part of a text in single quotes on one line, behind the characters of `done` reversed. -/
def singleLine (blanks done : List Char) : List Char → QuotedLine
  | [] => .malformed
  | '\'' :: '\'' :: rest => singleLine [] ('\'' :: (blanks ++ done)) rest
  | c :: rest =>
    if c = '\'' then .closed (blanks ++ done).reverse rest
    else if isBreak c then .broken done.reverse (c :: rest)
    else if isBlank c then singleLine (c :: blanks) done rest
    else singleLine [] (c :: (blanks ++ done)) rest

/-- The part of a text in double quotes on one line, behind the characters of `done` reversed. -/
def doubleLine (blanks done : List Char) : List Char → QuotedLine
  | [] => .malformed
  | '\\' :: 'x' :: a :: b :: rest =>
    match charOfHex? [a, b] with
    | some c => doubleLine [] (c :: (blanks ++ done)) rest
    | none => .malformed
  | '\\' :: 'u' :: a :: b :: c :: d :: rest =>
    match charOfHex? [a, b, c, d] with
    | some c => doubleLine [] (c :: (blanks ++ done)) rest
    | none => .malformed
  | '\\' :: 'U' :: a :: b :: c :: d :: e :: f :: g :: h :: rest =>
    match charOfHex? [a, b, c, d, e, f, g, h] with
    | some c => doubleLine [] (c :: (blanks ++ done)) rest
    | none => .malformed
  | '\\' :: c :: rest =>
    if isBreak c then .joined (blanks ++ done).reverse (c :: rest)
    else
      match escaped? c with
      | some c => doubleLine [] (c :: (blanks ++ done)) rest
      | none => .malformed
  | c :: rest =>
    if c = '"' then .closed (blanks ++ done).reverse rest
    else if c = '\\' then .malformed
    else if isBreak c then .broken done.reverse (c :: rest)
    else if isBlank c then doubleLine (c :: blanks) done rest
    else doubleLine [] (c :: (blanks ++ done)) rest

/-- Reads a quoted scalar from the start of a line of it, after the characters `done`. Each round
reads a line. -/
def quotedFrom (line : List Char → QuotedLine) : Nat → List Char → Place →
    Option (List Char × Place)
  | 0, _, _ => none
  | rounds + 1, done, p =>
    if p.atDocumentMarker then none
    else
      match line p.rest with
      | .malformed => none
      | .closed text rest => some (done ++ text, p.reach rest)
      | .broken text rest =>
        match skipLines (fun _ _ => false) p [] p.line 0 rest with
        | some (breaks, p) => quotedFrom line rounds (done ++ text ++ folded breaks) p
        | none => none
      | .joined text rest =>
        match skipLines (fun _ _ => false) p [] p.line 0 rest with
        | some (breaks, p) => quotedFrom line rounds (done ++ text ++ breaks.drop 1) p
        | none => none

/-- Reads a quoted scalar after its opening quote. -/
def quoted (single : Bool) (p : Place) : Option (List Char × Place) :=
  quotedFrom (if single then singleLine [] [] else doubleLine [] []) (p.size + 1) [] p

/-! ### Block scalars -/

/-- What is done with the breaks at the end of a block. -/
inductive Chomping where
  | strip | clip | keep
  deriving DecidableEq, Repr

/-- The chomping that a sign in the header of a block asks for. -/
def chomping? (c : Char) : Option Chomping :=
  if c = '+' then some .keep else if c = '-' then some .strip else none

/-- The indentation that a digit in the header of a block asks for. -/
def increment? (c : Char) : Option Nat :=
  if c.isDigit then some (c.toNat - '0'.toNat) else none

/-- The signs in the header of a block: its chomping, its indentation if that is given, and the
characters after the signs. -/
def blockSigns (cs : List Char) : Chomping × Option Nat × List Char :=
  let sign (cs : List Char) : Chomping × List Char :=
    match cs with
    | c :: rest => ((chomping? c).map (·, rest)).getD (.clip, cs)
    | [] => (.clip, cs)
  let digit (cs : List Char) : Option Nat × List Char :=
    match cs with
    | c :: rest => ((increment? c).map fun n => (some n, rest)).getD (none, cs)
    | [] => (none, cs)
  match cs.head?.bind increment? with
  | some _ =>
    let (n, cs) := digit cs
    let (chomping, cs) := sign cs
    (chomping, n, cs)
  | none =>
    let (chomping, cs) := sign cs
    let (n, cs) := digit cs
    (chomping, n, cs)

/-- Skips blanks and a comment, which have to be all that is left of a line. -/
def restOfLine? (p : Place) : Option Place :=
  let p := p.afterWhile isBlank
  let p := if p.rest.head? == some '#' then p.afterWhile (!isBreak ·) else p
  match p.rest with
  | [] => some p
  | c :: _ => if isBreak c then some p.nextLine else none

/-- The empty lines at a place of a block whose lines are indented by `indent`, or by a number of
columns that is not known yet. -/
structure EmptyLines where
  breaks : List Char
  /-- The greatest column that was reached. -/
  widest : Nat
  place : Place

/-- Skips empty lines from a line and column on, which are behind `p`, with the breaks of `done`
reversed in front of them; a tab where a space of the indentation is due is refused. -/
def emptyLines (indent : Option Nat) (p : Place) (done : List Char) (widest line column : Nat) :
    List Char → Option EmptyLines
  | [] => some ⟨done.reverse, max widest column, p.afterBlanks [] line column⟩
  | c :: rest =>
    let within := match indent with
      | some n => column < n
      | none => true
    if within && c == ' ' then emptyLines indent p done widest line (column + 1) rest
    else if within && c == '\t' then none
    else if isBreak c then
      emptyLines indent p (c :: done) (max widest column) (line + 1) 0 rest
    else some ⟨done.reverse, max widest column, p.afterBlanks (c :: rest) line column⟩

/-- Whether a place has a blank. -/
def startsBlank (p : Place) : Bool :=
  match p.rest with
  | c :: _ => isBlank c
  | [] => false

/-- The breaks of a block that are not written yet: the one that ended the last line, and those of
the empty lines after it. -/
structure Pending where
  ended : List Char
  empty : List Char
  /-- Whether the last line started with a blank. -/
  afterBlank : Bool

/-- What the pending breaks stand for before a line that starts with a blank or not. -/
def Pending.join (b : Pending) (literal startsBlank : Bool) : List Char :=
  if !literal && b.ended == ['\n'] && !b.afterBlank && !startsBlank then
    (if b.empty.isEmpty then [' '] else []) ++ b.empty
  else b.ended ++ b.empty

/-- Reads the lines of a block after the characters `done`. Each round reads a line. -/
def blockLines (literal : Bool) (chomping : Chomping) (indent : Nat) :
    Nat → List Char → Pending → Place → Option (List Char × Place)
  | 0, _, _, _ => none
  | rounds + 1, done, pending, p =>
    if p.column = indent ∧ !p.rest.isEmpty then
      let blank := startsBlank p
      let done := done ++ pending.join literal blank ++ p.rest.takeWhile (!isBreak ·)
      let p := p.afterWhile (!isBreak ·)
      let ended := p.rest.take 1
      let p := p.nextLine
      match emptyLines (some indent) p [] 0 p.line p.column p.rest with
      | none => none
      | some e => blockLines literal chomping indent rounds done ⟨ended, e.breaks, blank⟩ e.place
    else
      let tail := match chomping with
        | .strip => []
        | .clip => pending.ended
        | .keep => pending.ended ++ pending.empty
      some (done ++ tail, p)

/-- Reads a block scalar after its indicator. Its lines are indented deeper than `parent`, the
indentation of what it belongs to. -/
def block (literal : Bool) (parent : Int) (p : Place) : Option (List Char × Place) := do
  let (chomping, increment, rest) := blockSigns p.rest
  if increment = some 0 then none
  let p ← restOfLine? (p.reach rest)
  let indent := increment.map fun n => n + parent.toNat
  let e ← emptyLines indent p [] 0 p.line p.column p.rest
  let indent := indent.getD (max (max e.widest (parent + 1).toNat) 1)
  blockLines literal chomping indent (p.size + 1) [] ⟨[], e.breaks, false⟩ e.place

end JarGate.Yaml
