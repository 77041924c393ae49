import JarGate.Json.Value
import JarGate.Text.Utf16

/-!
# Reading JSON

The JSON grammar to the letter: no comments, no trailing commas, no leading zeros, no control
characters inside strings, and nothing but blanks around the value.
-/

namespace JarGate

namespace Json

/-- The characters that may stand between the parts of a value. -/
def isBlank (c : Char) : Bool :=
  c == ' ' || c == '\n' || c == '\t' || c == '\r'

/-- The text from its first character that is no blank. -/
def skip (cs : List Char) : List Char :=
  cs.dropWhile isBlank

/-- What follows some digits, of which there has to be one at least. -/
def digits? (cs : List Char) : Option (List Char × List Char) :=
  match cs.takeWhile Char.isDigit with
  | [] => none
  | ds => some (ds, cs.dropWhile Char.isDigit)

/-- The number that decimal digits stand for. -/
def natOfDigits (ds : List Char) : Nat :=
  ds.foldl (fun n d => n * 10 + (d.toNat - '0'.toNat)) 0

/-- What follows the fraction of a number, and whether there is one. -/
def fraction? : List Char → Option (Bool × List Char)
  | '.' :: cs => (digits? cs).map fun (_, rest) => (true, rest)
  | cs => some (false, cs)

/-- What follows the exponent of a number, and whether there is one. -/
def exponent? (cs : List Char) : Option (Bool × List Char) :=
  let afterSign (cs : List Char) : Option (Bool × List Char) :=
    (digits? cs).map fun (_, rest) => (true, rest)
  match cs with
  | 'e' :: '+' :: cs | 'e' :: '-' :: cs | 'E' :: '+' :: cs | 'E' :: '-' :: cs => afterSign cs
  | 'e' :: cs | 'E' :: cs => afterSign cs
  | cs => some (false, cs)

/-- The number at the front of a text. -/
def number? (cs : List Char) : Option (Json × List Char) := do
  let (negative, cs) := match cs with
    | '-' :: cs => (true, cs)
    | cs => (false, cs)
  let (ds, cs) ← digits? cs
  if 1 < ds.length ∧ ds.head? = some '0' then none
  let (fraction, cs) ← fraction? cs
  let (exponent, cs) ← exponent? cs
  let n := natOfDigits ds
  if fraction || exponent || (negative && n == 0) then return (decimal, cs)
  else return (integer (if negative then -(n : Int) else n), cs)

/-- A character of a string, or a code unit that was given by number. -/
inductive Piece where
  | char (c : Char)
  | unit (u : UInt16)

/-- The unit that four hexadecimal digits give. -/
def unitOfHex? (a b c d : Char) : Option UInt16 := do
  let a ← Text.Hex.digitValue? a
  let b ← Text.Hex.digitValue? b
  let c ← Text.Hex.digitValue? c
  let d ← Text.Hex.digitValue? d
  return UInt16.ofNat (((a * 16 + b) * 16 + c) * 16 + d)

/-- The character that a short escape stands for. -/
def shortEscape? (c : Char) : Option Char :=
  if c = '"' ∨ c = '\\' ∨ c = '/' then some c
  else if c = 'b' then some (Char.ofNat 0x08)
  else if c = 'f' then some (Char.ofNat 0x0C)
  else if c = 'n' then some '\n'
  else if c = 'r' then some '\r'
  else if c = 't' then some '\t'
  else none

/-- The pieces of a string after its opening quote, behind those of `done` reversed, and what follows
the closing quote. -/
def pieces? (done : List Piece) : List Char → Option (List Piece × List Char)
  | [] => none
  | '"' :: rest => some (done.reverse, rest)
  | '\\' :: 'u' :: a :: b :: c :: d :: rest =>
    match unitOfHex? a b c d with
    | some u => pieces? (.unit u :: done) rest
    | none => none
  | '\\' :: e :: rest =>
    match shortEscape? e with
    | some c => pieces? (.char c :: done) rest
    | none => none
  | c :: rest => if c = '\\' ∨ c.toNat < 0x20 then none else pieces? (.char c :: done) rest

/-- The characters that pieces stand for behind those of `done` reversed, unless a surrogate stands
alone. -/
def assemble? (done : List Char) : List Piece → Option (List Char)
  | [] => some done.reverse
  | .char c :: rest => assemble? (c :: done) rest
  | .unit u :: .unit v :: rest =>
    if Text.Utf16.isHigh u && Text.Utf16.isLow v then
      assemble? (Text.Utf16.ofPair u v :: done) rest
    else if Text.Utf16.isSurrogate u then none
    else assemble? (Char.ofNat u.toNat :: done) (.unit v :: rest)
  | .unit u :: rest =>
    if Text.Utf16.isSurrogate u then none else assemble? (Char.ofNat u.toNat :: done) rest

/-- The string after an opening quote; `none` inside stands for one that is no text. -/
def string? (cs : List Char) : Option (Option String × List Char) :=
  (pieces? [] cs).map fun (pieces, rest) => ((assemble? [] pieces).map String.ofList, rest)

mutual

/-- The value at the front of a text. The first argument bounds the number of steps. -/
def value? : Nat → List Char → Option (Json × List Char)
  | 0, _ => none
  | steps + 1, cs =>
    match skip cs with
    | 'n' :: 'u' :: 'l' :: 'l' :: rest => some (null, rest)
    | 't' :: 'r' :: 'u' :: 'e' :: rest => some (bool true, rest)
    | 'f' :: 'a' :: 'l' :: 's' :: 'e' :: rest => some (bool false, rest)
    | '"' :: rest =>
      (string? rest).map fun (text, rest) => ((text.map string).getD brokenString, rest)
    | '[' :: rest =>
      match skip rest with
      | ']' :: rest => some (array [], rest)
      | rest => elements? steps [] rest
    | '\x7b' :: rest =>
      match skip rest with
      | '\x7d' :: rest => some (object [], rest)
      | rest => members? steps [] rest
    | rest => number? rest

/-- The elements of an array from one of them on, behind those of `done` reversed. -/
def elements? : Nat → List Json → List Char → Option (Json × List Char)
  | 0, _, _ => none
  | steps + 1, done, cs =>
    match value? steps cs with
    | none => none
    | some (j, cs) =>
      match skip cs with
      | ',' :: rest => elements? steps (j :: done) rest
      | ']' :: rest => some (array (j :: done).reverse, rest)
      | _ => none

/-- The members of an object from one of them on, behind those of `done` reversed. -/
def members? : Nat → List (Option String × Json) → List Char → Option (Json × List Char)
  | 0, _, _ => none
  | steps + 1, done, cs =>
    match skip cs with
    | '"' :: rest =>
      match string? rest with
      | none => none
      | some (name, rest) =>
        match skip rest with
        | ':' :: rest =>
          match value? steps rest with
          | none => none
          | some (j, cs) =>
            match skip cs with
            | ',' :: rest => members? steps ((name, j) :: done) rest
            | '\x7d' :: rest => some (object ((name, j) :: done).reverse, rest)
            | _ => none
        | _ => none
    | _ => none

end

/-- The value that a text stands for. -/
def parse? (text : String) : Option Json :=
  let cs := text.toList
  match value? (cs.length + 1) cs with
  | some (j, rest) => if (skip rest).isEmpty then some j else none
  | none => none

end Json

end JarGate
