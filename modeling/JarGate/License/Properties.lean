import JarGate.Text.Blank
import JarGate.Text.Hex
import JarGate.Text.Utf16

/-!
# Property files

Texts of keys and values. An entry is a line, and a line that ends in an odd number of backslashes
goes on with the next; blanks at the start of a line count for nothing, and a line that starts with
`#` or `!` is a comment. `escape` writes a value so that `unescape` gives it back.
-/

namespace JarGate.Properties

/-- Four upper-case hexadecimal digits. -/
def hex4 (u : UInt16) : List Char :=
  [0x1000, 0x100, 0x10, 1].map fun place => (Text.Hex.digit (u.toNat / place % 16)).toUpper

/-- How one character of a value is written. A space is escaped at the start only, where it would be
skipped. -/
def escapeChar (first : Bool) (c : Char) : List Char :=
  if c = '\\' then ['\\', '\\']
  else if c = '\t' then ['\\', 't']
  else if c = '\n' then ['\\', 'n']
  else if c = '\r' then ['\\', 'r']
  else if c.toNat = 0x0C then ['\\', 'f']
  else if c = '=' ∨ c = ':' ∨ c = '#' ∨ c = '!' then ['\\', c]
  else if c = ' ' ∧ first then ['\\', ' ']
  else if c.toNat < 0x20 ∨ 0x7E < c.toNat then
    (Text.Utf16.ofChar c).flatMap fun u => ['\\', 'u'] ++ hex4 u
  else [c]

/-- The written form of a value. -/
def escape (value : String) : List Char :=
  match value.toList with
  | [] => []
  | c :: cs => escapeChar true c ++ cs.flatMap (escapeChar false)

/-- The unit that up to four characters give as a hexadecimal number, which may have a plus sign. -/
def unitOfHex? (hex : List Char) : Option UInt16 :=
  let digits := match hex with
    | '+' :: digits => digits
    | digits => digits
  if hex.length = 4 then
    (digits.mapM Text.Hex.digitValue?).map fun ds =>
      UInt16.ofNat (ds.foldl (fun n d => n * 16 + d) 0)
  else none

/-- The units of a written text behind those of `done` reversed. What is given by number may be half
of a surrogate pair. -/
def unescapeOnto (done : List UInt16) : List Char → List UInt16
  | [] => done.reverse
  | ['\\'] => done.reverse
  | '\\' :: 'u' :: a :: b :: c :: d :: rest =>
    match unitOfHex? [a, b, c, d] with
    | some u => unescapeOnto (u :: done) rest
    | none => unescapeOnto ((([a, b, c, d].flatMap Text.Utf16.ofChar).reverse) ++ done) rest
  | '\\' :: 'u' :: rest => done.reverse ++ rest.flatMap Text.Utf16.ofChar
  | '\\' :: c :: rest =>
    let unit : List UInt16 :=
      if c = 't' then [0x09]
      else if c = 'n' then [0x0A]
      else if c = 'r' then [0x0D]
      else if c = 'f' then [0x0C]
      else Text.Utf16.ofChar c
    unescapeOnto (unit.reverse ++ done) rest
  | c :: rest => unescapeOnto ((Text.Utf16.ofChar c).reverse ++ done) rest

/-- The text that a written text stands for. -/
def unescape (written : List Char) : String :=
  Text.Utf16.decodeLossy (unescapeOnto [] written)

/-- The characters that may stand between a key and its value. -/
def isGap (c : Char) : Bool :=
  c == ' ' || c == '\t' || c.toNat == 0x0C

/-- The written key at the start of an entry, behind the characters of `done` reversed, and what
follows it. -/
def splitKey (done : List Char) : List Char → List Char × List Char
  | [] => (done.reverse, [])
  | ['\\'] => (('\\' :: done).reverse, [])
  | '\\' :: c :: rest => splitKey (c :: '\\' :: done) rest
  | c :: rest =>
    if c = '=' ∨ c = ':' ∨ isGap c then (done.reverse, c :: rest)
    else splitKey (c :: done) rest

/-- The written value after a key: gaps and at most one separator come before it. -/
def splitValue (rest : List Char) : List Char :=
  match rest.dropWhile isGap with
  | '=' :: rest | ':' :: rest => rest.dropWhile isGap
  | rest => rest

/-- The key and the value of an entry. -/
def entry (line : List Char) : String × String :=
  let (key, rest) := splitKey [] line
  (unescape key, unescape (splitValue rest))

/-- Whether a line goes on with the next. -/
def continues (line : List Char) : Bool :=
  (line.reverse.takeWhile (· == '\\')).length % 2 == 1

/-- The lines of a text behind those of `done` reversed; `line` holds the characters of the line under
way, the last one first. A carriage return belongs to the line feed that follows it. -/
def linesOnto (done : List (List Char)) (line : List Char) : List Char → List (List Char)
  | [] => if line.isEmpty then done.reverse else (line.reverse :: done).reverse
  | c :: cs =>
    if c = '\n' then
      let line := match line with
        | '\r' :: line => line
        | line => line
      linesOnto (line.reverse :: done) [] cs
    else linesOnto done (c :: line) cs

/-- The lines of a text. -/
def lines (text : String) : List (List Char) :=
  linesOnto [] [] text.toList

/-- Whether a line is empty or a comment. -/
def isVoid (line : List Char) : Bool :=
  line.isEmpty || line.head? == some '#' || line.head? == some '!'

/-- The entries of lines behind those of `done` reversed; `logical` is what earlier lines left to be
continued. -/
def entriesOnto (done : List (String × String)) (logical : List Char) :
    List (List Char) → List (String × String)
  | [] => if logical.isEmpty then done.reverse else (entry logical :: done).reverse
  | raw :: lines =>
    let line := Text.trimLeft raw
    if logical.isEmpty && isVoid line then entriesOnto done logical lines
    else if continues line then entriesOnto done (logical ++ line.dropLast) lines
    else entriesOnto (entry (logical ++ line) :: done) [] lines

/-- The keys and values of a text in order. -/
def parse (text : String) : List (String × String) :=
  entriesOnto [] [] (lines text)

/-- The value of a key; of several the last counts. -/
def value? (entries : List (String × String)) (key : String) : Option String :=
  entries.reverse.lookup key

/-- The text of keys, which need no escapes, and values. -/
def render (entries : List (String × String)) : String :=
  String.ofList <| entries.flatMap fun (key, value) =>
    key.toList ++ '=' :: escape value ++ ['\n']

end JarGate.Properties
