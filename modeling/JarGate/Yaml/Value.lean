import JarGate.Text.Binary64
import JarGate.Text.Hex
import JarGate.Yaml.Node

/-!
# YAML values

What the nodes of a document stand for. A plain scalar without a tag is null, a truth value, a
number or a text, by its spelling; a tag of the language says which of these it has to be. A tag
that starts with an exclamation mark is kept if it is a text, and passed over otherwise. Repeated
keys are refused, and so are documents that nest too deeply or repeat too much by aliases.
-/

namespace JarGate.Yaml

/-- A number. -/
inductive Number where
  | integer (n : Int)
  | real (x : Text.Binary64)
  | infinite (negative : Bool)
  | notANumber
  deriving DecidableEq, Repr

/-- A value. -/
inductive Value where
  | null
  | bool (b : Bool)
  | number (n : Number)
  | string (text : String)
  | sequence (items : List Value)
  | mapping (members : List (Value × Value))
  | tagged (tag : String) (value : Value)

namespace Number

/-- The text of a number. -/
def render : Number → String
  | integer n => toString n
  | real x => x.render
  | infinite negative => if negative then "-.inf" else ".inf"
  | notANumber => ".nan"

/-- Whether two numbers are the same key: the two zeros of the real numbers are. -/
def same : Number → Number → Bool
  | real x, real y => x == y || (x.significand == 0 && y.significand == 0)
  | m, n => m == n

/-! ### Spellings -/

/-- The number that digits stand for in a base, if each is below it. -/
def ofDigits? (base : Nat) (ds : List Char) : Option Nat := do
  if ds.isEmpty then none
  let values ← ds.mapM Text.Hex.digitValue?
  if values.all (· < base) then some (values.foldl (fun n d => n * base + d) 0) else none

/-- A number after the mark of its base. -/
def based? : List Char → Option Nat
  | '0' :: 'x' :: ds => ofDigits? 16 ds
  | '0' :: 'o' :: ds => ofDigits? 8 ds
  | '0' :: 'b' :: ds => ofDigits? 2 ds
  | _ => none

/-- A spelling without its sign. -/
def withoutSign : List Char → List Char
  | '-' :: cs | '+' :: cs => cs
  | cs => cs

/-- Whether a spelling is a row of digits that starts with a zero too many. -/
def hasLeadingZero (cs : List Char) : Bool :=
  let ds := withoutSign cs
  1 < ds.length && ds.head? == some '0' && ds.all Char.isDigit

/-- The whole number that a spelling stands for. -/
def whole? (cs : List Char) : Option Int :=
  let digits (ds : List Char) : Option Nat :=
    (based? ds).or (if hasLeadingZero cs then none else ofDigits? 10 ds)
  match cs with
  | '-' :: ds => (digits ds).map fun n => -(n : Int)
  | '+' :: ds => (digits ds).map Int.ofNat
  | ds => (digits ds).map Int.ofNat

/-- The real number that a spelling stands for. -/
def real? (cs : List Char) : Option Number :=
  let unsigned := match cs with
    | '+' :: cs => cs
    | cs => cs
  let spelled (cs : List Char) (names : List String) : Bool := names.contains (String.ofList cs)
  if cs.head? == some '+' && (unsigned.head? == some '+' || unsigned.head? == some '-') then none
  else if spelled unsigned [".inf", ".Inf", ".INF"] then some (infinite false)
  else if spelled cs ["-.inf", "-.Inf", "-.INF"] then some (infinite true)
  else if spelled cs [".nan", ".NaN", ".NAN"] then some notANumber
  else (Text.Binary64.parse? unsigned).map real

/-- The whole numbers that a value may hold are those of 64 bits, with or without a sign. -/
def fits (n : Int) : Bool :=
  -0x8000000000000000 ≤ n && n < 0x10000000000000000

/-- The whole numbers that are recognized as such are those of 128 bits. -/
def isWhole (n : Int) : Bool :=
  -0x80000000000000000000000000000000 ≤ n && n < 0x100000000000000000000000000000000

end Number

namespace Value

/-! ### Equality of keys -/

mutual

/-- Whether two values are the same key. -/
def same : Value → Value → Bool
  | null, null => true
  | bool a, bool b => a == b
  | number a, number b => a.same b
  | string a, string b => a == b
  | sequence as, sequence bs => sameItems as bs
  | mapping as, mapping bs => as.length == bs.length && within as bs
  | tagged a x, tagged b y => bare a == bare b && same x y
  | _, _ => false
where
  bare (tag : String) : String :=
    match tag.toList with
    | '!' :: c :: cs => String.ofList (c :: cs)
    | _ => tag

/-- Whether two lists hold the same keys in the same order. -/
def sameItems : List Value → List Value → Bool
  | [], [] => true
  | a :: as, b :: bs => same a b && sameItems as bs
  | _, _ => false

/-- Whether every member of the first mapping is one of the second. -/
def within : List (Value × Value) → List (Value × Value) → Bool
  | [], _ => true
  | (k, v) :: rest, bs => bs.any (fun (k', v') => same k k' && same v v') && within rest bs

end

/-! ### Scalars -/

/-- The tags of the language itself. -/
def coreTag (name : String) : Bytes := Text.Utf8.encode ("tag:yaml.org,2002:" ++ name)

/-- Whether a spelling means null. An empty text does too, but not where a tag asks for null. -/
def isNullSpelling (text : String) : Bool :=
  ["~", "null", "Null", "NULL"].contains text

/-- The truth value of a spelling. -/
def boolOf? (text : String) : Option Bool :=
  if ["true", "True", "TRUE"].contains text then some true
  else if ["false", "False", "FALSE"].contains text then some false
  else none

/-- The value of a whole number, which has to fit. -/
def ofWhole? (n : Int) : Option Value :=
  if Number.fits n then some (number (.integer n)) else none

/-- The value of a plain text by its spelling. -/
def ofPlain? (text : String) : Option Value :=
  if text.isEmpty || isNullSpelling text then some null
  else
    match boolOf? text, (Number.whole? text.toList).filter Number.isWhole with
    | some b, _ => some (bool b)
    | none, some n => ofWhole? n
    | none, none =>
      if Number.hasLeadingZero text.toList then some (string text)
      else some (((Number.real? text.toList).map number).getD (string text))

/-- The octet that the tags of a document's own start with. -/
def ownMark : UInt8 := 0x21

/-- The value of a scalar whose tag, if there is one, is not kept. -/
def ofScalar? (tag : Option Bytes) (text : String) (plain : Bool) : Option Value :=
  match tag with
  | none => if plain then ofPlain? text else some (string text)
  | some tag =>
    if tag = coreTag "bool" then (boolOf? text).map bool
    else if tag = coreTag "int" then
      ((Number.whole? text.toList).filter Number.isWhole).bind ofWhole?
    else if tag = coreTag "float" then (Number.real? text.toList).map number
    else if tag = coreTag "null" then if isNullSpelling text then some null else none
    else if plain && tag.head? == some ownMark then ofPlain? text
    else some (string text)

/-- The name of a tag that is kept. -/
def keptTag? (tag : Option Bytes) : Option String :=
  match tag with
  | some (mark :: name) =>
    if mark = ownMark then if name.isEmpty then some "!" else Text.Utf8.decode? name else none
  | _ => none

end Value

/-! ### Reading -/

/-- A step of reading a document. The state counts the aliases that were followed. -/
abbrev Reader (α : Type) := ReaderT Document (StateT Nat Option) α

namespace Reader

/-- The greatest depth to which collections may nest. -/
def maxDepth : Nat := 128

/-- How many aliases may be followed for each mark of the document. -/
def maxRepeats : Nat := 100

/-- A node without an alias in front: the node itself, or the one that it repeats. -/
def follow (n : Node) : Reader Node := do
  match n with
  | .alias anchor =>
    let d ← read
    let followed := (← get) + 1
    if maxRepeats * d.eventCount < followed then failure
    set followed
    match d.target? anchor with
    | some n => return n
    | none => failure
  | n => return n

/-- The text of a scalar, whatever its tag and its style. -/
def text (n : Node) : Reader String := do
  match ← follow n with
  | .scalar _ text _ => return text
  | _ => failure

/-- Whether a node stands for nothing, where something may be given. A tag that asks for null refuses
any other spelling. -/
def isNothing (n : Node) : Reader Bool :=
  match n with
  | .scalar properties text true =>
    match properties.tag with
    | none => return text.isEmpty || Value.isNullSpelling text
    | some tag =>
      if tag = Value.coreTag "null" then
        if Value.isNullSpelling text then return true else failure
      else return false
  | _ => return false

/-- Reads a node unless it stands for nothing. -/
def optional {α : Type} (r : Node → Reader α) (n : Node) : Reader (Option α) := do
  let n ← follow n
  if ← isNothing n then return none else return some (← r n)

mutual

/-- The value of a node whose collections may nest to a depth. -/
def value : Nat → Node → Reader Value
  | depth, n => do
    match ← follow n with
    | .scalar p text plain =>
      match Value.keptTag? p.tag with
      | some tag =>
        let inner := if plain then Value.ofPlain? text else some (.string text)
        match inner with
        | some v => return .tagged tag v
        | none => failure
      | none =>
        match Value.ofScalar? p.tag text plain with
        | some v => return v
        | none => failure
    | .sequence p nodes =>
      let v ← collection depth (.inl nodes)
      return ((Value.keptTag? p.tag).map (Value.tagged · v)).getD v
    | .mapping p nodes =>
      let v ← collection depth (.inr nodes)
      return ((Value.keptTag? p.tag).map (Value.tagged · v)).getD v
    | .alias _ => failure
termination_by depth _ => (depth, 3, 0)

/-- The value of a collection. -/
def collection : Nat → (List Node ⊕ List (Node × Node)) → Reader Value
  | 0, _ => failure
  | depth + 1, .inl nodes => return .sequence (← values depth [] nodes)
  | depth + 1, .inr nodes => return .mapping (← members depth [] nodes)
termination_by depth _ => (depth, 2, 0)

/-- The values of nodes behind those of `done` reversed. -/
def values : Nat → List Value → List Node → Reader (List Value)
  | _, done, [] => return done.reverse
  | depth, done, n :: ns => do
    let v ← value depth n
    values depth (v :: done) ns
termination_by depth _ nodes => (depth, 4, nodes.length)

/-- The members of a mapping behind those of `done` reversed. -/
def members : Nat → List (Value × Value) → List (Node × Node) → Reader (List (Value × Value))
  | _, done, [] => return done.reverse
  | depth, done, (k, v) :: rest => do
    let key ← value depth k
    if done.any fun (k, _) => k.same key then failure
    let v ← value depth v
    members depth ((key, v) :: done) rest
termination_by depth _ nodes => (depth, 4, nodes.length)

end

/-- A mapping. A plain scalar without text counts as an empty one. -/
def mapping (depth : Nat) (n : Node) : Reader (List (Value × Value)) := do
  match ← follow n, depth with
  | .mapping _ nodes, depth + 1 => members depth [] nodes
  | .scalar _ text true, _ => if text.isEmpty then return [] else failure
  | _, _ => failure

end Reader

end JarGate.Yaml
