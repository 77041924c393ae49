import JarGate.Yaml.Lexer

/-!
# YAML documents

The tree of the one document of a YAML text. An alias stays in the tree as the number of the anchor
that it repeats. Anchors are numbered by how many names were anchored before, so an anchor whose name
was used already shares its number with the next new name; `Document.target?` gives the last node of
a number.
-/

namespace JarGate.Yaml

/-- What may be said about a node: the number of its anchor, and its tag. -/
structure Properties where
  anchor : Option Nat
  tag : Option Bytes
  deriving DecidableEq, Repr

/-- A node of a document. -/
inductive Node where
  /-- A scalar; `plain` tells that it was written without quotes and not as a block. -/
  | scalar (properties : Properties) (text : String) (plain : Bool)
  | sequence (properties : Properties) (items : List Node)
  | mapping (properties : Properties) (members : List (Node × Node))
  | alias (anchor : Nat)

namespace Node

/-- A node that was left out. -/
def empty : Node := .scalar ⟨none, none⟩ "" true

/-! ### Grammar -/

/-- The state of parsing: the tokens that are left, the numbers of the anchored names, and the tag
handles with what they stand for. -/
structure Input where
  tokens : List Token
  anchors : List (String × Nat)
  handles : List (String × Bytes)

/-- A step of parsing. -/
abbrev Parser (α : Type) := StateT Input Option α

/-- The next token. -/
def peek : Parser Token := do
  return (← get).tokens.headD .streamEnd

/-- Moves past the next token. -/
def advance : Parser Unit :=
  modify fun s => { s with tokens := s.tokens.drop 1 }

/-- Moves past a token that has to be next. -/
def expect (t : Token) : Parser Unit := do
  if (← peek) = t then advance else failure

/-- The number of a name that is being anchored. -/
def register (name : String) : Parser Nat := do
  let s ← get
  let number := s.anchors.length
  set { s with anchors := (name, number) :: s.anchors.filter (·.1 != name) }
  return number

/-- The number of the anchor that an alias repeats. -/
def anchored (name : String) : Parser Nat := do
  match (← get).anchors.lookup name with
  | some number => return number
  | none => failure

/-- The tag that a handle and its suffix stand for. -/
def resolveTag (handle : String) (suffix : Bytes) : Parser Bytes := do
  if handle.isEmpty then return suffix
  else
    match (← get).handles.lookup handle with
    | some base => return base ++ suffix
    | none => failure

/-- An anchor, if there is one. -/
def anchor? : Parser (Option String) := do
  match ← peek with
  | .anchor name =>
    advance
    return some name
  | _ => return none

/-- A tag, if there is one. -/
def tag? : Parser (Option (String × Bytes)) := do
  match ← peek with
  | .tag handle suffix =>
    advance
    return some (handle, suffix)
  | _ => return none

/-- The anchor and the tag of a node, in either order. -/
def properties : Parser (Option String × Option Bytes) := do
  let first ← anchor?
  let tag ← tag?
  let anchor ← match first with
    | some name => pure (some name)
    | none => if tag.isSome then anchor? else pure none
  match tag with
  | some (handle, suffix) => return (anchor, some (← resolveTag handle suffix))
  | none => return (anchor, none)

/-- Whether a token closes the place of an element of a block sequence. -/
def endsEntry (indentless : Bool) : Token → Bool
  | .blockEntry | .blockEnd => true
  | .key | .value => indentless
  | _ => false

/-- Whether a token closes the place of a key or a value of a block mapping. -/
def endsMember : Token → Bool
  | .key | .value | .blockEnd => true
  | _ => false

mutual

/-- A node. In a block, collections may be written as blocks; `indentless` also allows entries at the
column of the mapping that the node belongs to. The first argument bounds the number of steps. -/
def parse : Nat → (block indentless : Bool) → Parser Node
  | 0, _, _ => failure
  | steps + 1, block, indentless => do
    match ← peek with
    | .alias name =>
      advance
      return .alias (← anchored name)
    | _ =>
      let (anchor, tag) ← properties
      let anchor ← anchor.mapM register
      let properties : Properties := ⟨anchor, tag⟩
      match ← peek, block, indentless with
      | .blockEntry, _, true =>
        return .sequence properties (← parseEntries steps true [])
      | .scalar text plain, _, _ =>
        advance
        return .scalar properties text plain
      | .flowSequenceStart, _, _ =>
        advance
        return .sequence properties (← parseFlowItems steps true [])
      | .flowMappingStart, _, _ =>
        advance
        return .mapping properties (← parseFlowMembers steps true [])
      | .blockSequenceStart, true, _ =>
        advance
        let items ← parseEntries steps false []
        expect .blockEnd
        return .sequence properties items
      | .blockMappingStart, true, _ =>
        advance
        return .mapping properties (← parseMembers steps [])
      | _, _, _ =>
        if anchor.isSome || tag.isSome then return .scalar properties "" true else failure

/-- The elements of a block sequence behind those of `done` reversed. -/
def parseEntries : Nat → (indentless : Bool) → List Node → Parser (List Node)
  | 0, _, _ => failure
  | steps + 1, indentless, done => do
    match ← peek with
    | .blockEntry =>
      advance
      let item ← if endsEntry indentless (← peek) then pure empty else parse steps true false
      parseEntries steps indentless (item :: done)
    | _ => return done.reverse

/-- A key or a value of a block mapping. -/
def parseMember : Nat → Parser Node
  | 0 => failure
  | steps + 1 => do
    if endsMember (← peek) then return empty else parse steps true true

/-- The members of a block mapping, up to its end, behind those of `done` reversed. -/
def parseMembers : Nat → List (Node × Node) → Parser (List (Node × Node))
  | 0, _ => failure
  | steps + 1, done => do
    match ← peek with
    | .key =>
      advance
      let key ← parseMember steps
      let value ← parseValue steps
      parseMembers steps ((key, value) :: done)
    | .blockEnd =>
      advance
      return done.reverse
    | _ => failure

/-- The value of a member of a block mapping, which may be missing. -/
def parseValue : Nat → Parser Node
  | 0 => failure
  | steps + 1 => do
    match ← peek with
    | .value =>
      advance
      parseMember steps
    | _ => return empty

/-- The value after a key in a flow collection, which may be missing. -/
def parseFlowValue : Nat → (closing : Token) → Parser Node
  | 0, _ => failure
  | steps + 1, closing => do
    match ← peek with
    | .value =>
      advance
      let next ← peek
      if next = .flowEntry ∨ next = closing then return empty else parse steps false false
    | _ => return empty

/-- A member that is an element of a flow sequence, after the mark of its key. Where the key is
missing, the token that shows this is passed over. -/
def parseFlowPair : Nat → Parser Node
  | 0 => failure
  | steps + 1 => do
    let next ← peek
    let key ←
      if next = .value ∨ next = .flowEntry ∨ next = .flowSequenceEnd then do
        advance
        pure empty
      else parse steps false false
    let value ← parseFlowValue steps .flowSequenceEnd
    return .mapping ⟨none, none⟩ [(key, value)]

/-- The elements of a flow sequence, up to its end, behind those of `done` reversed. -/
def parseFlowItems : Nat → (first : Bool) → List Node → Parser (List Node)
  | 0, _, _ => failure
  | steps + 1, first, done => do
    if (← peek) = .flowSequenceEnd then
      advance
      return done.reverse
    if !first then expect .flowEntry
    match ← peek with
    | .flowSequenceEnd =>
      advance
      return done.reverse
    | .key =>
      advance
      let item ← parseFlowPair steps
      parseFlowItems steps false (item :: done)
    | _ =>
      let item ← parse steps false false
      parseFlowItems steps false (item :: done)

/-- The members of a flow mapping, up to its end, behind those of `done` reversed. -/
def parseFlowMembers : Nat → (first : Bool) → List (Node × Node) → Parser (List (Node × Node))
  | 0, _, _ => failure
  | steps + 1, first, done => do
    if (← peek) = .flowMappingEnd then
      advance
      return done.reverse
    if !first then expect .flowEntry
    match ← peek with
    | .flowMappingEnd =>
      advance
      return done.reverse
    | .key =>
      advance
      let next ← peek
      let key ←
        if next = .value ∨ next = .flowEntry ∨ next = .flowMappingEnd then pure empty
        else parse steps false false
      let value ← parseFlowValue steps .flowMappingEnd
      parseFlowMembers steps false ((key, value) :: done)
    | _ =>
      let key ← parse steps false false
      parseFlowMembers steps false ((key, empty) :: done)

end

/-- The directives before a document. A version may be given once, and each handle once. -/
def directives : Nat → (versioned : Bool) → Parser Unit
  | 0, _ => failure
  | steps + 1, versioned => do
    match ← peek with
    | .versionDirective major minor =>
      if versioned || major ≠ 1 || (minor ≠ 1 && minor ≠ 2) then failure
      advance
      directives steps true
    | .tagDirective handle base =>
      let s ← get
      if (s.handles.lookup handle).isSome then failure
      set { s with handles := (handle, base) :: s.handles }
      advance
      directives steps versioned
    | _ => return ()

/-- The handles that every document has, unless it declares them itself. -/
def commonHandles : List (String × Bytes) :=
  [("!", Text.Utf8.encode "!"), ("!!", Text.Utf8.encode "tag:yaml.org,2002:")]

/-- Whether a document that was opened has nothing in it. -/
def isVoid : Token → Bool
  | .versionDirective _ _ | .tagDirective _ _ | .documentStart | .documentEnd | .streamEnd => true
  | _ => false

/-- Whether a token belongs to the opening of a document. -/
def opensDocument : Token → Bool
  | .versionDirective _ _ | .tagDirective _ _ | .documentStart => true
  | _ => false

/-- The root of the only document. -/
def parseDocument (steps : Nat) : Parser Node := do
  let opened := opensDocument (← peek)
  directives steps false
  modify fun s => { s with handles := s.handles ++ commonHandles }
  if opened then expect .documentStart
  let next ← peek
  let root ← if opened && isVoid next then pure empty else parse steps true false
  modify fun s => { s with tokens := s.tokens.dropWhile (· == .documentEnd) }
  expect .streamEnd
  return root

/-! ### Anchors -/

mutual

/-- The nodes with anchors in a node, itself first, by the numbers of the anchors. -/
def targets : Node → List (Nat × Node)
  | n@(.scalar p _ _) => own p n
  | n@(.sequence p items) => own p n ++ targetsOf items
  | n@(.mapping p members) => own p n ++ targetsOfMembers members
  | .alias _ => []
where
  own (p : Properties) (n : Node) : List (Nat × Node) :=
    match p.anchor with
    | some number => [(number, n)]
    | none => []

/-- The nodes with anchors in some nodes. -/
def targetsOf : List Node → List (Nat × Node)
  | [] => []
  | n :: ns => targets n ++ targetsOf ns

/-- The nodes with anchors in the members of a mapping. -/
def targetsOfMembers : List (Node × Node) → List (Nat × Node)
  | [] => []
  | (k, v) :: rest => targets k ++ targets v ++ targetsOfMembers rest

/-- How many marks of starts and ends, scalars and aliases a node is written with. -/
def eventCount : Node → Nat
  | .scalar _ _ _ => 1
  | .sequence _ items => 2 + eventCountOf items
  | .mapping _ members => 2 + eventCountOfMembers members
  | .alias _ => 1

/-- How many marks some nodes are written with. -/
def eventCountOf : List Node → Nat
  | [] => 0
  | n :: ns => eventCount n + eventCountOf ns

/-- How many marks the members of a mapping are written with. -/
def eventCountOfMembers : List (Node × Node) → Nat
  | [] => 0
  | (k, v) :: rest => eventCount k + eventCount v + eventCountOfMembers rest

end

end Node

/-- A document: its root, the nodes that aliases may repeat, the last one first, and its length. -/
structure Document where
  root : Node
  targets : List (Nat × Node)
  eventCount : Nat

namespace Document

/-- The node that an alias repeats. -/
def target? (d : Document) (anchor : Nat) : Option Node :=
  d.targets.lookup anchor

/-- The document of a text that has exactly one. -/
def parse? (text : String) : Option Document := do
  let tokens ← tokens? text
  let (root, _) ← (Node.parseDocument (4 * tokens.length + 4)).run ⟨tokens, [], []⟩
  return ⟨root, root.targets.reverse, root.eventCount⟩

end Document

end JarGate.Yaml
