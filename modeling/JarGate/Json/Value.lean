import JarGate.Text.Hex

/-!
# JSON values

Values as they are written, members in order and repeated names included, and their compact text.
Only whole numbers have a value here, since no record of this library holds another kind.
-/

namespace JarGate

/-- A JSON value. -/
inductive Json where
  | null
  | bool (value : Bool)
  | integer (value : Int)
  /-- A number written with a fraction or an exponent, or as minus zero. -/
  | decimal
  | string (text : String)
  /-- A string with an escaped surrogate that has no partner: well written, but no text. -/
  | brokenString
  | array (elements : List Json)
  /-- The members in order. A name that is no text is left out as `none`. -/
  | object (members : List (Option String × Json))

namespace Json

/-- An object with given members. -/
def ofMembers (members : List (String × Json)) : Json :=
  object (members.map fun (name, value) => (some name, value))

/-- How one character is written inside a string. -/
def escape (c : Char) : List Char :=
  if c = '"' then ['\\', '"']
  else if c = '\\' then ['\\', '\\']
  else if c = '\n' then ['\\', 'n']
  else if c = '\r' then ['\\', 'r']
  else if c = '\t' then ['\\', 't']
  else if c.toNat = 0x08 then ['\\', 'b']
  else if c.toNat = 0x0C then ['\\', 'f']
  else if c.toNat < 0x20 then ['\\', 'u'] ++ (Text.Hex.padded 4 c.toNat).toList
  else [c]

/-- A string with its quotes. -/
def quote (s : String) : String :=
  String.ofList ('"' :: s.toList.flatMap escape ++ ['"'])

mutual

/-- The text of a value without blanks. -/
def render : Json → String
  | null => "null"
  | bool true => "true"
  | bool false => "false"
  | integer value => toString value
  | decimal => "0.0"
  | string text => quote text
  | brokenString => quote ""
  | array elements => "[" ++ String.intercalate "," (renderElements [] elements) ++ "]"
  | object members => "\x7b" ++ String.intercalate "," (renderMembers [] members) ++ "\x7d"

/-- The texts of the elements of an array behind those of `done` reversed. -/
def renderElements (done : List String) : List Json → List String
  | [] => done.reverse
  | j :: js => renderElements (render j :: done) js

/-- The texts of the members of an object behind those of `done` reversed. -/
def renderMembers (done : List String) : List (Option String × Json) → List String
  | [] => done.reverse
  | (name, value) :: rest =>
    renderMembers ((quote (name.getD "") ++ ":" ++ render value) :: done) rest

end

end Json

end JarGate
