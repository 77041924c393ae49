/-!
# Arguments

Options and values on a command line. An option has a long name after two hyphens, and may have a
short one after a single hyphen; short options may be written together. The value of an option
follows it as the next argument, or directly: after an equals sign, or right behind a short name.
After a lone pair of hyphens nothing is an option any more. An option that may not be repeated is
an error the second time.
-/

namespace JarGate.CommandLine

/-- Why reading arguments stops before their end. -/
inductive Stop where
  /-- The arguments are wrong. -/
  | usage
  /-- Help is asked for: about a command, or about all of them. -/
  | help (command : Option String)
  /-- The version is asked for. -/
  | version
  deriving DecidableEq, Repr

/-- What an option does. -/
inductive Effect where
  /-- The option is given or not. -/
  | flag
  /-- The option has a value that a test accepts; it may be given again if `repeatable`. -/
  | value (accepts : String → Bool) (repeatable : Bool)
  /-- Reading stops at the option. -/
  | stop (why : Stop)

/-- An option. -/
structure OptionSpec where
  long : String
  short : Option Char
  effect : Effect

/-- What a command may be given. -/
structure Grammar where
  options : List OptionSpec
  /-- How many arguments there may be that are no options. -/
  positionals : Nat

/-- What was given so far. -/
structure Given where
  /-- The options with their values, which are empty for flags. -/
  options : List (String × String)
  positionals : List String
  deriving DecidableEq, Repr

namespace Given

/-- Nothing was given. -/
def nothing : Given := ⟨[], []⟩

/-- The values of an option, in their order. -/
def values (g : Given) (long : String) : List String :=
  (g.options.filter (·.1 == long)).map (·.2)

/-- The first value of an option. -/
def value? (g : Given) (long : String) : Option String :=
  g.options.lookup long

/-- Whether an option was given. -/
def has (g : Given) (long : String) : Bool :=
  (g.value? long).isSome

/-- Adds a flag. -/
def addFlag (g : Given) (o : OptionSpec) : Except Stop Given :=
  if g.has o.long then .error .usage
  else .ok { g with options := g.options ++ [(o.long, "")] }

/-- Adds an option with its value. -/
def addValue (g : Given) (o : OptionSpec) (value : String) : Except Stop Given :=
  match o.effect with
  | .value accepts repeatable =>
    if accepts value && (repeatable || !g.has o.long) then
      .ok { g with options := g.options ++ [(o.long, value)] }
    else .error .usage
  | _ => .error .usage

/-- Adds an argument that is no option. It must not be empty. -/
def addPositional (grammar : Grammar) (g : Given) (argument : String) : Except Stop Given :=
  if g.positionals.length < grammar.positionals ∧ ¬ argument.isEmpty then
    .ok { g with positionals := g.positionals ++ [argument] }
  else .error .usage

end Given

/-- Whether an argument is written like an option. A lone hyphen is not. -/
def isOption (argument : String) : Bool :=
  match argument.toList with
  | '-' :: _ :: _ => true
  | _ => false

/-- The name in front of the first equals sign, and what follows the sign. -/
def splitValue (text : List Char) : String × Option String :=
  let name := String.ofList (text.takeWhile (· != '='))
  match text.dropWhile (· != '=') with
  | _ :: value => (name, some (String.ofList value))
  | [] => (name, none)

/-- Reads an option by its long name. The second part of the answer is the option whose value is
still to come. -/
def readLong (grammar : Grammar) (g : Given) (text : List Char) :
    Except Stop (Given × Option OptionSpec) :=
  let (name, attached) := splitValue text
  match grammar.options.find? (·.long == name) with
  | none => .error .usage
  | some o =>
    match o.effect, attached with
    | .stop why, none => .error why
    | .flag, none => (g.addFlag o).map (·, none)
    | .value _ _, some value => (g.addValue o value).map (·, none)
    | .value _ _, none => .ok (g, some o)
    | _, some _ => .error .usage

/-- Reads options by their short names. -/
def readShort (grammar : Grammar) (g : Given) :
    List Char → Except Stop (Given × Option OptionSpec)
  | [] => .ok (g, none)
  | c :: cs =>
    match grammar.options.find? (·.short == some c) with
    | none => .error .usage
    | some o =>
      match o.effect with
      | .stop why => .error why
      | .flag => do readShort grammar (← g.addFlag o) cs
      | .value _ _ =>
        match cs with
        | [] => .ok (g, some o)
        | '=' :: value => (g.addValue o (String.ofList value)).map (·, none)
        | value => (g.addValue o (String.ofList value)).map (·, none)

/-- Reads an argument that is written like an option. -/
def readOption (grammar : Grammar) (g : Given) (argument : String) :
    Except Stop (Given × Option OptionSpec) :=
  match argument.toList with
  | '-' :: '-' :: text => readLong grammar g text
  | '-' :: text => readShort grammar g text
  | _ => .error .usage

/-- Reads arguments; `pending` is the option whose value comes next. -/
def readArguments (grammar : Grammar) (pending : Option OptionSpec) (g : Given) :
    List String → Except Stop Given
  | [] => if pending.isNone then .ok g else .error .usage
  | argument :: rest =>
    match pending with
    | some o =>
      if isOption argument then .error .usage
      else do readArguments grammar none (← g.addValue o argument) rest
    | none =>
      if argument = "--" then rest.foldlM (Given.addPositional grammar) g
      else if isOption argument then do
        let (g, pending) ← readOption grammar g argument
        readArguments grammar pending g rest
      else do readArguments grammar none (← g.addPositional grammar argument) rest

end JarGate.CommandLine
