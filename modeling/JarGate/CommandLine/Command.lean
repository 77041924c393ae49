import JarGate.CommandLine.Arguments
import JarGate.Injection.Patch
import JarGate.Text.Decimal

/-!
# Commands

What the program can be told to do: to patch a package, or to analyze one.
-/

namespace JarGate.CommandLine

/-- A command. -/
inductive Command where
  | patch (input output : String) (options : Patch.Options)
  | analyze (input : String) (callbackClasses : List String)
  deriving DecidableEq, Repr

/-- Any text. -/
def anyText (_ : String) : Bool := true

/-- A number of 64 bits. -/
def number? (text : String) : Option Nat :=
  Text.Decimal.below? UInt64.size text.toList

/-- The options that every command has. `command` is the name of the command that help is about. -/
def commonOptions (command : Option String) : List OptionSpec := [
  ⟨"verbose", some 'v', .flag⟩,
  ⟨"help", some 'h', .stop (.help command)⟩]

/-- The option for classes that are vouched for. -/
def callbackOption : OptionSpec :=
  ⟨"callback-class", none, .value anyText true⟩

/-- An option with a number as its value. -/
def numberOption (long : String) : OptionSpec :=
  ⟨long, none, .value (fun text => (number? text).isSome) false⟩

/-- What `patch` may be given. -/
def patchGrammar : Grammar where
  options := [
    ⟨"server", some 's', .value anyText false⟩,
    ⟨"product", some 'p', .value anyText false⟩,
    ⟨"key", some 'k', .value anyText false⟩,
    ⟨"mode", some 'm', .value (fun text => (FailureMode.parse text).isOk) false⟩,
    ⟨"approximate-defaults", none, .flag⟩,
    callbackOption,
    numberOption "cache-secs",
    numberOption "connect-timeout-ms",
    numberOption "read-timeout-ms"] ++ commonOptions (some "patch")
  positionals := 2

/-- What `analyze` may be given. -/
def analyzeGrammar : Grammar where
  options := callbackOption :: commonOptions (some "analyze")
  positionals := 1

/-- What may stand in front of the command. -/
def programGrammar : Grammar where
  options := commonOptions none ++ [⟨"version", some 'V', .stop .version⟩]
  positionals := 0

namespace Command

/-- A number that was given, or a default. -/
def numberOr (g : Given) (long : String) (default : Nat) : Nat :=
  ((g.value? long).bind number?).getD default

/-- The policy that was asked for. -/
def policy (g : Given) (server product : String) : LicensePolicy :=
  { LicensePolicy.new server product with
    licenseKey := (g.value? "key").getD ""
    mode := ((g.value? "mode").bind fun text => (FailureMode.parse text).toOption).getD
      .disableOnly
    approximateDefaults := g.has "approximate-defaults"
    cacheDuration := .ofSeconds (numberOr g "cache-secs" 3600)
    connectTimeout := .ofMilliseconds (numberOr g "connect-timeout-ms" 5000)
    readTimeout := .ofMilliseconds (numberOr g "read-timeout-ms" 10000) }

/-- The patch that was asked for. It needs both packages, the server and the product. -/
def ofPatch (g : Given) : Except Stop Command :=
  match g.positionals, g.value? "server", g.value? "product" with
  | [input, output], some server, some product =>
    .ok (.patch input output ⟨policy g server product, g.values callbackOption.long⟩)
  | _, _, _ => .error .usage

/-- The analysis that was asked for. -/
def ofAnalyze (g : Given) : Except Stop Command :=
  match g.positionals with
  | [input] => .ok (.analyze input (g.values callbackOption.long))
  | _ => .error .usage

/-- The names of the commands. -/
def names : List String := ["patch", "analyze"]

/-- The help that is asked for by the command of that name. -/
def ofHelp : List String → Stop
  | [] => .help none
  | [name] => if names.contains name || name == "help" then .help (some name) else .usage
  | _ => .usage

/-- Reads the name of a command and its arguments. -/
def ofNamed (name : String) (arguments : List String) : Except Stop Command :=
  if name = "patch" then do ofPatch (← readArguments patchGrammar none .nothing arguments)
  else if name = "analyze" then do
    ofAnalyze (← readArguments analyzeGrammar none .nothing arguments)
  else if name = "help" then .error (ofHelp arguments)
  else .error .usage

/-- Reads the arguments of the program, behind the options that were given. -/
def read (g : Given) : List String → Except Stop Command
  | [] => .error .usage
  | argument :: rest =>
    if argument = "--" then .error .usage
    else if isOption argument then do
      let (g, _) ← readOption programGrammar g argument
      read g rest
    else ofNamed argument rest

/-- The command that the arguments of the program stand for. -/
def parse (arguments : List String) : Except Stop Command :=
  read .nothing arguments

end Command

end JarGate.CommandLine
