import JarGate.CommandLine.Report
import JarGate.Text.Parts

/-!
# Running commands

The program as a function of its arguments and of the files it works on. The files are given by
operations in some monad, so that the same definitions run on a disk and on a table.
-/

namespace JarGate.CommandLine

/-- Operations on files. Those that fail say why. -/
structure Files (m : Type → Type) where
  read : String → m (Except String Bytes)
  exists? : String → m Bool
  write : String → Bytes → m (Except String Unit)

/-- What a run leaves behind on the terminal. -/
structure Outcome where
  output : String
  /-- What is said about an error. -/
  error : Option String
  success : Bool
  deriving DecidableEq, Repr

namespace Outcome

/-- What every text about an error starts with. -/
def errorStart : String := "Error: "

/-- The lines about an error that start like one. -/
def errorLines (o : Outcome) : List String :=
  (o.error.toList.flatMap (Text.parts '\n')).filter (startsWith errorStart)

/-- A run that printed some lines. -/
def done (lines : List String) : Outcome :=
  ⟨Help.lines lines, none, true⟩

/-- A run that printed some lines and failed. -/
def failed (lines : List String) (message : String) : Outcome :=
  ⟨Help.lines lines, some (errorStart ++ message), false⟩

/-- A run that stopped at its arguments. -/
def stopped : Stop → Outcome
  | .usage => ⟨"", none, false⟩
  | .help command => ⟨Help.text command, none, true⟩
  | .version => ⟨versionText, none, true⟩

end Outcome

/-- A message about a file. -/
def fileMessage (doing path reason : String) : String :=
  doing ++ " '" ++ path ++ "': " ++ reason

/-- Patches the octets of a package. -/
def patchBytes (options : Patch.Options) (input : Bytes) :
    Except PatchError (Bytes × Patch.Summary) := do
  let p ← (Package.ofBytes input).mapError .package
  let (p, summary) ← Patch.apply options p
  return (p.toBytes, summary)

/-- Analyzes the octets of a package. -/
def analyzeBytes (callbackClasses : List String) (input : Bytes) :
    Except PatchError Patch.Analysis := do
  Patch.analyze (← (Package.ofBytes input).mapError .package) callbackClasses

variable {m : Type → Type} [Monad m]

/-- Patches a file. Nothing is written unless the patch succeeds. -/
def runPatch (files : Files m) (input output : String) (options : Patch.Options) : m Outcome := do
  match ← files.read input with
  | .error reason => return .failed [] (fileMessage "reading" input reason)
  | .ok content =>
    let before := Report.beforePatch input output options
    match patchBytes options content with
    | .error e => return .failed before e.fullMessage
    | .ok (package, summary) =>
      let before := if ← files.exists? output then before ++ [Report.overwriting output] else before
      match ← files.write output package with
      | .error reason => return .failed before (fileMessage "writing" output reason)
      | .ok () => return .done (before ++ Report.afterPatch options summary)

/-- Analyzes a file. -/
def runAnalyze (files : Files m) (input : String) (callbackClasses : List String) :
    m Outcome := do
  match ← files.read input with
  | .error reason => return .failed [] (fileMessage "reading" input reason)
  | .ok content =>
    match analyzeBytes callbackClasses content with
    | .error e => return .failed [] e.fullMessage
    | .ok analysis => return .done (Report.analysis input analysis)

/-- Runs the program. -/
def run (files : Files m) (arguments : List String) : m Outcome :=
  match Command.parse arguments with
  | .error why => return .stopped why
  | .ok (.patch input output options) => runPatch files input output options
  | .ok (.analyze input callbackClasses) => runAnalyze files input callbackClasses

end JarGate.CommandLine
