import JarGate.CommandLine.Command
import JarGate.CommandLine.Help

/-!
# Reports

What the commands print: a report about a patch, in a part before the work and a part after it, and
a report about an analysis.
-/

namespace JarGate.CommandLine

/-- How many columns a rule is wide. -/
def ruleWidth : Nat := 40

/-- A line across the report. -/
def rule (c : Char) : String :=
  String.ofList (List.replicate ruleWidth c)

/-- A text with blanks behind it, up to a number of columns. -/
def padded (width : Nat) (text : String) : String :=
  text ++ String.ofList (List.replicate (width - text.length) ' ')

/-- How a class was classified, in words. -/
def verdictText : Classification → String
  | .declared => "declared"
  | .heuristic => "heuristic"
  | .rejected why => "rejected (" ++ why.display ++ ")"

namespace Report

/-- What is printed before a package is patched. -/
def beforePatch (input output : String) (options : Patch.Options) : List String := [
  programName ++ " v" ++ programVersion,
  rule '─',
  "Input:  " ++ input,
  "Output: " ++ output,
  "Mode:   " ++ options.policy.mode.displayName,
  ""]

/-- What is printed where a file is about to be overwritten. -/
def overwriting (output : String) : String :=
  "[*] Overwriting existing " ++ output

/-- What is printed about a target that asks the gate. -/
def patchedLine (t : InjectionTarget) : String :=
  "[+] " ++ t.display ++ " (" ++ t.reason.display ++ ")"

/-- What is printed about a target that was skipped. -/
def skippedLine : InjectionTarget × InjectError → String
  | (t, e) => "[!] skipped " ++ t.display ++ ": " ++ e.message

/-- What is printed about a signature file that was removed. -/
def signatureLine (path : String) : String :=
  "[*] removed signature " ++ path

/-- What is printed after a package was patched. -/
def afterPatch (options : Patch.Options) (s : Patch.Summary) : List String :=
  s.patched.map patchedLine ++ s.skipped.map skippedLine ++ s.signatures.map signatureLine ++ [
    "",
    "Plugin " ++ s.plugin ++ ": " ++ toString s.attempted ++ " attempted, " ++
      toString s.patched.length ++ " patched, " ++ toString s.skipped.length ++ " skipped",
    "Server URL: " ++ options.policy.serverUrl,
    "Product ID: " ++ options.policy.productId]

/-- What is printed about the descriptor of a package. -/
def descriptorLines (d : PluginDescriptor) (classes : Nat) : List String := [
  "Descriptor:  " ++ d.path,
  "Name:        " ++ d.name,
  "Version:     " ++ d.version.getD "-",
  "Main class:  " ++ d.main,
  "Commands:    " ++ if d.commands.isEmpty then "-" else String.intercalate ", " d.commands,
  "Classes:     " ++ toString classes,
  ""]

/-- What is printed about the classes that were looked at. -/
def candidateLines (classified : List (String × Classification)) : List String :=
  if classified.isEmpty then []
  else
    ["Candidate classes:"] ++
      classified.map (fun (name, verdict) =>
        "  " ++ padded 48 name ++ "  " ++ verdictText verdict) ++ [""]

/-- What is printed about the targets. -/
def targetLines (targets : List InjectionTarget) : List String :=
  ["Targets (" ++ toString targets.length ++ "):"] ++
    targets.map fun t => "  " ++ t.display ++ "  [" ++ t.reason.display ++ "]"

/-- The report about an analysis. -/
def analysis (input : String) (a : Patch.Analysis) : List String :=
  ["Plugin Analysis: " ++ input, rule '═'] ++
    descriptorLines a.descriptor a.classes.length ++
    candidateLines a.plan.classified ++
    targetLines a.plan.targets

end Report

end JarGate.CommandLine
