import JarGate.CommandLine.Arguments

/-!
# Help

The texts about the commands and their options.
-/

namespace JarGate.CommandLine

/-- The name of the program and its version. -/
def programName : String := "jarlock"

/-- The version of the program. -/
def programVersion : String := "0.1.0"

/-- The answer to a question for the version. -/
def versionText : String := programName ++ " " ++ programVersion ++ "\n"

namespace Help

/-- Lines of text. -/
def lines (ls : List String) : String :=
  String.join (ls.map (· ++ "\n"))

/-- The text about all commands. -/
def overview : String := lines [
  "License gate injector for compiled plugin jars",
  "",
  "Usage: jarlock [OPTIONS] <COMMAND>",
  "",
  "Commands:",
  "  patch    Inject the license gate into a plugin jar",
  "  analyze  Show the plugin descriptor and the methods that would be patched",
  "  help     Print this message or the help of the given subcommand(s)",
  "",
  "Options:",
  "  -v, --verbose  Log every decoded class and injected method",
  "  -h, --help     Print help",
  "  -V, --version  Print version"]

/-- The text about `patch`. -/
def patch : String := lines [
  "Inject the license gate into a plugin jar",
  "",
  "Usage: jarlock patch [OPTIONS] --server <SERVER> --product <PRODUCT> <INPUT> <OUTPUT>",
  "",
  "Arguments:",
  "  <INPUT>   Input plugin jar",
  "  <OUTPUT>  Output jar path",
  "",
  "Options:",
  "  -s, --server <SERVER>",
  "          License server base URL",
  "  -v, --verbose",
  "          Log every decoded class and injected method",
  "  -p, --product <PRODUCT>",
  "          Product id registered on the license server",
  "  -k, --key <KEY>",
  "          License key baked into the jar (may be filled in later) [default: ]",
  "  -m, --mode <MODE>",
  "          kick-and-disable, disable-only, limited-mode, allow-on-error or deny-on-error " ++
    "[default: disable-only]",
  "      --approximate-defaults",
  "          Allow early exits from methods returning values other than void/boolean",
  "      --callback-class <CALLBACK_CLASSES>",
  "          Extra class to treat as a declared callback holder (repeatable)",
  "      --cache-secs <CACHE_SECS>",
  "          How long a verdict is cached at runtime [default: 3600]",
  "      --connect-timeout-ms <CONNECT_TIMEOUT_MS>",
  "          [default: 5000]",
  "      --read-timeout-ms <READ_TIMEOUT_MS>",
  "          [default: 10000]",
  "  -h, --help",
  "          Print help"]

/-- The text about `analyze`. -/
def analyze : String := lines [
  "Show the plugin descriptor and the methods that would be patched",
  "",
  "Usage: jarlock analyze [OPTIONS] <INPUT>",
  "",
  "Arguments:",
  "  <INPUT>  Input plugin jar",
  "",
  "Options:",
  "      --callback-class <CALLBACK_CLASSES>",
  "          Extra class to treat as a declared callback holder (repeatable)",
  "  -v, --verbose",
  "          Log every decoded class and injected method",
  "  -h, --help",
  "          Print help"]

/-- The text about `help`. -/
def help : String := lines [
  "Print this message or the help of the given subcommand(s)",
  "",
  "Usage: jarlock help [COMMAND]...",
  "",
  "Arguments:",
  "  [COMMAND]...  Print help for the subcommand(s)"]

/-- The text about a command, or about all of them. -/
def text : Option String → String
  | some "patch" => patch
  | some "analyze" => analyze
  | some "help" => help
  | _ => overview

end Help

end JarGate.CommandLine
