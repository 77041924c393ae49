import JarGate.Text.Blank
import JarGate.Yaml.Value

/-!
# Plugin descriptors

The YAML record that every plugin package carries: the name of the plugin, its main class, and the
commands that it declares. The record is a mapping by the names of the fields.
-/

namespace JarGate

/-- A plugin descriptor. -/
structure PluginDescriptor where
  /-- The entry of the package that it was read from. -/
  path : String
  name : String
  /-- The version, where it is a text or a number. -/
  version : Option String
  /-- The name of the main class as written, with dots between its parts. -/
  main : String
  description : Option String
  /-- The names of the commands, in the order in which they are declared. -/
  commands : List String
  deriving DecidableEq, Repr

namespace PluginDescriptor

/-- The entries of a package that may hold the descriptor, the first choice first. -/
def paths : List String :=
  ["plugin.yml", "paper-plugin.yml"]

/-- A class name with slashes between its parts. -/
def internalName (dotted : String) : String :=
  String.ofList (dotted.toList.map fun c => if c = '.' then '/' else c)

/-- The name of the main class, with slashes between its parts. -/
def mainInternal (d : PluginDescriptor) : String :=
  internalName d.main

open Yaml (Node Value Reader)

/-- The names of the fields. -/
def fieldNames : List String :=
  ["name", "version", "main", "description", "commands"]

/-- The fields among the members of a mapping, behind those found before. Members of other names are
passed over; a field that is given twice is refused. -/
def fieldsOf (found : List (String × Node)) : List (Node × Node) → Reader (List (String × Node))
  | [] => return found
  | (k, v) :: rest => do
    let name ← Reader.text k
    if fieldNames.contains name then
      if found.any (·.1 == name) then failure else fieldsOf ((name, v) :: found) rest
    else fieldsOf found rest

/-- The fields of a record. -/
def fields : Node → Reader (List (String × Node))
  | .mapping _ members => fieldsOf [] members
  | _ => failure

/-- The text of a value that is a text or a number. -/
def textOf? : Value → Option String
  | .string text => some text
  | .number n => some n.render
  | _ => none

/-- A field that has to be given. -/
def required (fields : List (String × Node)) (name : String) : Reader String :=
  match fields.lookup name with
  | some n => Reader.text n
  | none => failure

/-- A field that may stand for nothing or be missing. -/
def allowed {α : Type} (fields : List (String × Node)) (name : String) (r : Node → Reader α) :
    Reader (Option α) :=
  match fields.lookup name with
  | some n => Reader.optional r n
  | none => return none

/-- Reads a descriptor from the root of a document. -/
def read (path : String) (root : Node) : Reader PluginDescriptor := do
  let given ← fields root
  let depth := Reader.maxDepth - 1
  let name ← required given "name"
  let version ← allowed given "version" (Reader.value depth)
  let main ← required given "main"
  let description ← allowed given "description" Reader.text
  let commands ← allowed given "commands" (Reader.mapping depth)
  return {
    path, name
    version := version.bind textOf?
    main := Text.trim main
    description
    commands := (commands.getD []).filterMap fun (key, _) => textOf? key }

/-- The descriptor that a text holds. -/
def parse? (path text : String) : Option PluginDescriptor := do
  let document ← Yaml.Document.parse? text
  let (descriptor, _) ← ((read path document.root).run document).run 0
  return descriptor

end PluginDescriptor

end JarGate
