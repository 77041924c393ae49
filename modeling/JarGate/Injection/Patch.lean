import JarGate.Archive.Package
import JarGate.Injection.GateClass
import JarGate.Injection.Plan

/-!
# Patching packages

A package is patched in one go: its descriptor and its classes are read, targets are chosen, the
gate call is put in front of each of them, and the package gets the changed classes, the gate class
and the policy. Signature files would not fit the changed classes and are removed. A target that
cannot ask the gate is skipped; any other failure leaves no package at all.
-/

namespace JarGate

/-- Failures of finding the descriptor of a package. -/
inductive DescriptorError where
  | missing
  | invalid (path : String)
  | package (error : PackageError)
  deriving DecidableEq, Repr

/-- The full text of an error. -/
def DescriptorError.message : DescriptorError → String
  | .missing => "no plugin.yml or paper-plugin.yml in the package"
  | .invalid path => path ++ " is not a valid plugin descriptor"
  | .package error => error.message

/-- Failures of patching. -/
inductive PatchError where
  | package (error : PackageError)
  | descriptor (error : DescriptorError)
  | plan (error : PlanError)
  | classError (entry : String) (error : ClassError)
  | inject (target : InjectionTarget) (error : InjectError)
  | alreadyLicensed
  | noTargetsPatched (attempted : Nat)
  deriving DecidableEq, Repr

/-- The full text of an error. -/
def PatchError.message : PatchError → String
  | .package error => error.message
  | .descriptor error => error.message
  | .plan error => error.message
  | .classError entry error => entry ++ ": " ++ error.message
  | .inject target error => target.display ++ ": " ++ error.message
  | .alreadyLicensed => "package already contains the license gate; refusing to patch twice"
  | .noTargetsPatched attempted =>
    "none of the " ++ toString attempted ++ " targets could be patched"

/-- The error that another one was caused by, if it tells more than its own text. -/
def PatchError.cause? : PatchError → Option String
  | .classError _ error => some error.message
  | .plan (.classError _ error) => some error.message
  | .inject _ error => some error.message
  | _ => none

/-- The text of an error, followed by that of its cause. -/
def PatchError.fullMessage (e : PatchError) : String :=
  match e.cause? with
  | some cause => e.message ++ ": " ++ cause
  | none => e.message

/-! ### What a package holds -/

/-- The directory of the files about a package. -/
def metaDirectory : String := "META-INF/"

/-- The endings of signature files, in capital letters. -/
def signatureEndings : List String := [".SF", ".RSA", ".DSA", ".EC"]

/-- Whether a text starts with another. -/
def startsWith (start text : String) : Bool :=
  start.toList.isPrefixOf text.toList

/-- Whether a text ends with another. -/
def endsWith (ending text : String) : Bool :=
  ending.toList.isSuffixOf text.toList

/-- Whether a path is that of a signature file: one that lies directly in the directory of the files
about a package, with one of the endings in either case of letter. -/
def isSignatureFile (path : String) : Bool :=
  if startsWith metaDirectory path then
    let name := path.toList.drop metaDirectory.length
    !name.contains '/' && signatureEndings.any fun ending =>
      ending.toList.isSuffixOf (name.map Char.toUpper)
  else false

/-- Whether a path is that of a class that a plugin may run: not one about the package, nor the
description of a module. -/
def isPluginClass (path : String) : Bool :=
  endsWith ".class" path && !startsWith metaDirectory path && !endsWith "module-info.class" path

namespace Package

/-- The descriptor of a package, in the first of its possible entries that there is. -/
def descriptor (p : Package) : Except DescriptorError PluginDescriptor :=
  match PluginDescriptor.paths.find? p.contains with
  | none => .error .missing
  | some path =>
    match p.read path with
    | .error e => .error (.package e)
    | .ok content =>
      match PluginDescriptor.parse? path (Text.Utf8.decodeLossy content) with
      | some descriptor => .ok descriptor
      | none => .error (.invalid path)

/-- The octets of the plugin classes of a package, in its order. -/
def classFiles (p : Package) : Except PackageError (List (String × Bytes)) :=
  (p.paths.filter isPluginClass).mapM fun path => do
    return (path, ← p.read path)

end Package

/-- The class in an entry. -/
def PackagedClass.decode (entry : String) (content : Bytes) : Except ClassError PackagedClass := do
  let c ← ClassFile.decode content
  return ⟨entry, ← c.name, c⟩

namespace Patch

/-- The plugin classes of a package, in its order. All entries are read before any is decoded. -/
def readClasses (p : Package) : Except PatchError (List PackagedClass) := do
  let files ← p.classFiles.mapError .package
  files.mapM fun (entry, content) =>
    (PackagedClass.decode entry content).mapError (.classError entry)

/-- What the classes of a package are found to be. -/
structure Analysis where
  descriptor : PluginDescriptor
  classes : List PackagedClass
  plan : Plan
  deriving DecidableEq, Repr

/-- Reads the descriptor and the classes of a package and chooses the targets. -/
def analyze (p : Package) (callbackClasses : List String) : Except PatchError Analysis := do
  let descriptor ← p.descriptor.mapError .descriptor
  let classes ← readClasses p
  let plan ← (Plan.make descriptor classes callbackClasses).mapError .plan
  return { descriptor, classes, plan }

/-- What a caller decides about a patch. -/
structure Options where
  policy : LicensePolicy
  /-- Classes whose callbacks ask the gate whatever their names are. -/
  callbackClasses : List String
  deriving DecidableEq, Repr

/-- How the prologues of a patch are to look. -/
def Options.prologue (o : Options) : PrologueOptions :=
  ⟨o.policy.mode.shape, o.policy.approximateDefaults⟩

/-- What became of the targets so far. -/
structure Progress where
  classes : List PackagedClass
  /-- The positions of the classes that changed, in the order in which they first did. -/
  touched : List Nat
  patched : List InjectionTarget
  skipped : List (InjectionTarget × InjectError)
  deriving DecidableEq, Repr

/-- Puts the gate call in front of a target in the class at a position. -/
def injectAt (options : PrologueOptions) (position : Nat) (target : InjectionTarget)
    (state : Progress) : Except PatchError Progress :=
  match state.classes[position]? with
  | none => .ok state
  | some p =>
    let withClass (c : ClassFile) : List PackagedClass :=
      state.classes.set position { p with content := c }
    match Prologue.inject target.index options p.content with
    | .ok _ c => .ok { state with
        classes := withClass c
        touched :=
          if state.touched.contains position then state.touched
          else state.touched ++ [position]
        patched := state.patched ++ [target] }
    | .error e c =>
      if e.isRecoverable then
        .ok { state with classes := withClass c, skipped := state.skipped ++ [(target, e)] }
      else .error (.inject target e)

/-- Puts the gate call in front of a target. Its class is the first one of its entry. -/
def injectTarget (options : PrologueOptions) (state : Progress) (target : InjectionTarget) :
    Except PatchError Progress :=
  match state.classes.findIdx? (·.entry == target.entry) with
  | none => .ok state
  | some position => injectAt options position target state

/-- Puts the gate call in front of targets, in their order. -/
def injectAll (options : PrologueOptions) (classes : List PackagedClass)
    (targets : List InjectionTarget) : Except PatchError Progress :=
  targets.foldlM (injectTarget options) ⟨classes, [], [], []⟩

/-- Puts changed classes in the place of what their entries held. -/
def replaceClasses (classes : List PackagedClass) (p : Package) : Except PatchError Package :=
  classes.foldlM (fun p c => do
    let content ← c.content.encode.mapError (.classError c.entry)
    (p.replace c.entry content).mapError .package) p

/-- Adds the gate class and the policy. -/
def addGate (policy : LicensePolicy) (p : Package) : Except PatchError Package := do
  let gate ← (GateClass.file policy.mode).mapError (.classError gateEntry)
  let p ← (p.add gateEntry gate).mapError .package
  (p.put LicensePolicy.propertiesPath (Text.Utf8.encode policy.toProperties)).mapError .package

/-- Removes entries. -/
def removeAll (paths : List String) (p : Package) : Except PatchError Package :=
  paths.foldlM (fun p path => (p.remove path).mapError .package) p

/-- What a patch did. -/
structure Summary where
  /-- The name of the plugin. -/
  plugin : String
  attempted : Nat
  patched : List InjectionTarget
  skipped : List (InjectionTarget × InjectError)
  /-- The signature files that were removed. -/
  signatures : List String
  deriving DecidableEq, Repr

/-- The patched package, and what was done to it. -/
def apply (options : Options) (p : Package) : Except PatchError (Package × Summary) := do
  if p.contains gateEntry then throw .alreadyLicensed
  let found ← analyze p options.callbackClasses
  let attempted := found.plan.targets.length
  let done ← injectAll options.prologue found.classes found.plan.targets
  if done.patched.isEmpty then throw (.noTargetsPatched attempted)
  let p ← replaceClasses (done.touched.filterMap (done.classes[·]?)) p
  let p ← addGate options.policy p
  let signatures := p.paths.filter isSignatureFile
  let p ← removeAll signatures p
  return (p, {
    plugin := found.descriptor.name
    attempted
    patched := done.patched
    skipped := done.skipped
    signatures })

end Patch

end JarGate
