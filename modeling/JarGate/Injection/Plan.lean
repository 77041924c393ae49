import JarGate.ClassFile.Basic
import JarGate.Plugin.Descriptor

/-!
# Choosing the methods that ask the gate

The main class of a plugin asks in `onEnable()V`. Other classes ask in their callbacks: those that
the caller or the descriptor vouches for (`AllowList`), and those whose simple name tells that they
listen to events or run commands. Methods without code and methods that a compiler made up are left
alone.
-/

namespace JarGate

/-- A class of a package. -/
structure PackagedClass where
  /-- The entry that it was read from. -/
  entry : String
  name : String
  content : ClassFile
  deriving DecidableEq, Repr

/-- Why a method asks the gate. -/
inductive TargetReason where
  | entryPoint | declaredCallback | heuristicCallback
  deriving DecidableEq, Repr

/-- The text of a reason. -/
def TargetReason.display : TargetReason → String
  | .entryPoint => "entry point"
  | .declaredCallback => "declared callback"
  | .heuristicCallback => "heuristic callback"

/-- Why a class is left alone. -/
inductive RejectReason where
  | isInterface | noCallbacks | notCandidate
  deriving DecidableEq, Repr

/-- The name of such a reason. -/
def RejectReason.display : RejectReason → String
  | .isInterface => "Interface"
  | .noCallbacks => "NoCallbacks"
  | .notCandidate => "NotCandidate"

/-- What a class other than the main class is. -/
inductive Classification where
  | declared
  | heuristic
  | rejected (why : RejectReason)
  deriving DecidableEq, Repr

/-- Why the callbacks of a class of this kind ask the gate, if they do. -/
def Classification.reason? : Classification → Option TargetReason
  | .declared => some .declaredCallback
  | .heuristic => some .heuristicCallback
  | .rejected _ => none

/-- A method that is to ask the gate. -/
structure InjectionTarget where
  entry : String
  className : String
  /-- The position of the method in its class. -/
  index : Nat
  name : String
  descriptor : String
  reason : TargetReason
  deriving DecidableEq, Repr

/-- The text of a target: its class, its name, and its descriptor. -/
def InjectionTarget.display (t : InjectionTarget) : String :=
  t.className ++ "." ++ t.name ++ t.descriptor

/-- Failures of planning. -/
inductive PlanError where
  | noEntryPoint (main : String)
  | classError (entry : String) (error : ClassError)
  deriving DecidableEq, Repr

/-- The full text of an error. -/
def PlanError.message : PlanError → String
  | .noEntryPoint main => "main class " ++ main ++ " not found in the package"
  | .classError entry error => entry ++ ": " ++ error.message

/-! ### Names -/

/-- What follows the last occurrence of a character, or the whole text without one. -/
def afterLast (mark : Char) (cs : List Char) : List Char :=
  (cs.reverse.takeWhile (· != mark)).reverse

/-- The name of a class without its package and without the classes around it. -/
def simpleName (name : String) : String :=
  String.ofList (afterLast '$' (afterLast '/' name.toList))

/-- Turns the letters `A` to `Z` into small ones. -/
def lowerCase (text : String) : String :=
  String.ofList (text.toList.map Char.toLower)

/-- Whether a method of this name is a callback: `on`, followed by a letter from `A` to `Z`. -/
def isCallbackName (name : String) : Bool :=
  match name.toList with
  | 'o' :: 'n' :: c :: _ => c.isUpper
  | _ => false

/-- Whether a text occurs in another. -/
def occursIn (part : List Char) : List Char → Bool
  | [] => part.isEmpty
  | c :: cs => part.isPrefixOf (c :: cs) || occursIn part cs

/-- The words in a simple name that make a class a candidate. -/
def candidateWords : List String := ["Listener", "Command", "Executor"]

/-- Whether the simple name of a class makes it a candidate. -/
def hasCandidateName (name : String) : Bool :=
  candidateWords.any fun word => occursIn word.toList (simpleName name).toList

/-! ### Classes that are vouched for -/

/-- The classes that the caller or the descriptor vouches for. -/
structure AllowList where
  /-- Full names, with slashes between their parts. -/
  names : List String
  /-- Simple names without capital letters. -/
  simpleNames : List String
  deriving DecidableEq, Repr

namespace AllowList

/-- What the name of a command is followed by in the simple name of its class. -/
def commandEndings : List String := ["command", "executor", "commandexecutor"]

/-- The list for the commands of a descriptor and some names of classes, whose parts may also be
separated by dots. -/
def new (descriptor : PluginDescriptor) (classes : List String) : AllowList where
  names := classes.map fun c => PluginDescriptor.internalName (Text.trim c)
  simpleNames := descriptor.commands.flatMap fun command =>
    commandEndings.map (lowerCase command ++ ·)

/-- Whether a class is vouched for. -/
def contains (allow : AllowList) (name : String) : Bool :=
  allow.names.contains name || allow.simpleNames.contains (lowerCase (simpleName name))

end AllowList

/-! ### Methods -/

/-- Whether a method has code that was not made up by a compiler. -/
def isInjectable (m : MethodInfo) : Bool :=
  m.code?.isSome && !Access.hasAny m.access (Access.isBridge ||| Access.isSynthetic)

/-- The positions of callbacks among methods, the first of which is at a position. -/
def callbacksFrom (c : ClassFile) (index : Nat) : List MethodInfo → Except ClassError (List Nat)
  | [] => .ok []
  | m :: ms => do
    let found ← if isInjectable m then (c.methodName m).map isCallbackName else pure false
    let rest ← callbacksFrom c (index + 1) ms
    return if found then index :: rest else rest

/-- The positions of the callbacks of a class. -/
def callbacks (c : ClassFile) : Except ClassError (List Nat) :=
  callbacksFrom c 0 c.methods

/-- What a class other than the main class is. -/
def classify (c : ClassFile) (name : String) (allow : AllowList) :
    Except ClassError Classification :=
  if c.isInterface || c.isAnnotation then .ok (.rejected .isInterface)
  else do
    let found ← callbacks c
    let candidate (kind : Classification) : Classification :=
      if found.isEmpty then .rejected .noCallbacks else kind
    return if allow.contains name then candidate .declared
      else if hasCandidateName name then candidate .heuristic
      else .rejected .notCandidate

/-! ### Plans -/

/-- What was decided about the classes of a package. -/
structure Plan where
  /-- The main class. -/
  entryPoint : String
  /-- The other classes, apart from those that are no candidates. -/
  classified : List (String × Classification)
  targets : List InjectionTarget
  deriving DecidableEq, Repr

namespace Plan

/-- The name of the method that the main class asks in. -/
def enableMethod : String := "onEnable"

/-- The descriptor of that method. -/
def enableDescriptor : String := "()V"

/-- The method at a position of a class, as a target. -/
def methodTarget (p : PackagedClass) (reason : TargetReason) (index : Nat) :
    Except ClassError (List InjectionTarget) :=
  match p.content.methods[index]? with
  | none => .ok []
  | some m => do
    return [{
      entry := p.entry
      className := p.name
      index
      name := ← p.content.methodName m
      descriptor := ← p.content.methodDescriptor m
      reason }]

/-- The target in the main class, if it has one. -/
def entryTargets (p : PackagedClass) : Except ClassError (List InjectionTarget) :=
  match p.content.findMethod? enableMethod enableDescriptor with
  | none => .ok []
  | some index =>
    if (p.content.methods[index]?).any isInjectable then methodTarget p .entryPoint index
    else .ok []

/-- What a class other than the main class is, and its targets. -/
def callbackTargets (p : PackagedClass) (allow : AllowList) :
    Except ClassError (Classification × List InjectionTarget) := do
  let verdict ← classify p.content p.name allow
  match verdict.reason? with
  | none => return (verdict, [])
  | some reason =>
    return (verdict, (← (← callbacks p.content).mapM (methodTarget p reason)).flatten)

/-- Adds what is decided about a class to a plan. -/
def add (allow : AllowList) (plan : Plan) (p : PackagedClass) (isMain : Bool) :
    Except ClassError Plan :=
  if isMain then do
    return { plan with targets := plan.targets ++ (← entryTargets p) }
  else do
    let (verdict, found) ← callbackTargets p allow
    return { plan with
      classified :=
        if verdict = .rejected .notCandidate then plan.classified
        else plan.classified ++ [(p.name, verdict)]
      targets := plan.targets ++ found }

/-- Adds what is decided about classes to a plan; the main class is the one at a position. -/
def addAll (allow : AllowList) (main : Nat) (plan : Plan) :
    List (PackagedClass × Nat) → Except PlanError Plan
  | [] => .ok plan
  | (p, index) :: rest =>
    match add allow plan p (index == main) with
    | .ok plan => addAll allow main plan rest
    | .error e => .error (.classError p.entry e)

/-- The plan for the classes of a package. The main class is the first one of its name. -/
def make (descriptor : PluginDescriptor) (classes : List PackagedClass)
    (callbackClasses : List String) : Except PlanError Plan :=
  match classes.findIdx? (·.name == descriptor.mainInternal) with
  | none => .error (.noEntryPoint descriptor.main)
  | some index =>
    addAll (AllowList.new descriptor callbackClasses) index ⟨descriptor.mainInternal, [], []⟩
      classes.zipIdx

end Plan

end JarGate
