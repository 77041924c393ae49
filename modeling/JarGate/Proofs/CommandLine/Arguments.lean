import JarGate.CommandLine.Command
import JarGate.Proofs.Success
import JarGate.Proofs.Text.Digits

/-!
# What arguments ask for

Whatever is read from arguments are options of the grammar, with values that these accept. So an option for
a number was given with the text of a number, or not at all, and the policy of a command holds the numbers
that were asked for.
-/

namespace JarGate.CommandLine

variable {grammar : Grammar} {g g' given : Given} {o : OptionSpec} {pending pending' : Option OptionSpec}
  {arguments : List String} {argument long value : String} {text : List Char}

/-! ### Options and their values -/

/-- Whether an option may be given with a value, which is empty for a flag. -/
def OptionSpec.Takes (o : OptionSpec) (value : String) : Prop :=
  match o.effect with
  | .flag => value = ""
  | .value accepts _ => accepts value
  | .stop _ => False

/-- Whether all that was given are options of a grammar, with values that they take. -/
def Given.Permitted (grammar : Grammar) (g : Given) : Prop :=
  ∀ entry ∈ g.options, ∃ o ∈ grammar.options, o.long = entry.1 ∧ o.Takes entry.2

namespace Given.Permitted

theorem nothing (grammar : Grammar) : Permitted grammar .nothing :=
  List.forall_mem_nil _

/-- One more option. -/
theorem concat (permitted : Permitted grammar g) (member : o ∈ grammar.options) (takes : o.Takes value) :
    Permitted grammar { g with options := g.options ++ [(o.long, value)] } :=
  List.forall_mem_append.mpr ⟨permitted, List.forall_mem_singleton.mpr ⟨o, member, rfl, takes⟩⟩

theorem addFlag (permitted : Permitted grammar g) (member : o ∈ grammar.options)
    (flag : o.effect = .flag) (added : g.addFlag o = .ok g') : Permitted grammar g' := by
  rw [Given.addFlag] at added
  split at added
  · cases added
  · obtain rfl := Except.ok.inj added
    exact permitted.concat member (by rw [OptionSpec.Takes, flag])

theorem addValue (permitted : Permitted grammar g) (member : o ∈ grammar.options)
    (added : g.addValue o value = .ok g') : Permitted grammar g' := by
  rw [Given.addValue] at added
  split at added
  next accepts repeatable effect =>
    split at added
    next accepted =>
      obtain rfl := Except.ok.inj added
      refine permitted.concat member ?_
      rw [OptionSpec.Takes, effect]
      exact (Bool.and_eq_true_iff.mp accepted).1
    next => cases added
  next => cases added

theorem addPositional (permitted : Permitted grammar g)
    (added : g.addPositional grammar argument = .ok g') : Permitted grammar g' := by
  rw [Given.addPositional] at added
  split at added
  · obtain rfl := Except.ok.inj added
    exact permitted
  · cases added

theorem addPositionals (permitted : Permitted grammar g)
    (added : arguments.foldlM (Given.addPositional grammar) g = .ok g') : Permitted grammar g' := by
  induction arguments generalizing g with
  | nil =>
      obtain rfl := Except.ok.inj added
      exact permitted
  | cons argument rest ih =>
      rw [List.foldlM_cons] at added
      obtain ⟨g₁, here, behind⟩ := bind_eq_ok_iff.mp added
      exact ih (permitted.addPositional here) behind

end Given.Permitted

/-- What one argument may lead to: more options that are permitted, and one whose value is to come. -/
def Reaches (grammar : Grammar) (result : Except Stop (Given × Option OptionSpec)) : Prop :=
  ∀ g pending, result = .ok (g, pending) → g.Permitted grammar ∧ ∀ o ∈ pending, o ∈ grammar.options

namespace Reaches

variable {result : Except Stop Given}

theorem error (why : Stop) : Reaches grammar (.error why) := nofun

/-- An option that was read with its value. -/
theorem settled (permitted : ∀ g', result = .ok g' → g'.Permitted grammar) :
    Reaches grammar (result.map (·, none)) := by
  intro g pending read
  cases result with
  | error why => cases read
  | ok g₁ =>
      obtain ⟨rfl, rfl⟩ := Prod.mk.inj (Except.ok.inj read)
      exact ⟨permitted g₁ rfl, nofun⟩

theorem waiting (permitted : g.Permitted grammar) (member : o ∈ grammar.options) :
    Reaches grammar (.ok (g, some o)) := by
  intro g' pending read
  obtain ⟨rfl, rfl⟩ := Prod.mk.inj (Except.ok.inj read)
  exact ⟨permitted, fun _ same => Option.some.inj same ▸ member⟩

end Reaches

theorem reaches_readLong (permitted : g.Permitted grammar) (text : List Char) :
    Reaches grammar (readLong grammar g text) := by
  rw [readLong]
  generalize splitValue text = parts
  obtain ⟨name, attached⟩ := parts
  dsimp only
  cases found : grammar.options.find? (·.long == name) with
  | none => exact .error _
  | some o =>
      have member := List.mem_of_find?_eq_some found
      dsimp only
      cases effect : o.effect with
      | stop why => cases attached <;> exact .error _
      | flag =>
          cases attached with
          | none => exact .settled fun g' => permitted.addFlag member effect
          | some value => exact .error _
      | value accepts repeatable =>
          cases attached with
          | none => exact .waiting permitted member
          | some value => exact .settled fun g' => permitted.addValue member

theorem reaches_readShort (permitted : g.Permitted grammar) (text : List Char) :
    Reaches grammar (readShort grammar g text) := by
  induction text generalizing g with
  | nil =>
      intro g' pending read
      obtain ⟨rfl, rfl⟩ := Prod.mk.inj (Except.ok.inj read)
      exact ⟨permitted, nofun⟩
  | cons c cs ih =>
      rw [readShort.eq_def]
      dsimp only
      cases found : grammar.options.find? (·.short == some c) with
      | none => exact .error _
      | some o =>
          have member := List.mem_of_find?_eq_some found
          dsimp only
          cases effect : o.effect with
          | stop why => exact .error _
          | flag =>
              intro g' pending read
              obtain ⟨g₁, added, behind⟩ := bind_eq_ok_iff.mp read
              exact ih (permitted.addFlag member effect added) g' pending behind
          | value accepts repeatable =>
              dsimp only
              split
              · exact .waiting permitted member
              · exact .settled fun g' => permitted.addValue member
              · exact .settled fun g' => permitted.addValue member

theorem reaches_readOption (permitted : g.Permitted grammar) (argument : String) :
    Reaches grammar (readOption grammar g argument) := by
  rw [readOption]
  split
  · exact reaches_readLong permitted _
  · exact reaches_readShort permitted _
  · exact .error _

/-- All that is read from arguments is permitted. -/
theorem permitted_readArguments (permitted : g.Permitted grammar)
    (waits : ∀ o ∈ pending, o ∈ grammar.options)
    (read : readArguments grammar pending g arguments = .ok given) : given.Permitted grammar := by
  have settled : ∀ o ∈ (none : Option OptionSpec), o ∈ grammar.options := nofun
  induction arguments generalizing g pending with
  | nil =>
      rw [readArguments] at read
      split at read
      · obtain rfl := Except.ok.inj read
        exact permitted
      · cases read
  | cons argument rest ih =>
      rw [readArguments.eq_def] at read
      dsimp only at read
      cases pending with
      | some o =>
          dsimp only at read
          split at read
          · cases read
          · obtain ⟨g₁, added, behind⟩ := bind_eq_ok_iff.mp read
            exact ih (permitted.addValue (waits o rfl) added) settled behind
      | none =>
          dsimp only at read
          split at read
          · exact permitted.addPositionals read
          · split at read
            · obtain ⟨⟨g₁, pending₁⟩, option, behind⟩ := bind_eq_ok_iff.mp read
              obtain ⟨permitted₁, waits₁⟩ := reaches_readOption permitted argument g₁ pending₁ option
              exact ih permitted₁ waits₁ behind
            · obtain ⟨g₁, added, behind⟩ := bind_eq_ok_iff.mp read
              exact ih (permitted.addPositional added) settled behind

theorem permitted_of_readArguments (read : readArguments grammar none .nothing arguments = .ok given) :
    given.Permitted grammar := by
  have settled : ∀ o ∈ (none : Option OptionSpec), o ∈ grammar.options := nofun
  exact permitted_readArguments (.nothing grammar) settled read

/-- An option that was given is one of the grammar, and takes its value. -/
theorem Given.Permitted.value? (permitted : given.Permitted grammar)
    (found : given.value? long = some value) :
    ∃ o ∈ grammar.options, o.long = long ∧ o.Takes value := by
  obtain ⟨before, behind, whole, -⟩ := List.lookup_eq_some_iff.mp found
  apply permitted (long, value)
  rw [whole]
  exact List.mem_append_right _ (List.mem_cons_self ..)

/-! ### Numbers -/

/-- Whether a number is the one that an option is given with, or a default without the option. -/
def Given.Asks (g : Given) (long : String) (default n : Nat) : Prop :=
  match g.value? long with
  | none => n = default
  | some text => number? text = some n

/-- The options for numbers. -/
def numberNames : List String :=
  ["cache-secs", "connect-timeout-ms", "read-timeout-ms"]

theorem takes_number (member : o ∈ patchGrammar.options) (named : o.long ∈ numberNames) :
    o.Takes value ↔ (number? value).isSome := by
  have others : ∀ name ∈ ["server", "product", "key", "mode", "approximate-defaults", "callback-class",
      "verbose", "help"], name ∉ numberNames := by
    decide
  simp only [patchGrammar, commonOptions, callbackOption, List.cons_append, List.nil_append,
    List.mem_cons, List.not_mem_nil, or_false] at member
  obtain rfl | rfl | rfl | rfl | rfl | rfl | rfl | rfl | rfl | rfl | rfl := member
  -- the options for numbers have the test in question, and all others have other names
  all_goals first
    | exact absurd named (others _ (by decide))
    | rfl

/-- A number that a command works with is the one that was asked for, and has 64 bits. -/
theorem asks_numberOr (permitted : given.Permitted patchGrammar) (long : String) (default : Nat)
    (named : long ∈ numberNames) (small : default < UInt64.size) :
    given.Asks long default (Command.numberOr given long default) ∧
      Command.numberOr given long default < UInt64.size := by
  rw [Given.Asks, Command.numberOr]
  cases found : given.value? long with
  | none => exact ⟨rfl, small⟩
  | some value =>
      obtain ⟨o, member, rfl, takes⟩ := permitted.value? found
      obtain ⟨n, read⟩ := Option.isSome_iff_exists.mp ((takes_number member named).mp takes)
      have asked : ((some value).bind number?).getD default = n := by
        rw [Option.bind_some, read, Option.getD_some]
      rw [asked]
      exact ⟨read, Text.Decimal.lt_of_below? read⟩

/-! ### Patches -/

variable {input output : String} {options : Patch.Options}

/-- The arguments of a patch name it, and behind its name they give what it needs. -/
theorem read_patch (parsed : Command.read g arguments = .ok (.patch input output options)) :
    ∃ front rest given server product, arguments = front ++ "patch" :: rest ∧
      readArguments patchGrammar none .nothing rest = .ok given ∧
      given.positionals = [input, output] ∧ given.value? "server" = some server ∧
      given.value? "product" = some product ∧
      options = ⟨Command.policy given server product, given.values "callback-class"⟩ := by
  induction arguments generalizing g with
  | nil => cases parsed
  | cons argument rest ih =>
      rw [Command.read] at parsed
      split at parsed
      · cases parsed
      split at parsed
      · obtain ⟨⟨g', pending⟩, -, behind⟩ := bind_eq_ok_iff.mp parsed
        obtain ⟨front, rest', given, server, product, rfl, told⟩ := ih behind
        exact ⟨argument :: front, rest', given, server, product, rfl, told⟩
      · rw [Command.ofNamed] at parsed
        split at parsed
        next named =>
          obtain ⟨given, read, made⟩ := bind_eq_ok_iff.mp parsed
          rw [Command.ofPatch] at made
          split at made
          next positionals server' product' =>
            obtain ⟨rfl, rfl, rfl⟩ := Command.patch.inj (Except.ok.inj made)
            exact ⟨[], rest, given, _, _, by rw [named, List.nil_append], read, positionals, server',
              product', rfl⟩
          next => cases made
        next =>
          split at parsed
          · obtain ⟨given, -, made⟩ := bind_eq_ok_iff.mp parsed
            rw [Command.ofAnalyze] at made
            split at made <;> cases made
          · split at parsed <;> cases parsed

/-- The arguments for a patch with a cache duration. -/
def cacheArguments (seconds : Nat) : List String :=
  ["patch", "in.jar", "out.jar", "--server", "u", "--product", "p", "--cache-secs", toString seconds]

/-- The policy that they ask for. -/
def cachePolicy (seconds : Nat) : LicensePolicy :=
  { LicensePolicy.new "u" "p" with cacheDuration := .ofSeconds seconds }

theorem not_isOption_toString (n : Nat) : isOption (toString n) = false := by
  rw [isOption, Text.Decimal.toList_toString]
  split
  next c cs digits =>
    have hyphen : '-'.isDigit := by
      apply Text.Decimal.isDigit_of_mem_toDigits (n := n)
      rw [digits]
      exact List.mem_cons_self ..
    exact absurd hyphen (by decide)
  next => rfl

theorem number?_toString {n : Nat} (small : n < UInt64.size) : number? (toString n) = some n := by
  rw [number?, Text.Decimal.toList_toString]
  exact Text.Decimal.below?_toDigits small

/-- Every number of seconds that has 64 bits is accepted. -/
theorem parse_cacheArguments {seconds : Nat} (small : seconds < UInt64.size) :
    Command.parse (cacheArguments seconds) =
      .ok (.patch "in.jar" "out.jar" ⟨cachePolicy seconds, []⟩) := by
  have number := number?_toString small
  have digits := not_isOption_toString seconds
  rw [cacheArguments]
  generalize toString seconds = text at number digits
  let before : Given := ⟨[("server", "u"), ("product", "p")], ["in.jar", "out.jar"]⟩
  let after : Given := ⟨before.options ++ [("cache-secs", text)], before.positionals⟩
  have waiting : Command.parse
      ["patch", "in.jar", "out.jar", "--server", "u", "--product", "p", "--cache-secs", text] =
        readArguments patchGrammar (some (numberOption "cache-secs")) before [text] >>= Command.ofPatch :=
    rfl
  have added : before.addValue (numberOption "cache-secs") text = .ok after := by
    have accepted : ((number? text).isSome && (false || !before.has "cache-secs")) = true := by
      rw [number]
      rfl
    exact if_pos accepted
  have given : readArguments patchGrammar (some (numberOption "cache-secs")) before [text] = .ok after := by
    rw [readArguments, digits, added]
    rfl
  have asked : Command.numberOr after "cache-secs" 3600 = seconds := by
    change ((some text).bind number?).getD 3600 = seconds
    rw [Option.bind_some, number, Option.getD_some]
  rw [waiting, given, cachePolicy, ← asked]
  rfl

end JarGate.CommandLine
