import Mathlib
import JarGate.Injection.Plan

/-!
# Names that make classes and methods candidates

What the tests on names ask for, said without the way in which they look at a name. The simple name of a
class is what follows the last slash or dollar sign. A class is vouched for by its full name or, where
its simple name is made from that of a command, by any spelling of that in small and capital letters.
-/

namespace JarGate

/-! ### Simple names -/

section

variable {mark : Char} {outer cs : List Char}

/-- A text without the character, put behind another one, stays behind the last occurrence in that. -/
theorem afterLast_append (absent : mark ∉ cs) :
    afterLast mark (outer ++ cs) = afterLast mark outer ++ cs := by
  have all : ∀ c ∈ cs.reverse, (c != mark) = true := by
    intro c member
    rw [bne_iff_ne]
    rintro rfl
    exact absent (List.mem_reverse.mp member)
  rw [afterLast, List.reverse_append, List.takeWhile_append_of_pos all, List.reverse_append,
    List.reverse_reverse, ← afterLast]

theorem afterLast_of_not_mem (absent : mark ∉ cs) : afterLast mark cs = cs := by
  have behind : afterLast mark ([] ++ cs) = afterLast mark [] ++ cs := afterLast_append absent
  exact behind

theorem afterLast_append_cons (absent : mark ∉ cs) :
    afterLast mark (outer ++ mark :: cs) = cs := by
  have ends : afterLast mark (outer ++ [mark]) = [] := by
    rw [afterLast, List.reverse_append, List.reverse_singleton, List.singleton_append,
      List.takeWhile_cons_of_neg (by simp), List.reverse_nil]
  rw [List.append_cons, afterLast_append absent, ends, List.nil_append]

theorem mark_not_mem_afterLast : mark ∉ afterLast mark cs := by
  intro member
  have kept := List.mem_takeWhile_imp (List.mem_reverse.mp member)
  exact bne_iff_ne.mp kept rfl

/-- What follows the last occurrence does follow one, unless there is none. -/
theorem eq_afterLast_or (mark : Char) (cs : List Char) :
    cs = afterLast mark cs ∨ ∃ outer, cs = outer ++ mark :: afterLast mark cs := by
  by_cases member : mark ∈ cs
  · obtain ⟨behind, before, split, absent⟩ := List.eq_append_cons_of_mem (List.mem_reverse.mpr member)
    have whole : cs = before.reverse ++ mark :: behind.reverse := by
      rw [← List.reverse_reverse cs, split]
      simp
    have last : afterLast mark cs = behind.reverse := by
      rw [whole]
      exact afterLast_append_cons (by simpa using absent)
    exact .inr ⟨before.reverse, by rw [last]; exact whole⟩
  · exact .inl (afterLast_of_not_mem member).symm

end

/-- Whether a text is what follows the last slash or dollar sign of a name. -/
def IsSimpleName (name simple : List Char) : Prop :=
  ('/' ∉ simple ∧ '$' ∉ simple) ∧
    (name = simple ∨ ∃ outer, name = outer ++ '/' :: simple ∨ name = outer ++ '$' :: simple)

theorem isSimpleName_iff {name : String} {simple : List Char} :
    IsSimpleName name.toList simple ↔ simple = (simpleName name).toList := by
  rw [simpleName, String.toList_ofList]
  constructor
  · rintro ⟨⟨noSlash, noDollar⟩, whole | ⟨outer, slash | dollar⟩⟩
    · rw [whole, afterLast_of_not_mem noSlash, afterLast_of_not_mem noDollar]
    · rw [slash, afterLast_append_cons noSlash, afterLast_of_not_mem noDollar]
    · have behind : '/' ∉ '$' :: simple := by simpa using noSlash
      rw [dollar, afterLast_append behind, afterLast_append_cons noDollar]
  · rintro rfl
    have path := eq_afterLast_or '/' name.toList
    have noSlash : '/' ∉ afterLast '/' name.toList := mark_not_mem_afterLast
    generalize afterLast '/' name.toList = base at path noSlash
    have nest := eq_afterLast_or '$' base
    have noDollar : '$' ∉ afterLast '$' base := mark_not_mem_afterLast
    generalize afterLast '$' base = simple at nest noDollar
    obtain rfl | ⟨inner, rfl⟩ := nest
    · exact ⟨⟨noSlash, noDollar⟩, path.imp_right fun ⟨outer, split⟩ => ⟨outer, .inl split⟩⟩
    · have without : '/' ∉ simple := fun member =>
        noSlash (List.mem_append_right _ (List.mem_cons_of_mem _ member))
      refine ⟨⟨without, noDollar⟩, .inr ?_⟩
      obtain whole | ⟨outer, split⟩ := path
      · exact ⟨inner, .inr whole⟩
      · exact ⟨outer ++ '/' :: inner, .inr (by rw [split, List.append_assoc, List.cons_append])⟩

/-! ### Words in simple names -/

theorem occursIn_iff {part cs : List Char} : occursIn part cs ↔ part <:+: cs := by
  induction cs with
  | nil => rw [occursIn, List.isEmpty_iff, List.infix_nil]
  | cons c cs ih => rw [occursIn, Bool.or_eq_true, ih, List.isPrefixOf_iff_prefix, List.infix_cons_iff]

/-- Whether the simple name of a class contains a word that makes it a candidate. -/
def NamesCandidate (name : String) : Prop :=
  ∃ simple, IsSimpleName name.toList simple ∧
    ∃ word ∈ ["Listener", "Command", "Executor"], word.toList <:+: simple

theorem hasCandidateName_iff {name : String} : hasCandidateName name ↔ NamesCandidate name := by
  simp only [hasCandidateName, candidateWords, List.any_eq_true, occursIn_iff, NamesCandidate,
    isSimpleName_iff, exists_eq_left]

/-! ### Classes that are vouched for -/

theorem lowerCase_append (s t : String) : lowerCase (s ++ t) = lowerCase s ++ lowerCase t := by
  simp only [lowerCase, String.toList_append, List.map_append, String.ofList_append]

/-- Whether the caller or a descriptor vouches for a class. -/
inductive Vouched (d : PluginDescriptor) (callbackClasses : List String) (name : String) : Prop
  | named {given : String} (member : given ∈ callbackClasses)
    (same : PluginDescriptor.internalName (Text.trim given) = name)
  | command {command ending simple : String} (member : command ∈ d.commands)
    (ends : ending ∈ ["Command", "Executor", "CommandExecutor"])
    (named : IsSimpleName name.toList simple.toList)
    (same : lowerCase simple = lowerCase (command ++ ending))

theorem AllowList.contains_iff {d : PluginDescriptor} {callbackClasses : List String}
    {name : String} : (AllowList.new d callbackClasses).contains name ↔
      Vouched d callbackClasses name := by
  have endings : commandEndings = ["Command", "Executor", "CommandExecutor"].map lowerCase := by
    decide +kernel
  simp only [AllowList.contains, AllowList.new, Bool.or_eq_true, List.contains_iff_mem, List.mem_map,
    List.mem_flatMap]
  constructor
  · rintro (⟨given, member, same⟩ | ⟨command, member, ending, ends, same⟩)
    · exact .named member same
    · rw [endings] at ends
      obtain ⟨word, listed, rfl⟩ := List.mem_map.mp ends
      refine .command member listed (isSimpleName_iff.mpr rfl) ?_
      rw [lowerCase_append, same]
  · intro vouched
    cases vouched with
    | @named given member same => exact .inl ⟨given, member, same⟩
    | @command command ending simple member ends named same =>
        refine .inr ⟨command, member, lowerCase ending, ?_, ?_⟩
        · rw [endings]
          exact List.mem_map_of_mem ends
        · rw [← lowerCase_append, ← same, String.toList_inj.mp (isSimpleName_iff.mp named)]

/-! ### Methods -/

/-- Whether a method name is that of a callback. -/
def NamesCallback (name : String) : Prop :=
  name = "onCommand" ∨ ∃ c rest, name.toList = 'o' :: 'n' :: c :: rest ∧ 'A' ≤ c ∧ c ≤ 'Z'

theorem isUpper_iff {c : Char} : c.isUpper ↔ 'A' ≤ c ∧ c ≤ 'Z' := by
  rw [Char.isUpper, decide_eq_true_eq]
  exact Iff.rfl

theorem isCallbackName_iff {name : String} : isCallbackName name ↔ NamesCallback name := by
  rw [isCallbackName]
  constructor
  · intro test
    split at test
    next c rest spelled => exact .inr ⟨c, rest, spelled, isUpper_iff.mp test⟩
    next => cases test
  · rintro (rfl | ⟨c, rest, spelled, upper⟩)
    · decide
    · rw [spelled]
      exact isUpper_iff.mpr upper

/-- Whether a method has code and was not made up by a compiler. -/
structure MethodInfo.Injectable (m : MethodInfo) : Prop where
  hasCode : ∃ name code, .code name code ∈ m.attributes
  notBridge : m.access &&& Access.isBridge = 0
  notSynthetic : m.access &&& Access.isSynthetic = 0

theorem isSome_code?_iff {m : MethodInfo} :
    m.code?.isSome ↔ ∃ name code, .code name code ∈ m.attributes := by
  rw [MethodInfo.code?, List.isSome_findSome?, List.any_eq_true]
  constructor
  · rintro ⟨_ | _, member, body⟩
    · exact ⟨_, _, member⟩
    · cases body
  · rintro ⟨name, code, member⟩
    exact ⟨_, member, rfl⟩

theorem and_or_eq_zero_iff {flags a b : UInt16} :
    flags &&& (a ||| b) = 0 ↔ flags &&& a = 0 ∧ flags &&& b = 0 := by
  have apart : flags &&& (a ||| b) = flags &&& a ||| flags &&& b :=
    UInt16.eq_of_toBitVec_eq BitVec.and_or_distrib_left
  rw [apart, UInt16.or_eq_zero_iff]

theorem isInjectable_iff {m : MethodInfo} : isInjectable m ↔ m.Injectable := by
  rw [isInjectable, Bool.and_eq_true, isSome_code?_iff, Access.hasAny, Bool.not_eq_true',
    bne_eq_false_iff_eq, and_or_eq_zero_iff]
  exact ⟨fun ⟨body, bridge, synthetic⟩ => ⟨body, bridge, synthetic⟩,
    fun ⟨body, bridge, synthetic⟩ => ⟨body, bridge, synthetic⟩⟩

end JarGate
