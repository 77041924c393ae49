import JarGate.Proofs.Format.Classes
import JarGate.Proofs.Injection.Names

/-!
# The methods that a plan selects

Two rules say which methods of which classes ask the gate: one for the main class, and one for all
others. A plan for classes that were read exists as soon as there is a main class, and its targets are
just the methods that the rules select, each once, in the order of the classes and of their methods.
-/

namespace JarGate

/-! ### Lists of what a rule selects -/

/-- Whether a list holds what a rule selects at places, place by place, in an order of the places. -/
def Lists {π β : Type} (lt : π → π → Prop) (rule : π → β → Prop) (bs : List β) : Prop :=
  ∃ places, places.Pairwise lt ∧ List.Forall₂ rule places bs ∧
    ∀ place b, rule place b → place ∈ places

namespace Lists

variable {π ρ β : Type} {lt : π → π → Prop} {rule first later : π → β → Prop} {as bs : List β}

theorem nil (nothing : ∀ place b, ¬ rule place b) : Lists lt rule [] :=
  ⟨[], .nil, .nil, fun place b selected => absurd selected (nothing place b)⟩

theorem single {place : π} {b : β} (selected : rule place b)
    (only : ∀ place' b', rule place' b' → place' = place) : Lists lt rule [b] :=
  ⟨[place], List.pairwise_singleton _ _, .cons selected .nil,
    fun place' b' selected' => List.mem_singleton.mpr (only place' b' selected')⟩

theorem congr (h : Lists lt first bs) (same : ∀ place b, first place b ↔ rule place b) :
    Lists lt rule bs := by
  obtain ⟨places, ordered, each, all⟩ := h
  exact ⟨places, ordered, each.imp fun place b => (same place b).mp,
    fun place b selected => all place b ((same place b).mpr selected)⟩

/-- What is selected at some places, and then at later ones. -/
theorem append (h : Lists lt first as) (h' : Lists lt later bs)
    (before : ∀ place a place' b, first place a → later place' b → lt place place') :
    Lists lt (fun place b => first place b ∨ later place b) (as ++ bs) := by
  obtain ⟨places, ordered, each, all⟩ := h
  obtain ⟨places', ordered', each', all'⟩ := h'
  refine ⟨places ++ places', List.pairwise_append.mpr ⟨ordered, ordered', ?_⟩, ?_, ?_⟩
  · intro place here place' there
    obtain ⟨a, -, selected⟩ := exists_of_forall₂ each place here
    obtain ⟨b, -, selected'⟩ := exists_of_forall₂ each' place' there
    exact before place a place' b selected selected'
  · exact List.rel_append (each.imp fun _ _ => .inl) (each'.imp fun _ _ => .inr)
  · rintro place b (selected | selected)
    · exact List.mem_append_left _ (all place b selected)
    · exact List.mem_append_right _ (all' place b selected)

/-- What is selected at places that are part of other places. -/
theorem map {lt' : ρ → ρ → Prop} {f : π → ρ} (h : Lists lt rule bs)
    (mono : ∀ place place', lt place place' → lt' (f place) (f place')) :
    Lists lt' (fun place b => ∃ inner, place = f inner ∧ rule inner b) bs := by
  obtain ⟨places, ordered, each, all⟩ := h
  refine ⟨places.map f, List.pairwise_map.mpr (ordered.imp (mono _ _)), ?_, ?_⟩
  · exact List.forall₂_map_left_iff.mpr (each.imp fun place b selected => ⟨place, rfl, selected⟩)
  · rintro _ b ⟨inner, rfl, selected⟩
    exact List.mem_map_of_mem (all inner b selected)

/-- What is made of what is selected at each place. -/
theorem image {γ : Type} (h : Lists lt rule bs) (f : β → γ) :
    Lists lt (fun place c => ∃ b, rule place b ∧ f b = c) (bs.map f) := by
  obtain ⟨places, ordered, each, all⟩ := h
  refine ⟨places, ordered, ?_, ?_⟩
  · exact List.forall₂_map_right_iff.mpr (each.imp fun place b selected => ⟨b, selected, rfl⟩)
  · rintro place _ ⟨b, selected, -⟩
    exact all place b selected

/-- Where it can be told from what is selected at which place that was, nothing is listed twice. -/
theorem nodup (h : Lists lt rule bs) (irrefl : ∀ place, ¬ lt place place)
    (told : ∀ place place' b, rule place b → rule place' b → place = place') : bs.Nodup := by
  obtain ⟨places, ordered, each, -⟩ := h
  induction each with
  | nil => exact List.nodup_nil
  | @cons place b places bs head rest ih =>
      obtain ⟨before, ordered⟩ := List.pairwise_cons.mp ordered
      refine List.nodup_cons.mpr ⟨fun member => ?_, ih ordered⟩
      obtain ⟨place', there, selected⟩ := exists_of_forall₂ rest.flip b member
      obtain rfl := told place place' b head selected
      exact irrefl place (before place there)

end Lists

namespace Plan

/-! ### The rules -/

/-- Whether a method is written with a name and a descriptor. -/
def Spelled (c : ClassFile) (m : MethodInfo) (name descriptor : String) : Prop :=
  c.methodName m = .ok name ∧ c.methodDescriptor m = .ok descriptor

/-- The rule for the main class: its first method `onEnable()V`, if that can ask the gate. -/
inductive Enables (p : PackagedClass) : Nat → InjectionTarget → Prop
  | mk {j : Nat} {m : MethodInfo} (method : p.content.methods[j]? = some m)
    (spelled : Spelled p.content m "onEnable" "()V")
    (first : ∀ k < j, ∀ n, p.content.methods[k]? = some n → ¬ Spelled p.content n "onEnable" "()V")
    (injectable : m.Injectable) :
    Enables p j ⟨p.entry, p.name, j, "onEnable", "()V", .entryPoint⟩

/-- Why a class that is not the main class is a candidate. -/
inductive Candidate (d : PluginDescriptor) (callbackClasses : List String) (name : String) :
    TargetReason → Prop
  | declared (vouched : Vouched d callbackClasses name) :
    Candidate d callbackClasses name .declaredCallback
  | heuristic (unknown : ¬ Vouched d callbackClasses name) (named : NamesCandidate name) :
    Candidate d callbackClasses name .heuristicCallback

/-- The rule for the other classes: every callback of a candidate that can ask the gate. -/
inductive CallsBack (d : PluginDescriptor) (callbackClasses : List String) (p : PackagedClass) :
    Nat → InjectionTarget → Prop
  | mk {j : Nat} {m : MethodInfo} {name descriptor : String} {reason : TargetReason}
    (proper : p.content.isInterface = false ∧ p.content.isAnnotation = false)
    (candidate : Candidate d callbackClasses p.name reason)
    (method : p.content.methods[j]? = some m) (spelled : Spelled p.content m name descriptor)
    (callback : NamesCallback name) (injectable : m.Injectable) :
    CallsBack d callbackClasses p j ⟨p.entry, p.name, j, name, descriptor, reason⟩

/-- What the rules select in a class, which is the main class or not. -/
def Rule (d : PluginDescriptor) (callbackClasses : List String) (main : Prop) (p : PackagedClass)
    (j : Nat) (t : InjectionTarget) : Prop :=
  main ∧ Enables p j t ∨ ¬ main ∧ CallsBack d callbackClasses p j t

/-- Whether the class at a position is the main class, the first one of its name. -/
def IsMain (d : PluginDescriptor) (classes : List PackagedClass) (i : Nat) : Prop :=
  (∃ p, classes[i]? = some p ∧ p.name = d.mainInternal) ∧
    ∀ k < i, ∀ p, classes[k]? = some p → p.name ≠ d.mainInternal

/-- What the rules select: the method at a position of the class at a position, as a target. -/
def Selects (d : PluginDescriptor) (classes : List PackagedClass) (callbackClasses : List String)
    (place : Nat × Nat) (t : InjectionTarget) : Prop :=
  ∃ p, classes[place.1]? = some p ∧
    Rule d callbackClasses (IsMain d classes place.1) p place.2 t

/-! ### Classes that were read -/

/-- Whether the name and the descriptor of each method can be looked up. -/
def Readable (c : ClassFile) : Prop :=
  ∀ m ∈ c.methods, ∃ name descriptor, Spelled c m name descriptor

theorem readable_of_decode {data : Bytes} {c : ClassFile} (read : ClassFile.decode data = .ok c) :
    Readable c := by
  have sound := ClassFile.wellFormed_of_decode read
  intro m member
  obtain ⟨name, named⟩ := (sound.methods m member).name
  obtain ⟨descriptor, -, typed, -⟩ := (sound.methods m member).descriptor
  exact ⟨name, descriptor, named, typed⟩

/-! ### The main class -/

/-- The first element of a list that passes a test. -/
theorem findIdx?_eq_some_iff_first {α : Type} {as : List α} {test : α → Bool} {i : Nat} :
    as.findIdx? test = some i ↔ (∃ a, as[i]? = some a ∧ test a) ∧
      ∀ k < i, ∀ a, as[k]? = some a → ¬ test a := by
  rw [List.findIdx?_eq_some_iff_getElem]
  constructor
  · rintro ⟨bound, passes, first⟩
    refine ⟨⟨as[i], List.getElem?_eq_getElem bound, passes⟩, fun k before a there => ?_⟩
    obtain ⟨inside, rfl⟩ := List.getElem?_eq_some_iff.mp there
    exact first k before
  · rintro ⟨⟨a, here, passes⟩, first⟩
    obtain ⟨bound, rfl⟩ := List.getElem?_eq_some_iff.mp here
    exact ⟨bound, passes, fun k before => first k before _ (List.getElem?_eq_getElem _)⟩

theorem isMain_iff {d : PluginDescriptor} {classes : List PackagedClass} {i : Nat} :
    classes.findIdx? (·.name == d.mainInternal) = some i ↔ IsMain d classes i := by
  rw [findIdx?_eq_some_iff_first, IsMain]
  simp only [beq_iff_eq, ne_eq]

theorem isText_iff {found : Except ClassError String} {wanted : String} :
    ClassFile.isText found wanted ↔ found = .ok wanted := by
  cases found with
  | ok text => simp [ClassFile.isText]
  | error e => simp [ClassFile.isText]

section

variable {d : PluginDescriptor} {callbackClasses : List String} {p : PackagedClass} {c : ClassFile}
variable {j : Nat} {m : MethodInfo} {name descriptor : String}

theorem isSpelled_iff : (ClassFile.isText (c.methodName m) name &&
    ClassFile.isText (c.methodDescriptor m) descriptor) ↔ Spelled c m name descriptor := by
  rw [Bool.and_eq_true, isText_iff, isText_iff, Spelled]

theorem methodTarget_eq (reason : TargetReason) (method : p.content.methods[j]? = some m)
    (spelled : Spelled p.content m name descriptor) :
    methodTarget p reason j = .ok [⟨p.entry, p.name, j, name, descriptor, reason⟩] := by
  rw [methodTarget, method]
  dsimp only
  rw [spelled.1, spelled.2]
  rfl

/-- The target in the main class is what the rule for it selects. -/
theorem entryTargets_lists (p : PackagedClass) :
    ∃ found, entryTargets p = .ok found ∧ Lists (· < ·) (Enables p) found := by
  rw [entryTargets]
  cases position : p.content.findMethod? enableMethod enableDescriptor with
  | none =>
      refine ⟨[], rfl, .nil ?_⟩
      rintro j _ ⟨method, spelled, -, -⟩
      have absent := List.findIdx?_eq_none_iff.mp position _ (List.mem_of_getElem? method)
      exact Bool.eq_false_iff.mp absent (isSpelled_iff.mpr spelled)
  | some j =>
      obtain ⟨⟨m, method, test⟩, earlier⟩ := findIdx?_eq_some_iff_first.mp position
      have spelled : Spelled p.content m "onEnable" "()V" := isSpelled_iff.mp test
      have first : ∀ k < j, ∀ n, p.content.methods[k]? = some n →
          ¬ Spelled p.content n "onEnable" "()V" := by
        intro k before n there spelled'
        exact earlier k before n there (isSpelled_iff.mpr spelled')
      have only : ∀ k t, Enables p k t → k = j := by
        rintro k _ ⟨method', spelled', first', -⟩
        rcases lt_trichotomy k j with before | same | behind
        · exact absurd spelled' (first k before _ method')
        · exact same
        · exact absurd spelled (first' j behind m method)
      dsimp only
      rw [method, Option.any_some]
      by_cases able : isInjectable m
      · rw [if_pos able, methodTarget_eq .entryPoint method spelled]
        exact ⟨_, rfl, .single (.mk method spelled first (isInjectable_iff.mp able)) only⟩
      · rw [if_neg able]
        refine ⟨[], rfl, .nil fun k t enables => ?_⟩
        obtain rfl := only k t enables
        obtain ⟨method', -, -, injectable⟩ := enables
        obtain rfl := Option.some.inj (method.symm.trans method')
        exact able (isInjectable_iff.mpr injectable)

/-! ### Other classes -/

/-- Whether a method is a callback that can ask the gate. -/
def IsCallback (c : ClassFile) (m : MethodInfo) : Prop :=
  m.Injectable ∧ ∃ name, c.methodName m = .ok name ∧ NamesCallback name

theorem callbacksFrom_cons (index : Nat) (ms : List MethodInfo) :
    callbacksFrom c index (m :: ms) =
      (if isInjectable m then (c.methodName m).map isCallbackName else .ok false) >>= fun found =>
        callbacksFrom c (index + 1) ms >>= fun rest => .ok (if found then index :: rest else rest) := by
  rw [callbacksFrom]
  split <;> rfl

theorem isCallback_iff (named : c.methodName m = .ok name) :
    IsCallback c m ↔ isInjectable m ∧ isCallbackName name := by
  rw [IsCallback, isInjectable_iff, isCallbackName_iff, named]
  constructor
  · rintro ⟨injectable, _, ⟨⟩, callback⟩
    exact ⟨injectable, callback⟩
  · rintro ⟨injectable, callback⟩
    exact ⟨injectable, name, rfl, callback⟩

theorem callbacksFrom_eq [DecidablePred (IsCallback c)] {ms : List MethodInfo}
    (readable : ∀ m ∈ ms, ∃ name descriptor, Spelled c m name descriptor) (index : Nat) :
    callbacksFrom c index ms =
      .ok (((ms.zipIdx index).filter fun place => IsCallback c place.1).map (·.2)) := by
  induction ms generalizing index with
  | nil => rfl
  | cons m ms ih =>
      obtain ⟨⟨name, descriptor, named, -⟩, readable⟩ := List.forall_mem_cons.mp readable
      have means := isCallback_iff named
      rw [callbacksFrom_cons, ih readable, List.zipIdx_cons, List.filter_cons, named]
      by_cases able : isInjectable m
      · rw [if_pos able]
        by_cases callback : isCallbackName name
        · rw [if_pos (decide_eq_true (means.mpr ⟨able, callback⟩))]
          change Except.ok (if isCallbackName name then _ else _) = _
          rw [if_pos callback]
          rfl
        · rw [if_neg (by simpa using fun is => callback (means.mp is).2)]
          change Except.ok (if isCallbackName name then _ else _) = _
          rw [if_neg callback]
      · rw [if_neg able, if_neg (by simpa using fun is => able (means.mp is).1)]
        rfl

/-- The callbacks of a class, in the order of its methods. -/
theorem callbacks_eq (readable : Readable c) :
    ∃ js, callbacks c = .ok js ∧ js.Pairwise (· < ·) ∧
      ∀ j, j ∈ js ↔ ∃ m, c.methods[j]? = some m ∧ IsCallback c m := by
  classical
  refine ⟨_, callbacksFrom_eq readable 0, ?_, fun j => ?_⟩
  · have positions : (c.methods.zipIdx.map (·.2)).Pairwise (· < ·) := by
      rw [List.zipIdx_map_snd]
      exact List.pairwise_lt_range' 1
    exact positions.sublist (List.filter_sublist.map _)
  · simp only [List.mem_map, List.mem_filter, List.mem_zipIdx_iff_getElem?, decide_eq_true_eq]
    constructor
    · rintro ⟨⟨m, _⟩, ⟨there, callback⟩, rfl⟩
      exact ⟨m, there, callback⟩
    · rintro ⟨m, there, callback⟩
      exact ⟨⟨m, j⟩, ⟨there, callback⟩, rfl⟩

theorem candidate_iff {reason : TargetReason} : Candidate d callbackClasses name reason ↔
    reason = .declaredCallback ∧ Vouched d callbackClasses name ∨
      reason = .heuristicCallback ∧ ¬ Vouched d callbackClasses name ∧ NamesCandidate name := by
  constructor
  · rintro (vouched | ⟨unknown, named⟩)
    · exact .inl ⟨rfl, vouched⟩
    · exact .inr ⟨rfl, unknown, named⟩
  · rintro (⟨rfl, vouched⟩ | ⟨rfl, unknown, named⟩)
    · exact .declared vouched
    · exact .heuristic unknown named

/-- What a class is decides whether its callbacks ask the gate, and why. -/
theorem classify_eq (d : PluginDescriptor) (callbackClasses : List String) (name : String)
    {js : List Nat} (found : callbacks c = .ok js) :
    ∃ verdict, classify c name (AllowList.new d callbackClasses) = .ok verdict ∧
      ∀ reason, verdict.reason? = some reason ↔ (c.isInterface = false ∧ c.isAnnotation = false) ∧
        Candidate d callbackClasses name reason ∧ js ≠ [] := by
  rw [classify, ← Bool.or_eq_false_iff, found]
  by_cases proper : (c.isInterface || c.isAnnotation) = true
  · refine ⟨.rejected .isInterface, if_pos proper, fun reason => ⟨nofun, fun h => ?_⟩⟩
    rw [proper] at h
    cases h.1
  · refine ⟨_, if_neg proper, fun reason => ?_⟩
    rw [candidate_iff, ← AllowList.contains_iff, ← hasCandidateName_iff, Bool.eq_false_iff.mpr proper]
    by_cases vouched : (AllowList.new d callbackClasses).contains name
    · cases js <;> cases reason <;> simp [vouched, Classification.reason?]
    · by_cases named : hasCandidateName name
      · cases js <;> cases reason <;> simp [vouched, named, Classification.reason?]
      · simp [vouched, named, Classification.reason?]

/-- Targets for the methods at positions, one for each. -/
theorem exists_targets {rule : Nat → InjectionTarget → Prop} {reason : TargetReason} {js : List Nat}
    (each : ∀ j ∈ js, ∃ t, methodTarget p reason j = .ok [t] ∧ rule j t) :
    ∃ ts, js.mapM (methodTarget p reason) = .ok (ts.map ([·])) ∧ List.Forall₂ rule js ts := by
  induction js with
  | nil => exact ⟨[], rfl, .nil⟩
  | cons j js ih =>
      obtain ⟨⟨t, made, selected⟩, each⟩ := List.forall_mem_cons.mp each
      obtain ⟨ts, rest, all⟩ := ih each
      refine ⟨t :: ts, ?_, .cons selected all⟩
      rw [List.mapM_cons, made, rest]
      rfl

theorem callbackTargets_of_rejected {allow : AllowList} {verdict : Classification}
    (classified : classify p.content p.name allow = .ok verdict) (rejected : verdict.reason? = none) :
    callbackTargets p allow = .ok (verdict, []) := by
  rw [callbackTargets, bind_eq_ok_iff]
  refine ⟨verdict, classified, ?_⟩
  rw [rejected]
  rfl

theorem callbackTargets_of_reason {allow : AllowList} {verdict : Classification}
    {reason : TargetReason} {js : List Nat} {ts : List InjectionTarget}
    (classified : classify p.content p.name allow = .ok verdict)
    (accepted : verdict.reason? = some reason) (called : callbacks p.content = .ok js)
    (made : js.mapM (methodTarget p reason) = .ok (ts.map ([·]))) :
    callbackTargets p allow = .ok (verdict, ts) := by
  rw [callbackTargets, bind_eq_ok_iff]
  refine ⟨verdict, classified, ?_⟩
  rw [accepted]
  refine bind_eq_ok_iff.mpr ⟨js, called, bind_eq_ok_iff.mpr ⟨_, made, ?_⟩⟩
  exact congrArg (fun found => Except.ok (verdict, found)) (List.flatMap_singleton' ts)

/-- The targets in a class that is not the main class are what the rule for it selects. -/
theorem callbackTargets_lists (d : PluginDescriptor) (callbackClasses : List String)
    (readable : Readable p.content) :
    ∃ verdict found, callbackTargets p (AllowList.new d callbackClasses) = .ok (verdict, found) ∧
      Lists (· < ·) (CallsBack d callbackClasses p) found := by
  obtain ⟨js, called, ordered, members⟩ := callbacks_eq readable
  obtain ⟨verdict, classified, why⟩ := classify_eq d callbackClasses p.name called
  have listed : ∀ j t, CallsBack d callbackClasses p j t → j ∈ js := by
    rintro j _ ⟨-, -, method, spelled, callback, injectable⟩
    exact (members j).mpr ⟨_, method, injectable, _, spelled.1, callback⟩
  cases decided : verdict.reason? with
  | none =>
      refine ⟨verdict, [], callbackTargets_of_rejected classified decided, .nil fun j t calls => ?_⟩
      have member := listed j t calls
      obtain ⟨proper, candidate, -⟩ := calls
      have reason := (why _).mpr ⟨proper, candidate, List.ne_nil_of_mem member⟩
      rw [decided] at reason
      cases reason
  | some reason =>
      obtain ⟨proper, candidate, -⟩ := (why reason).mp decided
      have each : ∀ j ∈ js, ∃ t, methodTarget p reason j = .ok [t] ∧
          CallsBack d callbackClasses p j t := by
        intro j member
        obtain ⟨m, method, injectable, name, named, callback⟩ := (members j).mp member
        obtain ⟨name', descriptor, spelled⟩ := readable m (List.mem_of_getElem? method)
        obtain rfl : name = name' := Except.ok.inj (named.symm.trans spelled.1)
        exact ⟨_, methodTarget_eq reason method spelled,
          .mk proper candidate method spelled callback injectable⟩
      obtain ⟨ts, made, all⟩ := exists_targets each
      exact ⟨verdict, ts, callbackTargets_of_reason classified decided called made, js, ordered, all,
        listed⟩

end

/-! ### All classes -/

section

variable {d : PluginDescriptor} {callbackClasses : List String}

/-- A class adds what the rules select in it to a plan. -/
theorem add_lists (d : PluginDescriptor) (callbackClasses : List String) {p : PackagedClass}
    (readable : Readable p.content) (plan : Plan) (isMain : Bool) :
    ∃ plan' found, add (AllowList.new d callbackClasses) plan p isMain = .ok plan' ∧
      plan'.targets = plan.targets ++ found ∧
      Lists (· < ·) (Rule d callbackClasses isMain p) found := by
  cases isMain with
  | true =>
      obtain ⟨found, made, lists⟩ := entryTargets_lists p
      refine ⟨{ plan with targets := plan.targets ++ found }, found, ?_, rfl, lists.congr ?_⟩
      · rw [add, if_pos rfl, made]
        rfl
      · intro j t
        simp [Rule]
  | false =>
      obtain ⟨verdict, found, made, lists⟩ := callbackTargets_lists d callbackClasses readable
      let plan' : Plan := { plan with
        classified :=
          if verdict = .rejected .notCandidate then plan.classified
          else plan.classified ++ [(p.name, verdict)]
        targets := plan.targets ++ found }
      refine ⟨plan', found, ?_, rfl, lists.congr ?_⟩
      · rw [add, if_neg Bool.false_ne_true, made]
        rfl
      · intro j t
        simp [Rule]

/-- Classes at increasing positions add what the rules select in them to a plan, in this order. -/
theorem addAll_lists (d : PluginDescriptor) (callbackClasses : List String) (main : Nat)
    {rest : List (PackagedClass × Nat)}
    (readable : ∀ q ∈ rest, Readable q.1.content)
    (ordered : rest.Pairwise fun q q' => q.2 < q'.2) (plan : Plan) :
    ∃ plan' found, addAll (AllowList.new d callbackClasses) main plan rest = .ok plan' ∧
      plan'.targets = plan.targets ++ found ∧
      Lists (Prod.Lex (· < ·) (· < ·)) (fun place t => ∃ p, (p, place.1) ∈ rest ∧
        Rule d callbackClasses (place.1 = main) p place.2 t) found := by
  induction rest generalizing plan with
  | nil =>
      refine ⟨plan, [], rfl, (List.append_nil _).symm, .nil ?_⟩
      rintro place t ⟨p, member, -⟩
      cases member
  | cons q rest ih =>
      obtain ⟨p, i⟩ := q
      obtain ⟨first, readable⟩ := List.forall_mem_cons.mp readable
      obtain ⟨before, ordered⟩ := List.pairwise_cons.mp ordered
      obtain ⟨plan₁, here, added, targets, lists⟩ := add_lists d callbackClasses first plan
        (i == main)
      obtain ⟨plan₂, later, finished, targets', lists'⟩ := ih readable ordered plan₁
      have inClass : Lists (Prod.Lex (· < ·) (· < ·)) (fun place t =>
          ∃ j, place = (i, j) ∧ Rule d callbackClasses (i == main) p j t) here :=
        lists.map fun j k less => Prod.lex_def.mpr (.inr ⟨rfl, less⟩)
      refine ⟨plan₂, here ++ later, ?_, ?_, (inClass.append lists' ?_).congr ?_⟩
      · rw [addAll, added]
        exact finished
      · rw [targets', targets, List.append_assoc]
      · rintro _ t place t' ⟨j, rfl, -⟩ ⟨p', member, -⟩
        exact Prod.lex_def.mpr (.inl (before _ member))
      · rintro ⟨k, j⟩ t
        have test : (i == main) = true ↔ i = main := beq_iff_eq
        constructor
        · rintro (⟨_, ⟨⟩, selected⟩ | ⟨p', member, selected⟩)
          · rw [test] at selected
            exact ⟨p, List.mem_cons_self .., selected⟩
          · exact ⟨p', List.mem_cons_of_mem _ member, selected⟩
        · rintro ⟨p', member, selected⟩
          obtain same | member := List.mem_cons.mp member
          · cases same
            rw [← test] at selected
            exact .inl ⟨j, rfl, selected⟩
          · exact .inr ⟨p', member, selected⟩

/-- A target tells the entry of its class and the position of its method. -/
theorem told_of_selects {classes : List PackagedClass} {place : Nat × Nat} {t : InjectionTarget}
    (selects : Selects d classes callbackClasses place t) :
    (classes.map (·.entry))[place.1]? = some t.entry ∧ place.2 = t.index := by
  obtain ⟨i, j⟩ := place
  obtain ⟨p, there, rule⟩ := selects
  have entry : (classes.map (·.entry))[i]? = some p.entry := by
    rw [List.getElem?_map, there, Option.map_some]
  rcases rule with ⟨-, ⟨⟩⟩ | ⟨-, ⟨⟩⟩
  · exact ⟨entry, rfl⟩
  · exact ⟨entry, rfl⟩

/-- Targets at different places differ in the entry or in the position, where no two classes lie in one
entry. -/
theorem place_of_key {classes : List PackagedClass} (distinct : (classes.map (·.entry)).Nodup)
    {place place' : Nat × Nat} {t t' : InjectionTarget}
    (selects : Selects d classes callbackClasses place t)
    (selects' : Selects d classes callbackClasses place' t')
    (same : (t.entry, t.index) = (t'.entry, t'.index)) : place = place' := by
  obtain ⟨entry, index⟩ := told_of_selects selects
  obtain ⟨entry', index'⟩ := told_of_selects selects'
  obtain ⟨sameEntry, sameIndex⟩ := Prod.mk.inj same
  rw [← sameEntry] at entry'
  have inside := (List.getElem?_eq_some_iff.mp entry).1
  have first : place.1 = place'.1 := (List.getElem?_inj inside distinct).mp (entry.trans entry'.symm)
  exact Prod.ext first (index.trans (sameIndex.trans index'.symm))

/-- A selected method is told by its target, where no two classes lie in one entry. -/
theorem place_of_selects {classes : List PackagedClass} (distinct : (classes.map (·.entry)).Nodup)
    {place place' : Nat × Nat} {t : InjectionTarget} (selects : Selects d classes callbackClasses place t)
    (selects' : Selects d classes callbackClasses place' t) : place = place' :=
  place_of_key distinct selects selects' rfl

/-- Where a class has the name of the main class, there is a plan, and its targets are what the rules
select. -/
theorem exists_make_lists {classes : List PackagedClass} {main : Nat}
    (readable : ∀ p ∈ classes, Readable p.content)
    (position : classes.findIdx? (·.name == d.mainInternal) = some main) :
    ∃ plan, make d classes callbackClasses = .ok plan ∧
      Lists (Prod.Lex (· < ·) (· < ·)) (Selects d classes callbackClasses) plan.targets := by
  have ordered : classes.zipIdx.Pairwise fun q q' => q.2 < q'.2 := by
    rw [← List.pairwise_map, List.zipIdx_map_snd]
    exact List.pairwise_lt_range' 1
  have each : ∀ q ∈ classes.zipIdx, Readable q.1.content := fun q member =>
    readable q.1 (List.mem_of_getElem? (List.mem_zipIdx_iff_getElem?.mp member))
  obtain ⟨plan, found, made, targets, lists⟩ := addAll_lists d callbackClasses main each ordered
    ⟨d.mainInternal, [], []⟩
  refine ⟨plan, ?_, ?_⟩
  · rw [make, position]
    exact made
  · rw [targets, List.nil_append]
    refine lists.congr fun place t => ?_
    have same : place.1 = main ↔ IsMain d classes place.1 := by
      rw [← isMain_iff, position, Option.some_inj, eq_comm]
    simp only [Selects, same, List.mem_zipIdx_iff_getElem?]

/-- The targets of a plan are what the rules select. -/
theorem lists_of_make {classes : List PackagedClass} {plan : Plan}
    (readable : ∀ p ∈ classes, Readable p.content) (made : make d classes callbackClasses = .ok plan) :
    Lists (Prod.Lex (· < ·) (· < ·)) (Selects d classes callbackClasses) plan.targets := by
  cases position : classes.findIdx? (·.name == d.mainInternal) with
  | none =>
      rw [make, position] at made
      cases made
  | some main =>
      obtain ⟨plan', made', lists⟩ := exists_make_lists readable position
      obtain rfl := Except.ok.inj (made.symm.trans made')
      exact lists

/-- A plan has just the targets that the rules select. For classes that were read, planning fails just
where no class has the name of the main class, and says so. Otherwise there is a plan, and its targets
are what the rules select, each once, in the order of the classes and then of their methods; no target
is listed twice where each class lies in an entry of its own. -/
theorem make_lists (d : PluginDescriptor) (classes : List PackagedClass)
    (callbackClasses : List String)
    (read : ∀ p ∈ classes, ∃ data, ClassFile.decode data = .ok p.content) :
    (make d classes callbackClasses = .error (.noEntryPoint d.main) ↔
      ∀ p ∈ classes, p.name ≠ d.mainInternal) ∧
    ((∃ p ∈ classes, p.name = d.mainInternal) →
      ∃ plan, make d classes callbackClasses = .ok plan ∧
        Lists (Prod.Lex (· < ·) (· < ·)) (Selects d classes callbackClasses) plan.targets ∧
        ((classes.map (·.entry)).Nodup → plan.targets.Nodup)) := by
  cases position : classes.findIdx? (·.name == d.mainInternal) with
  | none =>
      have absent : ∀ p ∈ classes, p.name ≠ d.mainInternal := by
        intro p member
        exact beq_eq_false_iff_ne.mp (List.findIdx?_eq_none_iff.mp position p member)
      refine ⟨⟨fun _ => absent, fun _ => ?_⟩, ?_⟩
      · rw [make, position]
      · rintro ⟨p, member, named⟩
        exact absurd named (absent p member)
  | some main =>
      have isMain := isMain_iff.mp position
      have readable : ∀ p ∈ classes, Readable p.content := by
        intro p member
        obtain ⟨data, decoded⟩ := read p member
        exact readable_of_decode decoded
      obtain ⟨plan, run, selects⟩ := exists_make_lists readable position
      refine ⟨⟨fun failed => ?_, fun absent => ?_⟩, fun _ => ⟨plan, run, selects, fun distinct => ?_⟩⟩
      · rw [run] at failed
        cases failed
      · obtain ⟨p, there, named⟩ := isMain.1
        exact absurd named (absent p (List.mem_of_getElem? there))
      · refine selects.nodup (fun place less => ?_) fun place place' t => place_of_selects distinct
        rcases Prod.lex_def.mp less with less | ⟨-, less⟩
        · exact lt_irrefl _ less
        · exact lt_irrefl _ less

/-- The file of a class with one method, which only returns. -/
def soleMethodFile (name method : String) : Bytes :=
  let text (s : String) : Bytes := [1, 0, UInt8.ofNat s.length] ++ Text.Utf8.encode s
  [0xCA, 0xFE, 0xBA, 0xBE, 0, 0, 0, 52, 0, 6] ++ text name ++ [7, 0, 1] ++ text method ++
    text "()V" ++ text "Code" ++ [0, 0, 0, 2, 0, 0, 0, 0, 0, 0, 0, 1] ++
    [0, 0, 0, 3, 0, 4, 0, 1, 0, 5, 0, 0, 0, 13, 0, 0, 0, 1, 0, 0, 0, 1, 0xB1, 0, 0, 0, 0, 0, 0]

/-- The classes of a plugin: a listener, a class that is left alone, and the main class. -/
def chatClasses : Except ClassError (List PackagedClass) :=
  [("ChatListener", "onChat"), ("Storage", "onSave"), ("A", "onEnable")].mapM fun (name, method) => do
    return ⟨name ++ ".class", name, ← ClassFile.decode (soleMethodFile name method)⟩

/-- The descriptor of that plugin. -/
def chatDescriptor : PluginDescriptor := ⟨"plugin.yml", "Chat", none, "A", none, ["shop"]⟩

theorem make_lists_chatClasses : ∃ classes plan, chatClasses = .ok classes ∧
    make chatDescriptor classes [] = .ok plan ∧ plan.targets.map (·.display) =
      ["ChatListener.onChat()V", "A.onEnable()V"] ∧
    Lists (Prod.Lex (· < ·) (· < ·)) (Selects chatDescriptor classes []) plan.targets := by
  have run : ∃ classes ∈ chatClasses.toOption, ∃ plan ∈ (make chatDescriptor classes []).toOption,
      plan.targets.map (·.display) = ["ChatListener.onChat()V", "A.onEnable()V"] ∧
        ∃ p ∈ classes, p.name = chatDescriptor.mainInternal := by
    decide +kernel
  obtain ⟨classes, found, plan, planned, targets, main⟩ := run
  have loaded := toOption_eq_some_iff.mp found
  have made := toOption_eq_some_iff.mp planned
  have read : ∀ p ∈ classes, ∃ data, ClassFile.decode data = .ok p.content := by
    intro p member
    obtain ⟨source, -, built⟩ := exists_of_forall₂ (mapM_eq_ok_iff.mp loaded).flip p member
    obtain ⟨c, decoded, same⟩ := bind_eq_ok_iff.mp built
    cases same
    exact ⟨_, decoded⟩
  obtain ⟨plan', made', lists, -⟩ := (make_lists chatDescriptor classes [] read).2 main
  obtain rfl := Except.ok.inj (made.symm.trans made')
  exact ⟨classes, plan, loaded, made, targets, lists⟩

end

end Plan

end JarGate
