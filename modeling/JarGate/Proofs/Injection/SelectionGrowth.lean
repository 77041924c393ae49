import JarGate.Proofs.Injection.Selection

/-!
# Vouching for more classes

A class that is vouched for is no longer judged by its simple name. Two plans for the same classes are
compared here, one of which vouches for all that the other one vouches for. Class by class a verdict can
only be raised, and with it the reason of a target; no class loses its targets, and none is moved.
-/

namespace JarGate

open PluginDescriptor (internalName)

variable {d : PluginDescriptor} {more few many : List String} {name : String}

/-- Lists that are parts of others, up to a relation, still are when they are put one behind the other. -/
theorem sublistForall₂_append {α β : Type} {R : α → β → Prop} {as cs : List α} {bs ds : List β}
    (front : List.SublistForall₂ R as bs) (back : List.SublistForall₂ R cs ds) :
    List.SublistForall₂ R (as ++ cs) (bs ++ ds) := by
  obtain ⟨bs', related, part⟩ := List.sublistForall₂_iff.mp front
  obtain ⟨ds', related', part'⟩ := List.sublistForall₂_iff.mp back
  exact List.sublistForall₂_iff.mpr
    ⟨bs' ++ ds', List.rel_append related related', part.append part'⟩

/-! ### Lists of names -/

/-- Whether all classes that some names stand for are among those that others stand for. -/
def NamesWithin (few many : List String) : Prop :=
  ∀ a ∈ few, ∃ b ∈ many, internalName (Text.trim b) = internalName (Text.trim a)

theorem Vouched.mono (commands : d.commands ⊆ more) (names : NamesWithin few many)
    (vouched : Vouched d few name) : Vouched { d with commands := more } many name := by
  cases vouched with
  | named member same =>
      obtain ⟨b, member', same'⟩ := names _ member
      exact .named member' (same'.trans same)
  | command member ends named same => exact .command (commands member) ends named same

theorem AllowList.contains_mono (commands : d.commands ⊆ more) (names : NamesWithin few many)
    (name : String) (vouched : (AllowList.new d few).contains name) :
    (AllowList.new { d with commands := more } many).contains name :=
  contains_iff.mpr ((contains_iff.mp vouched).mono commands names)

/-- Neither the order of commands and names matters, nor how often they are given. -/
theorem AllowList.contains_eq (commands : d.commands ⊆ more) (names : NamesWithin few many)
    (commands' : more ⊆ d.commands) (names' : NamesWithin many few) :
    (AllowList.new { d with commands := more } many).contains = (AllowList.new d few).contains := by
  funext name
  apply Bool.eq_iff_iff.mpr
  constructor
  · exact contains_mono (d := { d with commands := more }) commands' names' name
  · exact contains_mono commands names name

namespace Plan

variable {allow allow' : AllowList} {p : PackagedClass} {c : ClassFile} {main : Nat}
  {plan plan' plan₁ plan₁' : Plan} {verdict verdict' : Classification}
  {found found' : List InjectionTarget} {rest : List (PackagedClass × Nat)} {isMain : Bool}

/-! ### Verdicts -/

/-- What may become of a verdict when the class comes to be vouched for. -/
inductive Raised : Classification → Classification → Prop
  | same (verdict : Classification) : Raised verdict verdict
  | considered (verdict : Classification) : Raised (.rejected .notCandidate) verdict
  | declared : Raised .heuristic .declared

theorem Raised.rejected {why : RejectReason} (raised : Raised verdict (.rejected why)) :
    ∃ why', verdict = .rejected why' := by
  cases raised with
  | same => exact ⟨why, rfl⟩
  | considered => exact ⟨.notCandidate, rfl⟩

theorem Raised.isSome_reason? (raised : Raised verdict verdict') (accepted : verdict.reason?.isSome) :
    verdict'.reason?.isSome := by
  cases raised with
  | same => exact accepted
  | considered => cases accepted
  | declared => rfl

/-- Whether a class can be judged does not depend on what is vouched for. -/
theorem classify_raised (wider : allow.contains name → allow'.contains name)
    (judged : classify c name allow = .ok verdict) :
    ∃ verdict', classify c name allow' = .ok verdict' ∧ Raised verdict verdict' := by
  rw [classify] at judged ⊢
  by_cases proper : (c.isInterface || c.isAnnotation) = true
  · rw [if_pos proper] at judged ⊢
    exact ⟨verdict, judged, .same verdict⟩
  · rw [if_neg proper] at judged ⊢
    obtain ⟨js, called, decided⟩ := bind_eq_ok_iff.mp judged
    refine ⟨_, bind_eq_ok_iff.mpr ⟨js, called, rfl⟩, ?_⟩
    obtain rfl := Except.ok.inj decided
    by_cases vouched : allow.contains name
    · rw [if_pos vouched, if_pos (wider vouched)]
      exact .same _
    · rw [if_neg vouched]
      by_cases vouched' : allow'.contains name
      · rw [if_pos vouched']
        by_cases named : hasCandidateName name
        · rw [if_pos named]
          cases js with
          | nil => exact .same _
          | cons j js => exact .declared
        · rw [if_neg named]
          exact .considered _
      · rw [if_neg vouched']
        exact .same _

theorem exists_classify (allow' : AllowList) (judged : classify c name allow = .ok verdict) :
    ∃ verdict', classify c name allow' = .ok verdict' := by
  rw [classify] at judged ⊢
  by_cases proper : (c.isInterface || c.isAnnotation) = true
  · rw [if_pos proper]
    exact ⟨_, rfl⟩
  · rw [if_neg proper] at judged ⊢
    obtain ⟨js, called, -⟩ := bind_eq_ok_iff.mp judged
    exact ⟨_, bind_eq_ok_iff.mpr ⟨js, called, rfl⟩⟩

/-- A class that is rejected has been rejected while less was vouched for. -/
theorem callbackTargets_of_rejected_wider {why : RejectReason}
    (wider : allow.contains p.name → allow'.contains p.name)
    (judged : classify p.content p.name allow' = .ok (.rejected why)) :
    ∃ why', callbackTargets p allow = .ok (.rejected why', []) := by
  obtain ⟨verdict, judged₁⟩ := exists_classify allow judged
  obtain ⟨verdict', judged', raised⟩ := classify_raised wider judged₁
  obtain rfl := Except.ok.inj (judged'.symm.trans judged)
  obtain ⟨why', rfl⟩ := raised.rejected
  exact ⟨why', callbackTargets_of_rejected judged₁ rfl⟩

/-! ### Targets -/

/-- What may become of a target when its class comes to be vouched for. -/
inductive Upgraded : InjectionTarget → InjectionTarget → Prop
  | same (t : InjectionTarget) : Upgraded t t
  | declared {t : InjectionTarget} (guessed : t.reason = .heuristicCallback) :
    Upgraded t { t with reason := .declaredCallback }

theorem sublistForall₂_upgraded_refl (ts : List InjectionTarget) :
    List.SublistForall₂ Upgraded ts ts :=
  List.sublistForall₂_iff.mpr ⟨ts, List.forall₂_same.mpr fun t _ => .same t, .refl ts⟩

theorem methodTarget_told {reason : TargetReason} {j : Nat}
    (made : methodTarget p reason j = .ok found) :
    ∀ t ∈ found, t.entry = p.entry ∧ t.className = p.name ∧ t.reason = reason := by
  rw [methodTarget] at made
  split at made
  · obtain rfl := Except.ok.inj made
    exact List.forall_mem_nil _
  · obtain ⟨_, -, _, -, made⟩ := by simpa only [bind_eq_ok_iff] using made
    obtain rfl := Except.ok.inj made
    exact List.forall_mem_singleton.mpr ⟨rfl, rfl, rfl⟩

/-- The reason has no influence on the rest of a target. -/
theorem methodTarget_with_reason {reason : TargetReason} {j : Nat} (reason' : TargetReason)
    (made : methodTarget p reason j = .ok found) :
    methodTarget p reason' j = .ok (found.map fun t => { t with reason := reason' }) := by
  rw [methodTarget] at made ⊢
  split at made
  · obtain rfl := Except.ok.inj made
    rfl
  · obtain ⟨name, named, descriptor, typed, made⟩ := by simpa only [bind_eq_ok_iff] using made
    obtain rfl := Except.ok.inj made
    rw [named, typed]
    rfl

theorem mapM_methodTarget_with_reason {reason : TargetReason} {js : List Nat}
    {lists : List (List InjectionTarget)} (reason' : TargetReason)
    (each : js.mapM (methodTarget p reason) = .ok lists) :
    js.mapM (methodTarget p reason') =
      .ok (lists.map (List.map fun t => { t with reason := reason' })) := by
  refine mapM_eq_ok_iff.mpr (List.forall₂_map_right_iff.mpr ?_)
  exact (mapM_eq_ok_iff.mp each).imp fun _ _ targets => methodTarget_with_reason reason' targets

/-- What the targets in a class that is not the main class come from. -/
theorem callbackTargets_eq_ok_iff : callbackTargets p allow = .ok (verdict, found) ↔
    classify p.content p.name allow = .ok verdict ∧
      (verdict.reason? = none ∧ found = [] ∨
        ∃ reason js lists, verdict.reason? = some reason ∧ callbacks p.content = .ok js ∧
          js.mapM (methodTarget p reason) = .ok lists ∧ found = lists.flatten) := by
  rw [callbackTargets, bind_eq_ok_iff]
  constructor
  · rintro ⟨judgement, judged, made⟩
    cases decided : judgement.reason? with
    | none =>
        rw [decided] at made
        obtain ⟨rfl, rfl⟩ := Prod.mk.inj (Except.ok.inj made)
        exact ⟨judged, .inl ⟨decided, rfl⟩⟩
    | some reason =>
        rw [decided] at made
        obtain ⟨js, called, made⟩ := bind_eq_ok_iff.mp made
        obtain ⟨lists, each, made⟩ := bind_eq_ok_iff.mp made
        obtain ⟨rfl, rfl⟩ := Prod.mk.inj (Except.ok.inj made)
        exact ⟨judged, .inr ⟨reason, js, lists, decided, called, each, rfl⟩⟩
  · rintro ⟨judged, ⟨decided, rfl⟩ | ⟨reason, js, lists, decided, called, each, rfl⟩⟩
    · refine ⟨verdict, judged, ?_⟩
      rw [decided]
      rfl
    · refine ⟨verdict, judged, ?_⟩
      rw [decided]
      exact bind_eq_ok_iff.mpr ⟨js, called, bind_eq_ok_iff.mpr ⟨lists, each, rfl⟩⟩

theorem callbackTargets_told (made : callbackTargets p allow = .ok (verdict, found)) :
    ∀ t ∈ found, t.entry = p.entry ∧ t.className = p.name ∧ verdict.reason? = some t.reason := by
  obtain ⟨-, ⟨-, rfl⟩ | ⟨reason, js, lists, decided, -, each, rfl⟩⟩ := callbackTargets_eq_ok_iff.mp made
  · exact List.forall_mem_nil _
  · intro t member
    obtain ⟨ts, listed, inside⟩ := List.mem_flatten.mp member
    obtain ⟨j, -, targets⟩ := exists_of_forall₂ (mapM_eq_ok_iff.mp each).flip ts listed
    obtain ⟨entry, className, rfl⟩ := methodTarget_told targets t inside
    exact ⟨entry, className, decided⟩

/-- A class keeps its targets when more is vouched for. -/
theorem callbackTargets_grown (wider : allow.contains p.name → allow'.contains p.name)
    (made : callbackTargets p allow = .ok (verdict, found))
    (made' : callbackTargets p allow' = .ok (verdict', found')) :
    List.SublistForall₂ Upgraded found found' := by
  have told := callbackTargets_told made
  obtain ⟨judged, kind⟩ := callbackTargets_eq_ok_iff.mp made
  obtain ⟨judged', kind'⟩ := callbackTargets_eq_ok_iff.mp made'
  obtain ⟨_, judged₁, raised⟩ := classify_raised wider judged
  obtain rfl := Except.ok.inj (judged₁.symm.trans judged')
  obtain ⟨-, rfl⟩ | ⟨reason, js, lists, decided, called, each, rfl⟩ := kind
  · exact .nil
  obtain ⟨none', -⟩ | ⟨reason', js', lists', decided', called', each', rfl⟩ := kind'
  · have accepted := raised.isSome_reason? (Option.isSome_of_eq_some decided)
    rw [none'] at accepted
    cases accepted
  obtain rfl := Except.ok.inj (called.symm.trans called')
  cases raised with
  | same =>
      obtain rfl := Option.some.inj (decided.symm.trans decided')
      obtain rfl := Except.ok.inj (each.symm.trans each')
      exact sublistForall₂_upgraded_refl _
  | considered => cases decided
  | declared =>
      obtain rfl := Option.some.inj decided'
      have again := mapM_methodTarget_with_reason .declaredCallback each
      obtain rfl := Except.ok.inj (again.symm.trans each')
      rw [← List.map_flatten]
      refine List.sublistForall₂_iff.mpr ⟨_, List.forall₂_map_right_iff.mpr ?_, .refl _⟩
      refine List.forall₂_same.mpr fun t member => .declared ?_
      exact (Option.some.inj (told t member).2.2).symm

/-- Where the targets of a class can be told, they can be while less is vouched for. -/
theorem exists_callbackTargets (wider : allow.contains p.name → allow'.contains p.name)
    (made' : callbackTargets p allow' = .ok (verdict', found')) :
    ∃ verdict found, callbackTargets p allow = .ok (verdict, found) := by
  obtain ⟨judged', kind'⟩ := callbackTargets_eq_ok_iff.mp made'
  obtain ⟨verdict, judged⟩ := exists_classify allow judged'
  obtain ⟨_, judged₁, raised⟩ := classify_raised wider judged
  obtain rfl := Except.ok.inj (judged₁.symm.trans judged')
  cases decided : verdict.reason? with
  | none => exact ⟨verdict, [], callbackTargets_of_rejected judged decided⟩
  | some reason =>
      have accepted := raised.isSome_reason? (Option.isSome_of_eq_some decided)
      obtain ⟨none', -⟩ | ⟨reason', js, lists, -, called, each, -⟩ := kind'
      · rw [none'] at accepted
        cases accepted
      · have again := mapM_methodTarget_with_reason reason each
        exact ⟨verdict, _, callbackTargets_eq_ok_iff.mpr
          ⟨judged, .inr ⟨reason, js, _, decided, called, again, rfl⟩⟩⟩

/-! ### One class after another -/

/-- What a class adds to a plan. -/
theorem add_inv (added : add allow plan p isMain = .ok plan₁) :
    ∃ found, plan₁.entryPoint = plan.entryPoint ∧ plan₁.targets = plan.targets ++ found ∧
      (isMain = true ∧ entryTargets p = .ok found ∨
        isMain = false ∧ ∃ verdict, callbackTargets p allow = .ok (verdict, found)) := by
  rw [add] at added
  cases isMain with
  | true =>
      obtain ⟨found, made, added⟩ := bind_eq_ok_iff.mp added
      obtain rfl := Except.ok.inj added
      exact ⟨found, rfl, rfl, .inl ⟨rfl, made⟩⟩
  | false =>
      obtain ⟨⟨verdict, found⟩, made, added⟩ := bind_eq_ok_iff.mp added
      obtain rfl := Except.ok.inj added
      exact ⟨found, rfl, rfl, .inr ⟨rfl, verdict, made⟩⟩

/-- Whether a plan has the targets of another one, up to better reasons, in their order. -/
structure Grown (plan plan' : Plan) : Prop where
  entryPoint : plan'.entryPoint = plan.entryPoint
  targets : List.SublistForall₂ Upgraded plan.targets plan'.targets

theorem Grown.add (grown : Grown plan plan')
    (wider : ∀ name, allow.contains name → allow'.contains name)
    (added : add allow plan p isMain = .ok plan₁) (added' : add allow' plan' p isMain = .ok plan₁') :
    Grown plan₁ plan₁' := by
  obtain ⟨found, entry, targets, kind⟩ := add_inv added
  obtain ⟨found', entry', targets', kind'⟩ := add_inv added'
  refine ⟨by rw [entry, entry', grown.entryPoint], ?_⟩
  rw [targets, targets']
  refine sublistForall₂_append grown.targets ?_
  obtain ⟨rfl, made⟩ | ⟨rfl, verdict, made⟩ := kind
  · obtain ⟨-, made'⟩ | ⟨⟨⟩, -⟩ := kind'
    obtain rfl := Except.ok.inj (made.symm.trans made')
    exact sublistForall₂_upgraded_refl found
  · obtain ⟨⟨⟩, -⟩ | ⟨-, verdict', made'⟩ := kind'
    exact callbackTargets_grown (wider p.name) made made'

theorem addAll_cons_inv {q : PackagedClass × Nat} (made : addAll allow main plan (q :: rest) = .ok plan₁) :
    ∃ plan₂, add allow plan q.1 (q.2 == main) = .ok plan₂ ∧ addAll allow main plan₂ rest = .ok plan₁ := by
  rw [addAll] at made
  split at made
  next plan₂ added => exact ⟨plan₂, added, made⟩
  next => cases made

theorem Grown.addAll (grown : Grown plan plan')
    (wider : ∀ name, allow.contains name → allow'.contains name)
    (made : addAll allow main plan rest = .ok plan₁)
    (made' : addAll allow' main plan' rest = .ok plan₁') : Grown plan₁ plan₁' := by
  induction rest generalizing plan plan' with
  | nil =>
      obtain rfl := Except.ok.inj made
      obtain rfl := Except.ok.inj made'
      exact grown
  | cons q rest ih =>
      obtain ⟨plan₂, added, made⟩ := addAll_cons_inv made
      obtain ⟨plan₂', added', made'⟩ := addAll_cons_inv made'
      exact ih (grown.add wider added added') made made'

theorem exists_add (plan : Plan) (wider : allow.contains p.name → allow'.contains p.name)
    (added' : add allow' plan' p isMain = .ok plan₁') : ∃ plan₁, add allow plan p isMain = .ok plan₁ := by
  obtain ⟨found', -, -, ⟨rfl, made'⟩ | ⟨rfl, verdict', made'⟩⟩ := add_inv added'
  · exact ⟨_, bind_eq_ok_iff.mpr ⟨found', made', rfl⟩⟩
  · obtain ⟨verdict, found, made⟩ := exists_callbackTargets wider made'
    exact ⟨_, bind_eq_ok_iff.mpr ⟨(verdict, found), made, rfl⟩⟩

theorem exists_addAll (plan : Plan) (wider : ∀ name, allow.contains name → allow'.contains name)
    (made' : addAll allow' main plan' rest = .ok plan₁') :
    ∃ plan₁, addAll allow main plan rest = .ok plan₁ := by
  induction rest generalizing plan plan' with
  | nil => exact ⟨plan, rfl⟩
  | cons q rest ih =>
      obtain ⟨plan₂', added', behind'⟩ := addAll_cons_inv made'
      obtain ⟨plan₂, added⟩ := exists_add plan (wider q.1.name) added'
      obtain ⟨plan₁, behind⟩ := ih plan₂ behind'
      refine ⟨plan₁, ?_⟩
      rw [addAll, added]
      exact behind

/-- Whether a class may hold a target: it is the main class, or it is not rejected. -/
def MayHold (allow : AllowList) (main : Nat) (q : PackagedClass × Nat) (t : InjectionTarget) : Prop :=
  t.entry = q.1.entry ∧ t.className = q.1.name ∧
    (q.2 = main ∨ ∃ verdict, classify q.1.content q.1.name allow = .ok verdict ∧ verdict.reason?.isSome)

theorem entryTargets_told (made : entryTargets p = .ok found) :
    ∀ t ∈ found, t.entry = p.entry ∧ t.className = p.name := by
  obtain ⟨found', made', places, -, each, -⟩ := entryTargets_lists p
  obtain rfl := Except.ok.inj (made'.symm.trans made)
  intro t member
  obtain ⟨j, -, enables⟩ := exists_of_forall₂ each.flip t member
  cases enables
  exact ⟨rfl, rfl⟩

/-- Every target of a plan lies in a class that may hold it. -/
theorem mayHold_of_mem_targets (made : addAll allow main plan rest = .ok plan₁) :
    ∀ t ∈ plan₁.targets, t ∈ plan.targets ∨ ∃ q ∈ rest, MayHold allow main q t := by
  induction rest generalizing plan with
  | nil =>
      obtain rfl := Except.ok.inj made
      exact fun t member => .inl member
  | cons q rest ih =>
      obtain ⟨plan₂, added, made⟩ := addAll_cons_inv made
      obtain ⟨found, -, targets, kind⟩ := add_inv added
      have inFound : ∀ t ∈ found, MayHold allow main q t := by
        intro t member
        obtain ⟨isMain, made⟩ | ⟨-, verdict, made⟩ := kind
        · obtain ⟨entry, className⟩ := entryTargets_told made t member
          exact ⟨entry, className, .inl (beq_iff_eq.mp isMain)⟩
        · obtain ⟨entry, className, accepted⟩ := callbackTargets_told made t member
          exact ⟨entry, className, .inr
            ⟨verdict, (callbackTargets_eq_ok_iff.mp made).1, Option.isSome_of_eq_some accepted⟩⟩
      intro t member
      obtain member | ⟨q', member, holds⟩ := ih made t member
      · rw [targets] at member
        exact (List.mem_append.mp member).imp_right fun member =>
          ⟨q, List.mem_cons_self .., inFound t member⟩
      · exact .inr ⟨q', List.mem_cons_of_mem _ member, holds⟩

/-! ### Lists that vouch for the same classes -/

section

variable (same : allow'.contains = allow.contains)

include same

theorem callbackTargets_congr (p : PackagedClass) :
    callbackTargets p allow' = callbackTargets p allow := by
  rw [callbackTargets, callbackTargets, classify, classify, same]

theorem addAll_congr (main : Nat) (plan : Plan) (rest : List (PackagedClass × Nat)) :
    addAll allow' main plan rest = addAll allow main plan rest := by
  induction rest generalizing plan with
  | nil => rfl
  | cons q rest ih =>
      have here : add allow' plan q.1 (q.2 == main) = add allow plan q.1 (q.2 == main) := by
        rw [add, add, callbackTargets_congr same]
      rw [addAll, addAll, here]
      split
      · exact ih _
      · rfl

end

/-! ### Plans -/

variable {classes : List PackagedClass}

/-- What a plan comes from. -/
theorem make_inv (made : make d classes few = .ok plan) :
    ∃ main, classes.findIdx? (·.name == d.mainInternal) = some main ∧
      addAll (AllowList.new d few) main ⟨d.mainInternal, [], []⟩ classes.zipIdx = .ok plan := by
  rw [make] at made
  split at made
  next => cases made
  next main position => exact ⟨main, position, made⟩

/-- For classes whose methods can be looked up there is a plan where there is a main class. -/
theorem exists_make_iff (readable : ∀ p ∈ classes, Readable p.content) :
    (∃ plan, make d classes few = .ok plan) ↔
      ∃ main, classes.findIdx? (·.name == d.mainInternal) = some main := by
  constructor
  · rintro ⟨plan, made⟩
    obtain ⟨main, position, -⟩ := make_inv made
    exact ⟨main, position⟩
  · rintro ⟨main, position⟩
    obtain ⟨plan, made, -⟩ := exists_make_lists readable position
    exact ⟨plan, made⟩

/-- To vouch for more classes takes no method out of a plan. Let the descriptor have more commands, and
let the names stand for more classes. For classes that were read (`readable_of_decode`) the wider plan
exists just where the other one does, and for all classes only where the other one does. Its targets are
those of the other one and further ones among them, with the same reasons, except that a guess may have
become a declaration; each target of the narrower plan lies in the main class or in a class that the wider
one does not reject. A class that is rejected although more is vouched for has no target with less. Where
just the order of commands and names differs, or how often they are given, so that both vouch for the same,
there is no difference at all. -/
theorem make_vouching_more (d : PluginDescriptor) (classes : List PackagedClass)
    (commands : d.commands ⊆ more) (names : NamesWithin few many) :
    ((∀ p ∈ classes, Readable p.content) →
      ((∃ plan, make d classes few = .ok plan) ↔
        ∃ plan, make { d with commands := more } classes many = .ok plan)) ∧
    ((∃ plan, make { d with commands := more } classes many = .ok plan) →
      ∃ plan, make d classes few = .ok plan) ∧
    (∀ plan plan', make d classes few = .ok plan →
      make { d with commands := more } classes many = .ok plan' →
        plan'.entryPoint = plan.entryPoint ∧
        List.SublistForall₂ Upgraded plan.targets plan'.targets ∧
        ∀ t ∈ plan.targets, ∃ i p, classes[i]? = some p ∧ t.entry = p.entry ∧ t.className = p.name ∧
          (IsMain d classes i ∨ ∃ verdict, verdict.reason?.isSome ∧
            classify p.content p.name (AllowList.new { d with commands := more } many) =
              .ok verdict)) ∧
    (∀ p why, classify p.content p.name (AllowList.new { d with commands := more } many) =
        .ok (.rejected why) →
      ∃ why', callbackTargets p (AllowList.new d few) = .ok (.rejected why', [])) ∧
    (more ⊆ d.commands → NamesWithin many few →
      make { d with commands := more } classes many = make d classes few) := by
  have wider := AllowList.contains_mono commands names
  refine ⟨fun readable => ?_, fun ⟨plan', made'⟩ => ?_, fun plan plan' made made' => ?_,
    fun p why judged => callbackTargets_of_rejected_wider (wider p.name) judged,
    fun commands' names' => ?_⟩
  · rw [exists_make_iff readable, exists_make_iff readable]
    rfl
  · obtain ⟨main, position, made'⟩ := make_inv made'
    obtain ⟨plan, made⟩ := exists_addAll ⟨d.mainInternal, [], []⟩ wider made'
    have position' : classes.findIdx? (·.name == d.mainInternal) = some main := position
    exact ⟨plan, by rw [make, position']; exact made⟩
  · obtain ⟨main, position, made⟩ := make_inv made
    obtain ⟨main', position', made'⟩ := make_inv made'
    obtain rfl : main = main' := Option.some.inj (position.symm.trans position')
    have start : Grown ⟨d.mainInternal, [], []⟩ ⟨d.mainInternal, [], []⟩ := ⟨rfl, .nil⟩
    have grown := start.addAll wider made made'
    refine ⟨grown.entryPoint, grown.targets, fun t member => ?_⟩
    obtain ⟨⟨p, i⟩, there, entry, className, holds⟩ :=
      (mayHold_of_mem_targets made t member).resolve_left List.not_mem_nil
    refine ⟨i, p, List.mem_zipIdx_iff_getElem?.mp there, entry, className, ?_⟩
    obtain rfl | ⟨verdict, judged, accepted⟩ := holds
    · exact .inl (isMain_iff.mp position)
    · obtain ⟨verdict', judged', raised⟩ := classify_raised (wider p.name) judged
      exact .inr ⟨verdict', raised.isSome_reason? accepted, judged'⟩
  · have same := AllowList.contains_eq commands names commands' names'
    have unchanged : ({ d with commands := more } : PluginDescriptor).mainInternal = d.mainInternal := rfl
    rw [make, make, unchanged]
    cases classes.findIdx? (·.name == d.mainInternal) with
    | none => rfl
    | some main => exact addAll_congr same main _ _

/-- A listener that was guessed becomes declared, and a class that was left alone is taken up. -/
theorem make_vouching_more_chatClasses : ∃ classes plan plan', chatClasses = .ok classes ∧
    make chatDescriptor classes [] = .ok plan ∧
    make { chatDescriptor with commands := ["shop", "chat", "shop"] } classes
      [" Storage", "ChatListener"] = .ok plan' ∧
    plan.targets.map (fun t => (t.display, t.reason)) =
      [("ChatListener.onChat()V", .heuristicCallback), ("A.onEnable()V", .entryPoint)] ∧
    plan'.targets.map (fun t => (t.display, t.reason)) =
      [("ChatListener.onChat()V", .declaredCallback), ("Storage.onSave()V", .declaredCallback),
        ("A.onEnable()V", .entryPoint)] ∧
    List.SublistForall₂ Upgraded plan.targets plan'.targets := by
  have run : ∃ classes ∈ chatClasses.toOption, ∃ plan ∈ (make chatDescriptor classes []).toOption,
      ∃ plan' ∈ (make { chatDescriptor with commands := ["shop", "chat", "shop"] } classes
        [" Storage", "ChatListener"]).toOption,
      plan.targets.map (fun t => (t.display, t.reason)) =
        [("ChatListener.onChat()V", .heuristicCallback), ("A.onEnable()V", .entryPoint)] ∧
      plan'.targets.map (fun t => (t.display, t.reason)) =
        [("ChatListener.onChat()V", .declaredCallback), ("Storage.onSave()V", .declaredCallback),
          ("A.onEnable()V", .entryPoint)] := by
    decide +kernel
  obtain ⟨classes, found, plan, planned, plan', planned', targets, targets'⟩ := run
  have made := toOption_eq_some_iff.mp planned
  have made' := toOption_eq_some_iff.mp planned'
  have commands : chatDescriptor.commands ⊆ ["shop", "chat", "shop"] := by decide
  have names : NamesWithin [] [" Storage", "ChatListener"] := List.forall_mem_nil _
  obtain ⟨-, -, compared, -⟩ := make_vouching_more chatDescriptor classes commands names
  exact ⟨classes, plan, plan', toOption_eq_some_iff.mp found, made, made', targets, targets',
    (compared plan plan' made made').2.1⟩

end Plan

end JarGate
