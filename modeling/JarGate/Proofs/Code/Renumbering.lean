import JarGate.Proofs.Code.StateMoves

/-!
# Two ways of moving frames

A table of frames can be moved for inserted code in two ways. Renumbering works on the frames as they are
written: it moves the offset of each, and the offsets of uninitialized objects that it names. Splicing
expands the table, moves the states, and compresses them with the old frames as hints. Where no state is
put in between, both give the same table: every hint still fits, since a moved frame describes the moved
state behind moved locals.

A frame without types of its own takes those of the frames before it, or of the entry of the method. The
entry is not part of the table and is not moved, so it must not name an uninitialized object.
-/

namespace JarGate

variable {move : Nat → Option Nat}

/-- Types that name no uninitialized object stay as they are. -/
theorem VerificationType.mapM_moved_of_settled {ts : List VerificationType}
    (settled : ∀ o, uninitialized o ∉ ts) : ts.mapM (·.moved move) = .ok ts := by
  rw [mapM_eq_ok_iff, List.forall₂_same]
  intro t member
  cases t with
  | uninitialized o => exact absurd member (settled o)
  | _ => rfl

theorem FrameState.moved_eq_ok_iff {s s' : FrameState} :
    s.moved move = .ok s' ↔
      s.locals.mapM (·.moved move) = .ok s'.locals ∧ s.stack.mapM (·.moved move) = .ok s'.stack := by
  simp only [moved, bind_eq_ok_iff, pure_eq_ok_iff]
  constructor
  · rintro ⟨locals, first, stack, second, rfl⟩
    exact ⟨first, second⟩
  · rintro ⟨first, second⟩
    exact ⟨_, first, _, second, rfl⟩

namespace Frame

variable {f g : Frame} {frames done out : List Frame} {previous target : Option Nat}
  {locals locals' initial : List VerificationType} {state : FrameState}
  {states : List (Nat × FrameState)} {start len : Nat}

/-! ### Moved frames -/

/-- A moved frame behind moved locals describes the moved state. -/
theorem apply_movedTypes (described : f.apply locals = .ok state)
    (entry : locals.mapM (·.moved move) = .ok locals') (typed : f.movedTypes move = .ok g) :
    ∃ state', state.moved move = .ok state' ∧ g.apply locals' = .ok state' := by
  have none : ([] : List VerificationType).mapM (·.moved move) = .ok [] := rfl
  cases movedTypes_eq_ok_iff.mp typed with
  | same | sameExtended =>
      cases described
      exact ⟨.entry locals', FrameState.moved_eq_ok_iff.mpr ⟨entry, none⟩, rfl⟩
  | @oneStack _ t t' top | @oneStackExtended _ t t' top =>
      cases described
      have single : [t].mapM (·.moved move) = .ok [t'] := mapM_eq_ok_iff.mpr (.cons top .nil)
      exact ⟨⟨locals', [t']⟩, FrameState.moved_eq_ok_iff.mpr ⟨entry, single⟩, rfl⟩
  | chop d count =>
      rw [apply] at described
      split at described
      next enough =>
        cases described
        have each := mapM_eq_ok_iff.mp entry
        have kept := mapM_eq_ok_iff.mpr (List.forall₂_take (locals.length - count.toNat) each)
        refine ⟨.entry (locals'.take (locals.length - count.toNat)),
          FrameState.moved_eq_ok_iff.mpr ⟨kept, none⟩, ?_⟩
        rw [apply, ← each.length_eq, if_pos enough]
      next => cases described
  | @append _ _ added' added =>
      cases described
      have both := List.rel_append (mapM_eq_ok_iff.mp entry) added
      exact ⟨.entry (locals' ++ added'),
        FrameState.moved_eq_ok_iff.mpr ⟨mapM_eq_ok_iff.mpr both, none⟩, rfl⟩
  | @full _ _ all' _ stack' all stack =>
      cases described
      exact ⟨⟨all', stack'⟩,
        FrameState.moved_eq_ok_iff.mpr ⟨mapM_eq_ok_iff.mpr all, mapM_eq_ok_iff.mpr stack⟩, rfl⟩

theorem moveEntry_eq_ok_iff {p : (Nat × FrameState) × Frame} {q : (Nat × FrameState) × Option Frame} :
    moveEntry start len p = .ok q ↔ ∃ state g,
      p.1.2.moved (fun o => some (shift start len o)) = .ok state ∧
      p.2.movedTypes (fun o => some (shift start len o)) = .ok g ∧
      q = ((shift start len p.1.1, state), some g) := by
  simp only [moveEntry, bind_eq_ok_iff, pure_eq_ok_iff]
  constructor
  · rintro ⟨state, typed, g, typed', rfl⟩
    exact ⟨state, g, typed, typed', rfl⟩
  · rintro ⟨state, g, typed, typed', rfl⟩
    exact ⟨state, typed, g, typed', rfl⟩

/-- Where all types of the frames can be moved, so can those of the states that they describe. -/
theorem Expands.exists_mapM_moveEntry (h : Expands previous locals frames states)
    (entry : locals.mapM (·.moved fun o => some (shift start len o)) = .ok locals')
    (typed : ∀ f ∈ frames, ∃ g, f.movedTypes (fun o => some (shift start len o)) = .ok g) :
    ∃ moved, (states.zip frames).mapM (moveEntry start len) = .ok moved := by
  induction h generalizing locals' with
  | nil => exact ⟨[], rfl⟩
  | cons here _ ih =>
      obtain ⟨⟨g, typed⟩, others⟩ := List.forall_mem_cons.mp typed
      obtain ⟨state', moved, -⟩ := apply_movedTypes here entry typed
      obtain ⟨rest, run⟩ := ih (FrameState.moved_eq_ok_iff.mp moved).1 others
      exact ⟨_, mapM_eq_ok_iff.mpr
        (.cons (moveEntry_eq_ok_iff.mpr ⟨state', g, moved, typed, rfl⟩) (mapM_eq_ok_iff.mp run))⟩

/-! ### Renumbered tables -/

/-- Whether a frame is another one renumbered: its types are moved, and it has a distance of its own. -/
def RenumberedTo (move : Nat → Option Nat) (f g : Frame) : Prop :=
  ∃ h delta, f.movedTypes move = .ok h ∧ h.withDelta delta = .ok g

/-- A frame is renumbered in steps: its offset is moved, then its types, and it is put at its distance. -/
theorem renumberOnto_cons_iff :
    renumberOnto move done previous target (f :: frames) = .ok out ↔
      ∃ o delta g g', move (offsetAfter previous f) = some o ∧ deltaAfter target o = .ok delta ∧
        f.movedTypes move = .ok g ∧ g.withDelta delta = .ok g' ∧
        renumberOnto move (g' :: done) (some (offsetAfter previous f)) (some o) frames = .ok out := by
  rw [renumberOnto]
  cases move (offsetAfter previous f) with
  | none => simp
  | some o =>
      dsimp only
      cases distance : deltaAfter target o with
      | error e => simp [distance]
      | ok delta =>
          dsimp only
          cases f.movedTypes move with
          | error e => simp
          | ok g =>
              dsimp only
              cases placed : g.withDelta delta with
              | error e => simp [distance, placed]
              | ok g' => simp [distance, placed]

theorem renumbered_of_renumberOnto (h : renumberOnto move done previous target frames = .ok out) :
    ∃ gs, out = done.reverse ++ gs ∧ List.Forall₂ (RenumberedTo move) frames gs := by
  induction frames generalizing done previous target with
  | nil =>
      cases h
      exact ⟨[], (List.append_nil _).symm, .nil⟩
  | cons f fs ih =>
      obtain ⟨o, delta, g, g', -, -, typed, placed, h⟩ := renumberOnto_cons_iff.mp h
      obtain ⟨gs, rfl, each⟩ := ih h
      exact ⟨g' :: gs, by simp, .cons ⟨g, delta, typed, placed⟩ each⟩

/-- Compressing the moved states with the moved frames as hints goes through the same steps as
renumbering, and fails where that does. -/
theorem Expands.compressOnto_eq_renumberOnto (h : Expands previous locals frames states)
    (entry : locals.mapM (·.moved fun o => some (shift start len o)) = .ok locals')
    {moved : List ((Nat × FrameState) × Option Frame)}
    (run : (states.zip frames).mapM (moveEntry start len) = .ok moved) :
    compressOnto done target locals' (moved.map (·.2)) (moved.map (·.1)) =
      renumberOnto (fun o => some (shift start len o)) done previous target frames := by
  induction h generalizing locals' moved done target with
  | nil =>
      cases run
      rfl
  | @cons previous locals f fs state states here _ ih =>
      obtain _ | ⟨step, steps⟩ := mapM_eq_ok_iff.mp run
      obtain ⟨state', g, typed, typed', rfl⟩ := moveEntry_eq_ok_iff.mp step
      obtain ⟨_, typed'', described⟩ := apply_movedTypes here entry typed'
      obtain rfl := Except.ok.inj (typed.symm.trans typed'')
      have later := FrameState.moved_eq_ok_iff.mp typed
      rw [List.map_cons, List.map_cons, compressOnto, renumberOnto, List.head?_cons, Option.join_some,
        choose_of_apply described, List.tail_cons]
      dsimp only at typed' ⊢
      rw [typed']
      cases deltaAfter target (shift start len (offsetAfter previous f)) with
      | error e => rfl
      | ok delta =>
          dsimp only
          cases g.withDelta delta with
          | error e => rfl
          | ok g' => exact ih later.1 (mapM_eq_ok_iff.mpr steps)

/-! ### Kinds of frames -/

/-- The kinds of frames. -/
inductive Kind where
  | same | sameExtended | oneStack | oneStackExtended | chop | append | full
  deriving DecidableEq, Repr

/-- The kind of a frame. -/
def kind : Frame → Kind
  | same _ => .same
  | sameExtended _ => .sameExtended
  | oneStack _ _ => .oneStack
  | oneStackExtended _ _ => .oneStackExtended
  | chop _ _ => .chop
  | append _ _ => .append
  | full _ _ _ => .full

/-- The kind that a frame of some kind has where its distance is too great for a short form. -/
def Kind.extended : Kind → Kind
  | same => sameExtended
  | oneStack => oneStackExtended
  | other => other

/-- Whether a frame has the kind of another one, or the extended form of that kind where its distance
exceeds 63. -/
def KeepsKind (f g : Frame) : Prop :=
  g.kind = if g.delta.toNat ≤ 63 then f.kind else f.kind.extended

theorem kind_movedTypes (typed : f.movedTypes move = .ok g) : g.kind = f.kind := by
  cases movedTypes_eq_ok_iff.mp typed <;> rfl

theorem keepsKind_withDelta {delta : Nat} (placed : f.withDelta delta = .ok g) : f.KeepsKind g := by
  obtain ⟨d, -, put⟩ := putAt_of_withDelta placed
  cases put with
  | same short | oneStack short => exact (if_pos short).symm
  | longSame long | longOneStack long => exact (if_neg (Nat.not_le_of_lt long)).symm
  | _ => exact (ite_self _).symm

theorem RenumberedTo.keepsKind (h : RenumberedTo move f g) : f.KeepsKind g := by
  obtain ⟨g', delta, typed, placed⟩ := h
  have kept := keepsKind_withDelta placed
  rwa [KeepsKind, kind_movedTypes typed] at kept

/-! ### Splicing and renumbering -/

/-- Splicing without a state in between is renumbering. For a table that expands over locals that name
no uninitialized object, one succeeds exactly where the other does, with the same frames, also where an
offset wraps around. Each of them is of the kind that it was, or of the extended form of that kind where
its distance exceeds 63. -/
theorem splice_agrees_renumber (expanded : expand frames initial = .ok states)
    (settled : ∀ o, .uninitialized o ∉ initial) (start len : Nat) :
    (∀ out, splice frames initial start len none = .ok out ↔
      renumber frames (fun o => some (shift start len o)) = .ok out) ∧
    ∀ out, splice frames initial start len none = .ok out → List.Forall₂ KeepsKind frames out := by
  have described := expand_eq_ok_iff.mp expanded
  have entry : initial.mapM (·.moved fun o => some (shift start len o)) = .ok initial :=
    VerificationType.mapM_moved_of_settled settled
  have agree : ∀ out, splice frames initial start len none = .ok out ↔
      renumber frames (fun o => some (shift start len o)) = .ok out := by
    intro out
    simp only [splice_eq, bind_eq_ok_iff, expanded, Except.ok.injEq, exists_eq_left', renumber, compress]
    constructor
    · rintro ⟨moved, run, compressed⟩
      rwa [described.compressOnto_eq_renumberOnto entry run] at compressed
    · intro renumbered
      obtain ⟨gs, -, each⟩ := renumbered_of_renumberOnto renumbered
      have typed : ∀ f ∈ frames, ∃ g, f.movedTypes (fun o => some (shift start len o)) = .ok g := by
        intro f member
        obtain ⟨_, -, g, _, typed, -⟩ := exists_of_forall₂ each f member
        exact ⟨g, typed⟩
      obtain ⟨moved, run⟩ := described.exists_mapM_moveEntry entry typed
      rw [← described.compressOnto_eq_renumberOnto entry run] at renumbered
      exact ⟨moved, run, renumbered⟩
  refine ⟨agree, fun out spliced => ?_⟩
  obtain ⟨gs, same, each⟩ := renumbered_of_renumberOnto ((agree out).mp spliced)
  obtain rfl : out = gs := same
  exact each.imp fun _ _ => RenumberedTo.keepsKind

/-- Two frames at the greatest distance of their forms, in front of those of an object that is made at the
offset 140. -/
def edgeFrames : List Frame :=
  [.same 63, .oneStack 63 .null, .append 20 [.uninitialized 140], .full 0 [.integer] [.long], .chop 1 1]

/-- One octet at the start of the code moves every frame, and the first takes its extended form. At the
offset 100 it moves the second frame and what is behind it. In code that is nearly full, the object cannot
be moved in either way. By one octet less than a word can count, a frame is moved to the place in front of
its own. -/
theorem splice_agrees_renumber_edge :
    (splice edgeFrames [.integer] 0 1 none = .ok [.sameExtended 64, .oneStack 63 .null,
        .append 20 [.uninitialized 141], .full 0 [.integer] [.long], .chop 1 1] ∧
      renumber edgeFrames (fun o => some (shift 0 1 o)) = .ok [.sameExtended 64, .oneStack 63 .null,
        .append 20 [.uninitialized 141], .full 0 [.integer] [.long], .chop 1 1]) ∧
    (∃ out, splice edgeFrames [.integer] 100 1 none = .ok out ∧
      List.Forall₂ KeepsKind edgeFrames out ∧ out[1]? = some (.oneStackExtended 64 .null)) ∧
    (∀ out, renumber edgeFrames (fun o => some (shift 0 65400 o)) ≠ .ok out) ∧
    renumber [.same 5] (fun o => some (shift 0 4294967295 o)) = .ok [.same 4] := by
  have expanded : expand edgeFrames [.integer] = .ok [(63, ⟨[.integer], []⟩), (127, ⟨[.integer], [.null]⟩),
      (148, ⟨[.integer, .uninitialized 140], []⟩), (149, ⟨[.integer], [.long]⟩), (151, ⟨[], []⟩)] := by
    decide
  have settled : ∀ o, VerificationType.uninitialized o ∉ [VerificationType.integer] := by
    simp
  obtain ⟨first, -⟩ := splice_agrees_renumber expanded settled 0 1
  obtain ⟨-, kinds⟩ := splice_agrees_renumber expanded settled 100 1
  obtain ⟨full, -⟩ := splice_agrees_renumber expanded settled 0 65400
  have spliced : splice edgeFrames [.integer] 0 1 none = .ok [.sameExtended 64, .oneStack 63 .null,
      .append 20 [.uninitialized 141], .full 0 [.integer] [.long], .chop 1 1] := by
    decide
  have later : splice edgeFrames [.integer] 100 1 none = .ok [.same 63, .oneStackExtended 64 .null,
      .append 20 [.uninitialized 141], .full 0 [.integer] [.long], .chop 1 1] := by
    decide
  have failed : splice edgeFrames [.integer] 0 65400 none = .error (.overflow (.uninitialized 65540)) := by
    decide
  have alone : expand [.same 5] [.integer] = .ok [(5, ⟨[.integer], []⟩)] := by decide
  obtain ⟨around, -⟩ := splice_agrees_renumber alone settled 0 4294967295
  have wraps : splice [.same 5] [.integer] 0 4294967295 none = .ok [.same 4] := by decide +kernel
  refine ⟨⟨spliced, (first _).mp spliced⟩, ⟨_, later, kinds _ later, rfl⟩, fun out renumbered => ?_,
    (around _).mp wraps⟩
  have impossible := (full out).mpr renumbered
  rw [failed] at impossible
  cases impossible

end Frame

end JarGate
