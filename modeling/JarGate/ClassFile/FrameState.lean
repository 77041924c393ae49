import JarGate.ClassFile.Frame

/-!
# Verifier states

A table of frames stands for a list of states, each at an offset (`expand`), and `compress` writes
states as frames again. On top of these, `renumber` moves a table through a map of offsets and keeps
the kind of each frame, and `splice` makes room in it for code that was inserted.
-/

namespace JarGate

/-- A sum of offsets. Offsets are counted in words of 32 bits, so a sum that does not fit wraps around. -/
def wrapped (sum : Nat) : Nat := sum % 0x100000000

theorem wrapped_lt (sum : Nat) : wrapped sum < 0x100000000 := Nat.mod_lt sum (by decide)

theorem wrapped_of_lt {sum : Nat} (fits : sum < 0x100000000) : wrapped sum = sum :=
  Nat.mod_eq_of_lt fits

/-- The types that the verifier finds at a place. A `long` or a `double` is a single entry. -/
structure FrameState where
  locals : List VerificationType
  stack : List VerificationType
  deriving DecidableEq, Repr

namespace FrameState

/-- A state whose stack is empty, as at the entry of a method. -/
def entry (locals : List VerificationType) : FrameState := ⟨locals, []⟩

/-- Moves the offsets of uninitialized objects. -/
def moved (move : Nat → Option Nat) (s : FrameState) : Except ClassError FrameState := do
  return ⟨← s.locals.mapM (·.moved move), ← s.stack.mapM (·.moved move)⟩

end FrameState

namespace Frame

/-- The state that a frame describes after the locals of the frame before it. -/
def apply (f : Frame) (before : List VerificationType) : Except ClassError FrameState :=
  match f with
  | same _ | sameExtended _ => .ok (.entry before)
  | oneStack _ t | oneStackExtended _ t => .ok ⟨before, [t]⟩
  | chop _ count =>
    if count.toNat ≤ before.length then .ok (.entry (before.take (before.length - count.toNat)))
    else .error (.malformed (.chop count.toNat before.length))
  | append _ locals => .ok (.entry (before ++ locals))
  | full _ locals stack => .ok ⟨locals, stack⟩

/-- The offset of a frame, given that of the frame before it. -/
def offsetAfter (previous : Option Nat) (f : Frame) : Nat :=
  match previous with
  | none => f.delta.toNat
  | some p => wrapped (p + f.delta.toNat + 1)

/-- The delta that a frame at an offset needs after the frame before it. -/
def deltaAfter (previous : Option Nat) (offset : Nat) : Except ClassError Nat :=
  match previous with
  | none => .ok offset
  | some p =>
    if p < offset then .ok (offset - p - 1)
    else .error (.malformed (.frameOrder offset p))

/-- `offsetsOnto done previous frames` gives the offsets of frames behind those of `done` reversed. -/
def offsetsOnto (done : List Nat) (previous : Option Nat) : List Frame → List Nat
  | [] => done.reverse
  | f :: fs =>
    let offset := offsetAfter previous f
    offsetsOnto (offset :: done) (some offset) fs

/-- The offsets that the frames of a table describe. -/
def offsets (frames : List Frame) : List Nat :=
  offsetsOnto [] none frames

/-- Expands frames behind the states of `done` reversed. -/
def expandOnto (done : List (Nat × FrameState)) (previous : Option Nat)
    (locals : List VerificationType) : List Frame → Except ClassError (List (Nat × FrameState))
  | [] => .ok done.reverse
  | f :: fs =>
    let offset := offsetAfter previous f
    match f.apply locals with
    | .error e => .error e
    | .ok state => expandOnto ((offset, state) :: done) (some offset) state.locals fs

/-- The states that the frames of a table describe, for the locals at the entry of the method. -/
def expand (frames : List Frame) (initial : List VerificationType) :
    Except ClassError (List (Nat × FrameState)) :=
  expandOnto [] none initial frames

/-- A frame in the smallest form that describes a state, at distance zero. -/
def smallest (before : List VerificationType) (state : FrameState) : Frame :=
  let full := Frame.full 0 state.locals state.stack
  match state.stack with
  | [] =>
    if state.locals = before then same 0
    else if state.locals.length < before.length ∧ before.length - state.locals.length ≤ 3 ∧
        state.locals <+: before then
      chop 0 (UInt8.ofNat (before.length - state.locals.length))
    else if before.length < state.locals.length ∧ state.locals.length - before.length ≤ 3 ∧
        before <+: state.locals then
      append 0 (state.locals.drop before.length)
    else full
  | [t] => if state.locals = before then oneStack 0 t else full
  | _ => full

/-- The hint itself where it describes the state, otherwise the smallest frame that does. -/
def choose (before : List VerificationType) (state : FrameState) (hint : Option Frame) : Frame :=
  match hint with
  | none => smallest before state
  | some f =>
    match f.apply before with
    | .ok s => if s = state then f else smallest before state
    | .error _ => smallest before state

/-- Compresses states behind the frames of `done` reversed. -/
def compressOnto (done : List Frame) (previous : Option Nat) (locals : List VerificationType)
    (hints : List (Option Frame)) : List (Nat × FrameState) → Except ClassError (List Frame)
  | [] => .ok done.reverse
  | (offset, state) :: states =>
    match deltaAfter previous offset with
    | .error e => .error e
    | .ok delta =>
      match (choose locals state hints.head?.join).withDelta delta with
      | .error e => .error e
      | .ok f => compressOnto (f :: done) (some offset) state.locals hints.tail states

/-- Frames that describe states. A hint is the frame that a state came from; its kind is kept where
it still fits, and without one the smallest frame is taken. -/
def compress (states : List (Nat × FrameState)) (initial : List VerificationType)
    (hints : List (Option Frame)) : Except ClassError (List Frame) :=
  compressOnto [] none initial hints states

/-- Renumbers frames behind those of `done` reversed. `previous` and `target` are the offsets of the
frame before them, in the old and in the new numbering. -/
def renumberOnto (move : Nat → Option Nat) (done : List Frame) (previous target : Option Nat) :
    List Frame → Except ClassError (List Frame)
  | [] => .ok done.reverse
  | f :: fs =>
    let offset := offsetAfter previous f
    match move offset with
    | none => .error (.malformed (.notBoundary offset))
    | some o =>
      match deltaAfter target o with
      | .error e => .error e
      | .ok delta =>
        match f.movedTypes move with
        | .error e => .error e
        | .ok g =>
          match g.withDelta delta with
          | .error e => .error e
          | .ok g => renumberOnto move (g :: done) (some offset) (some o) fs

/-- Moves the offsets of frames and of uninitialized objects through a partial map. Each frame keeps
its kind, or takes the extended form of it. -/
def renumber (frames : List Frame) (move : Nat → Option Nat) : Except ClassError (List Frame) :=
  renumberOnto move [] none none frames

/-- Where an offset lies after `len` octets were inserted at `start`. -/
def shift (start len offset : Nat) : Nat :=
  if start ≤ offset then wrapped (offset + len) else offset

/-- A list of states and one of hints, with a state put at its place by offset unless there is one
at that offset already. -/
def insertState (offset : Nat) (state : FrameState) (states : List (Nat × FrameState))
    (hints : List (Option Frame)) : List (Nat × FrameState) × List (Option Frame) :=
  if states.any (·.1 = offset) then (states, hints)
  else
    let before := (states.takeWhile (·.1 < offset)).length
    (states.take before ++ (offset, state) :: states.drop before,
      hints.take before ++ none :: hints.drop before)

/-- The frames of a method after `len` octets of code were inserted at `start`. The state `live`
describes the end of the inserted code, where the inserted code branches to it. -/
def splice (frames : List Frame) (initial : List VerificationType) (start len : Nat)
    (live : Option FrameState) : Except ClassError (List Frame) := do
  let move (o : Nat) : Option Nat := some (shift start len o)
  let states ← expand frames initial
  let moved ← (states.zip frames).mapM fun ((offset, state), frame) => do
    let state ← state.moved move
    let frame ← frame.movedTypes move
    return ((shift start len offset, state), some frame)
  let (states, hints) := match live with
    | none => (moved.map (·.1), moved.map (·.2))
    | some state => insertState (wrapped (start + len)) state (moved.map (·.1)) (moved.map (·.2))
  compress states initial hints

/-- The locals at the entry of a method, as the verifier computes them. -/
def initialLocals (className : String) (isStatic : Bool) (methodName : String)
    (descriptor : MethodDescriptor) : ConstantPool.Addition (List VerificationType) := do
  let receiver ←
    if isStatic then pure []
    else if methodName == "<init>" && className != "java/lang/Object" then
      pure [VerificationType.uninitializedThis]
    else do
      pure [VerificationType.object (← ConstantPool.addClass className)]
  return receiver ++ (← descriptor.params.mapM VerificationType.ofField)

end Frame

end JarGate
