import JarGate.ClassFile.ConstantPool
import JarGate.ClassFile.Descriptor

/-!
# Stack map frames

A frame tells the verifier which types the local variables and the operand stack hold at a place in
the code. Frames are kept in the compressed form of the format, where each is written relative to the
one before it, so that a table nobody touched is written as it was read.
-/

namespace JarGate

/-- The type of a value as the verifier sees it. -/
inductive VerificationType where
  | top | integer | float | double | long | null | uninitializedThis
  /-- An instance of the class that a `Class` constant names. -/
  | object (index : UInt16)
  /-- What the `new` instruction at an offset made and no constructor has seen. -/
  | uninitialized (offset : UInt16)
  deriving DecidableEq, Repr

namespace VerificationType

/-- Reads a verification type. -/
def read : Decoder VerificationType := do
  match ← Decoder.u8 with
  | 0 => return top
  | 1 => return integer
  | 2 => return float
  | 3 => return double
  | 4 => return long
  | 5 => return null
  | 6 => return uninitializedThis
  | 7 => return object (← Decoder.u16)
  | 8 => return uninitialized (← Decoder.u16)
  | tag => Decoder.fault (.verificationTag tag)

/-- The octets of a verification type. -/
def write : VerificationType → Bytes
  | top => [0]
  | integer => [1]
  | float => [2]
  | double => [3]
  | long => [4]
  | null => [5]
  | uninitializedThis => [6]
  | object index => 7 :: be16 index
  | uninitialized offset => 8 :: be16 offset

/-- The verifier's view of a value of a declared type. -/
def ofField (t : FieldType) : ConstantPool.Addition VerificationType :=
  match t with
  | .float => return float
  | .long => return long
  | .double => return double
  | .object _ | .array _ => do
    return object (← ConstantPool.addClass (t.className?.getD ""))
  | _ => return integer

/-- Moves the offset of an uninitialized object. -/
def moved (move : Nat → Option Nat) (t : VerificationType) :
    Except ClassError VerificationType :=
  match t with
  | uninitialized offset =>
    match move offset.toNat with
    | none => .error (.malformed (.notBoundary offset.toNat))
    | some o =>
      if o < 0x10000 then .ok (uninitialized (UInt16.ofNat o))
      else .error (.overflow (.uninitialized o))
  | other => .ok other

end VerificationType

/-- A frame as the format writes it. The delta is the distance from the frame before, less one. -/
inductive Frame where
  | same (delta : UInt16)
  | sameExtended (delta : UInt16)
  | oneStack (delta : UInt16) (stack : VerificationType)
  | oneStackExtended (delta : UInt16) (stack : VerificationType)
  | chop (delta : UInt16) (count : UInt8)
  | append (delta : UInt16) (locals : List VerificationType)
  | full (delta : UInt16) (locals stack : List VerificationType)
  deriving DecidableEq, Repr

namespace Frame

/-- The written distance from the frame before. -/
def delta : Frame → UInt16
  | same d | sameExtended d | oneStack d _ | oneStackExtended d _ | chop d _ | append d _
  | full d _ _ => d

/-- The largest delta of the forms that keep it in their tag. -/
def maxShortDelta : Nat := 63

/-- The same kind of frame at another distance; a short form gives way to its extended form where the
distance needs it. -/
def withDelta (f : Frame) (delta : Nat) : Except ClassError Frame :=
  if delta < 0x10000 then
    let d := UInt16.ofNat delta
    .ok <| match f with
    | same _ => if delta ≤ maxShortDelta then same d else sameExtended d
    | sameExtended _ => sameExtended d
    | oneStack _ t => if delta ≤ maxShortDelta then oneStack d t else oneStackExtended d t
    | oneStackExtended _ t => oneStackExtended d t
    | chop _ count => chop d count
    | append _ locals => append d locals
    | full _ locals stack => full d locals stack
  else .error (.overflow (.frameDelta delta))

/-- Moves the offsets of uninitialized objects. -/
def movedTypes (move : Nat → Option Nat) (f : Frame) : Except ClassError Frame :=
  match f with
  | oneStack d t => do return oneStack d (← t.moved move)
  | oneStackExtended d t => do return oneStackExtended d (← t.moved move)
  | append d locals => do return append d (← locals.mapM (·.moved move))
  | full d locals stack => do
    return full d (← locals.mapM (·.moved move)) (← stack.mapM (·.moved move))
  | other => .ok other

/-- Reads a frame. The tag names the form, and in the short forms the distance as well. -/
def read : Decoder Frame := do
  let tag ← Decoder.u8
  if tag ≤ 63 then return same tag.toUInt16
  else if tag ≤ 127 then return oneStack (tag - 64).toUInt16 (← VerificationType.read)
  else if tag ≤ 246 then Decoder.fault (.frameType tag)
  else if tag = 247 then return oneStackExtended (← Decoder.u16) (← VerificationType.read)
  else if tag ≤ 250 then return chop (← Decoder.u16) (251 - tag)
  else if tag = 251 then return sameExtended (← Decoder.u16)
  else if tag ≤ 254 then
    let d ← Decoder.u16
    return append d (← Decoder.many (tag - 251).toNat VerificationType.read)
  else
    let d ← Decoder.u16
    let locals ← Decoder.many (← Decoder.u16).toNat VerificationType.read
    let stack ← Decoder.many (← Decoder.u16).toNat VerificationType.read
    return full d locals stack

/-- The octets of a frame. The tag is computed in eight bits, without a check that the distance or
the number of locals suits the form. -/
def write (f : Frame) : Except ClassError Bytes :=
  match f with
  | same d => .ok [d.toUInt8]
  | oneStack d t => .ok ((64 + d.toUInt8) :: t.write)
  | oneStackExtended d t => .ok (247 :: be16 d ++ t.write)
  | chop d count => .ok ((251 - count) :: be16 d)
  | sameExtended d => .ok (251 :: be16 d)
  | append d locals =>
    .ok ((251 + UInt8.ofNat locals.length) :: be16 d ++ locals.flatMap VerificationType.write)
  | full d locals stack => do
    let nlocals ← entryCount "frame locals" locals.length
    let nstack ← entryCount "frame stack" stack.length
    return 255 :: be16 d ++ be16 nlocals ++ locals.flatMap VerificationType.write ++
      be16 nstack ++ stack.flatMap VerificationType.write

/-- Reads the body of a table of frames. -/
def readTable (body : Bytes) : Except ClassError (List Frame) :=
  Decoder.onAll (do Decoder.many (← Decoder.u16).toNat read) .frameTrailing body

/-- The body of a table of frames. -/
def writeTable (frames : List Frame) : Except ClassError Bytes := do
  let count ← entryCount "StackMapTable" frames.length
  return be16 count ++ (← frames.mapM write).flatten

end Frame

end JarGate
