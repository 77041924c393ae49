import JarGate.ClassFile.Code.Depth

/-!
# The `Code` attribute

Reading and writing method bodies. What is read has every offset on the first octet of an instruction
or, for the end of a range, at the end of the code. What is written has no gaps, and declares enough
stack and enough local variables.
-/

namespace JarGate

namespace Code

/-- The places of code that was read: the starts of its instructions, and its length. -/
structure Places where
  starts : Std.HashSet Nat
  length : Nat

/-- Whether an instruction starts at an offset. -/
def Places.isStart (p : Places) (offset : Nat) : Bool :=
  p.starts.contains offset

/-- Whether a range may end at an offset. -/
def Places.isEnd (p : Places) (offset : Nat) : Bool :=
  offset == p.length || p.starts.contains offset

/-! ### Reading -/

/-- Reads a handler and checks its range and its type. -/
def readHandler (pool : ConstantPool) (places : Places) : Decoder Handler := do
  let start := (← Decoder.u16).toNat
  let stop := (← Decoder.u16).toNat
  let handler := (← Decoder.u16).toNat
  let catchType ← Decoder.u16
  if !(places.isStart start && places.isEnd stop && start < stop && places.isStart handler) then
    Decoder.fault (.handlerRange start stop handler)
  if catchType ≠ 0 then
    match ← (pool.get catchType : Except ClassError Constant) with
    | .classInfo _ => pure ()
    | _ => Decoder.fault (.catchType catchType)
  return { start, stop, handler, catchType }

/-- Reads the start of a line. -/
def readLine : Decoder LineNumber := do
  return { start := (← Decoder.u16).toNat, line := ← Decoder.u16 }

/-- Reads the range of a variable. -/
def readVariable : Decoder LocalVariable := do
  return {
    start := (← Decoder.u16).toNat
    length := (← Decoder.u16).toNat
    name := ← Decoder.u16
    type := ← Decoder.u16
    slot := ← Decoder.u16 }

/-- Reads a table whose number of entries comes first. -/
def readTable {α : Type} (entry : Decoder α) (trailing : Fault) (body : Bytes) :
    Except ClassError (List α) :=
  Decoder.onAll (do Decoder.many (← Decoder.u16).toNat entry) (fun _ => trailing) body

/-- Reads the attribute that a name announces. -/
def readAttribute (places : Places) (name : String) (nameIndex : UInt16) (body : Bytes) :
    Except ClassError CodeAttribute := do
  if name == "StackMapTable" then
    return .stackMap nameIndex (← Frame.readTable body)
  else if name == "LineNumberTable" then
    let entries ← readTable readLine .lineNumberLength body
    match entries.find? fun e => !places.isStart e.start with
    | some e => throw (.malformed (.lineNumber e.start))
    | none => return .lineNumbers nameIndex entries
  else if name == "LocalVariableTable" || name == "LocalVariableTypeTable" then
    let entries ← readTable readVariable .variableLength body
    match entries.find? fun e => !(places.isStart e.start && places.isEnd (e.start + e.length)) with
    | some e => throw (.malformed (.variableRange e.start e.length))
    | none => return .variables (name == "LocalVariableTypeTable") nameIndex entries
  else return .other ⟨nameIndex, body⟩

/-- Reads an attribute of a method body. -/
def readCodeAttribute (pool : ConstantPool) (places : Places) : Decoder CodeAttribute := do
  let nameIndex ← Decoder.u16
  let body ← Decoder.take (← Decoder.u32).toNat
  let name ← (pool.utf8 nameIndex : Except ClassError String)
  (readAttribute places name nameIndex body : Except ClassError CodeAttribute)

/-- Reads a method body. -/
def readBody (pool : ConstantPool) : Decoder Code := do
  let maxStack ← Decoder.u16
  let maxLocals ← Decoder.u16
  let length ← Decoder.u32
  if length = 0 ∨ maxCodeLength < length.toNat then Decoder.fault (.codeLength length)
  let octets ← Decoder.take length.toNat
  let instructions ← (Instruction.readAll octets : Except ClassError (List Placed))
  let places : Places := ⟨Instruction.boundaries instructions, length.toNat⟩
  let handlers ← Decoder.many (← Decoder.u16).toNat (readHandler pool places)
  let attributes ← Decoder.many (← Decoder.u16).toNat (readCodeAttribute pool places)
  return { maxStack, maxLocals, instructions, handlers, attributes }

/-- The method body that an attribute holds. -/
def read (pool : ConstantPool) (body : Bytes) : Except ClassError Code :=
  Decoder.onAll (readBody pool) .codeTrailing body

/-! ### Writing -/

/-- The octets of a code offset. -/
def offsetBytes (offset : Nat) : Except ClassError Bytes :=
  if offset < 0x10000 then .ok (be16 (UInt16.ofNat offset))
  else .error (.overflow (.codeOffset offset))

/-- The octets of a handler. -/
def writeHandler (h : Handler) : Except ClassError Bytes := do
  return (← offsetBytes h.start) ++ (← offsetBytes h.stop) ++ (← offsetBytes h.handler) ++
    be16 h.catchType

/-- The octets of the start of a line. -/
def writeLine (e : LineNumber) : Except ClassError Bytes := do
  return (← offsetBytes e.start) ++ be16 e.line

/-- The octets of the range of a variable. -/
def writeVariable (e : LocalVariable) : Except ClassError Bytes := do
  return (← offsetBytes e.start) ++ (← offsetBytes e.length) ++ be16 e.name ++ be16 e.type ++
    be16 e.slot

/-- The octets of a table, its number of entries first. -/
def writeTable {α : Type} (what : String) (entry : α → Except ClassError Bytes) (entries : List α) :
    Except ClassError Bytes := do
  let count ← entryCount what entries.length
  return be16 count ++ (← entries.mapM entry).flatten

/-- The octets of an attribute of a method body. -/
def writeAttribute : CodeAttribute → Except ClassError Bytes
  | .stackMap name frames => do attributeBytes name (← Frame.writeTable frames)
  | .lineNumbers name entries => do
    attributeBytes name (← writeTable "LineNumberTable" writeLine entries)
  | .variables _ name entries => do
    attributeBytes name (← writeTable "LocalVariableTable" writeVariable entries)
  | .other raw => attributeBytes raw.name raw.body

/-- The octets of a method body without gaps, for the descriptor of its method. -/
def writeLaidOut (c : Code) (pool : ConstantPool) (descriptor : MethodDescriptor)
    (isStatic : Bool) : Except ClassError Bytes := do
  let code ← Instruction.writeAll c.instructions
  if maxCodeLength < code.length then throw (.overflow (.codeSize code.length))
  let maxStack := max c.maxStack (← c.neededStack pool)
  let maxLocals := max c.maxLocals (c.neededLocals descriptor isStatic)
  let handlers ← writeTable "exception table" writeHandler c.handlers
  let attributes ← writeTable "Code attributes" writeAttribute c.attributes
  let body := be16 maxStack ++ be16 maxLocals ++ be32 (UInt32.ofNat code.length) ++ code ++
    handlers ++ attributes
  let _ ← octetCount "Code attribute" body.length
  return body

/-- The octets of a method body. Gaps are closed first. -/
def write (c : Code) (pool : ConstantPool) (descriptor : MethodDescriptor) (isStatic : Bool) :
    Except ClassError Bytes :=
  match relayout c with
  | .ok _ c => c.writeLaidOut pool descriptor isStatic
  | .error e _ => .error e

end Code

end JarGate
