import JarGate.ClassFile.Cursor

/-!
# Constants

One entry of a constant pool, its kind, and its octets: a tag and the fields that the tag calls for.
-/

namespace JarGate

/-- An entry of a constant pool. Texts keep the octets they were read from, and numbers with a
fraction their bits, so that what is written again is what was read. -/
inductive Constant where
  /-- No constant: index zero, and the index after a constant of eight octets. -/
  | unusable
  | utf8 (octets : Bytes)
  | integer (value : Int32)
  | float (bits : UInt32)
  | long (value : Int64)
  | double (bits : UInt64)
  | classInfo (name : UInt16)
  | string (value : UInt16)
  | fieldRef (owner signature : UInt16)
  | methodRef (owner signature : UInt16)
  | interfaceMethodRef (owner signature : UInt16)
  | nameAndType (name descriptor : UInt16)
  | methodHandle (kind : UInt8) (reference : UInt16)
  | methodType (descriptor : UInt16)
  | dynamic (bootstrap signature : UInt16)
  | invokeDynamic (bootstrap signature : UInt16)
  | moduleInfo (name : UInt16)
  | packageInfo (name : UInt16)
  deriving DecidableEq, Repr

namespace Constant

/-- The kind of a constant. -/
def kind : Constant → ConstantKind
  | unusable => .unusable
  | utf8 _ => .utf8
  | integer _ => .integer
  | float _ => .float
  | long _ => .long
  | double _ => .double
  | classInfo _ => .classInfo
  | string _ => .string
  | fieldRef _ _ => .fieldRef
  | methodRef _ _ => .methodRef
  | interfaceMethodRef _ _ => .interfaceMethodRef
  | nameAndType _ _ => .nameAndType
  | methodHandle _ _ => .methodHandle
  | methodType _ => .methodType
  | dynamic _ _ => .dynamic
  | invokeDynamic _ _ => .invokeDynamic
  | moduleInfo _ => .moduleInfo
  | packageInfo _ => .packageInfo

/-- Whether a constant takes the index after its own as well. -/
def isWide : Constant → Bool
  | long _ | double _ => true
  | _ => false

/-- Reads the constant of a pool index. -/
def read (index : Nat) : Decoder Constant := do
  match ← Decoder.u8 with
  | 1 => return utf8 (← Decoder.take (← Decoder.u16).toNat)
  | 3 => return integer (← Decoder.i32)
  | 4 => return float (← Decoder.u32)
  | 5 => return long (← Decoder.u64).toInt64
  | 6 => return double (← Decoder.u64)
  | 7 => return classInfo (← Decoder.u16)
  | 8 => return string (← Decoder.u16)
  | 9 => return fieldRef (← Decoder.u16) (← Decoder.u16)
  | 10 => return methodRef (← Decoder.u16) (← Decoder.u16)
  | 11 => return interfaceMethodRef (← Decoder.u16) (← Decoder.u16)
  | 12 => return nameAndType (← Decoder.u16) (← Decoder.u16)
  | 15 => return methodHandle (← Decoder.u8) (← Decoder.u16)
  | 16 => return methodType (← Decoder.u16)
  | 17 => return dynamic (← Decoder.u16) (← Decoder.u16)
  | 18 => return invokeDynamic (← Decoder.u16) (← Decoder.u16)
  | 19 => return moduleInfo (← Decoder.u16)
  | 20 => return packageInfo (← Decoder.u16)
  | tag => Decoder.fault (.unknownTag tag index)

/-- The octets of a constant. -/
def write : Constant → Except ClassError Bytes
  | unusable => .ok []
  | utf8 octets =>
    if octets.length < 0x10000 then
      .ok (1 :: be16 (UInt16.ofNat octets.length) ++ octets)
    else .error (.overflow (.utf8Length octets.length))
  | integer value => .ok (3 :: be32 value.toUInt32)
  | float bits => .ok (4 :: be32 bits)
  | long value => .ok (5 :: be64 value.toUInt64)
  | double bits => .ok (6 :: be64 bits)
  | classInfo name => .ok (7 :: be16 name)
  | string value => .ok (8 :: be16 value)
  | fieldRef owner signature => .ok (9 :: be16 owner ++ be16 signature)
  | methodRef owner signature => .ok (10 :: be16 owner ++ be16 signature)
  | interfaceMethodRef owner signature => .ok (11 :: be16 owner ++ be16 signature)
  | nameAndType name descriptor => .ok (12 :: be16 name ++ be16 descriptor)
  | methodHandle kind reference => .ok (15 :: kind :: be16 reference)
  | methodType descriptor => .ok (16 :: be16 descriptor)
  | dynamic bootstrap signature => .ok (17 :: be16 bootstrap ++ be16 signature)
  | invokeDynamic bootstrap signature => .ok (18 :: be16 bootstrap ++ be16 signature)
  | moduleInfo name => .ok (19 :: be16 name)
  | packageInfo name => .ok (20 :: be16 name)

end Constant

end JarGate
