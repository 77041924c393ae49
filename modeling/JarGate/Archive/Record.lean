import JarGate.Bytes

/-!
# Records of an archive

An archive is made of records, each of a mark and of fields whose widths are fixed; what varies in
length follows a record and is announced by its fields. `Layout.write` and `Layout.at?` write and
read the records of one kind, and the search for marks finds them.
-/

namespace JarGate.Archive

/-- The octets from one position to another, as far as there are any. -/
def slice (bytes : Array UInt8) (start stop : Nat) : Bytes :=
  (bytes.extract start stop).toList

/-- A kind of record: the octets that it starts with, and the widths of the fields behind them. -/
structure Layout where
  mark : Bytes
  widths : List Nat

namespace Layout

/-- The length of a record. -/
def size (l : Layout) : Nat :=
  l.widths.foldl (· + ·) l.mark.length

/-- The record of some values. -/
def write (l : Layout) (values : List Nat) : Bytes :=
  l.mark ++ Bytes.ofFields (l.widths.zip values)

theorem add_length_ofFields_zip (n : Nat) {widths values : List Nat}
    (h : values.length = widths.length) :
    n + (Bytes.ofFields (widths.zip values)).length = widths.foldl (· + ·) n := by
  induction widths generalizing n values with
  | nil => rfl
  | cons width widths ih =>
    match values, h with
    | value :: values, h =>
      have := ih (n + width) (by simpa using h)
      simp [Bytes.ofFields, Bytes.length_littleEndian] at this ⊢
      omega

theorem length_write {l : Layout} {values : List Nat} (h : values.length = l.widths.length) :
    (l.write values).length = l.size := by
  rw [write, size, List.length_append, add_length_ofFields_zip _ h]

/-- Whether the mark of a record stands at a position. -/
def marks (l : Layout) (bytes : Array UInt8) (position : Nat) : Bool :=
  slice bytes position (position + l.mark.length) == l.mark

/-- The values of the record at a position, if there is one. -/
def at? (l : Layout) (bytes : Array UInt8) (position : Nat) : Option (List Nat) :=
  if l.marks bytes position then
    (Bytes.fields? l.widths
      (slice bytes (position + l.mark.length) (position + l.size))).map (·.1)
  else none

/-- What stands in front of the name and the data of an entry. -/
def entry : Layout := ⟨[0x50, 0x4B, 3, 4], [2, 2, 2, 2, 2, 4, 4, 4, 2, 2]⟩

/-- What stands in front of a name in the directory. -/
def line : Layout :=
  ⟨[0x50, 0x4B, 1, 2], [2, 2, 2, 2, 2, 2, 4, 4, 4, 2, 2, 2, 2, 2, 4, 4]⟩

/-- What an archive ends with. -/
def endRecord : Layout := ⟨[0x50, 0x4B, 5, 6], [2, 2, 2, 2, 4, 4, 2]⟩

/-- What an archive also has when its numbers do not fit `endRecord`. -/
def wideEndRecord : Layout := ⟨[0x50, 0x4B, 6, 6], [8, 2, 2, 4, 4, 8, 8, 8, 8]⟩

/-- What tells where that is, right in front of `endRecord`. -/
def locator : Layout := ⟨[0x50, 0x4B, 6, 7], [4, 8, 4]⟩

end Layout

/-- The first answer at `count` positions, counted from `position`. -/
def firstFrom? {α : Type} (answer? : Nat → Option α) (position : Nat) : Nat → Option α
  | 0 => none
  | count + 1 =>
    match answer? position with
    | some a => some a
    | none => firstFrom? answer? (position + 1) count

/-- The last answer at the positions below a bound. -/
def lastBelow? {α : Type} (answer? : Nat → Option α) : Nat → Option α
  | 0 => none
  | position + 1 =>
    match answer? position with
    | some a => some a
    | none => lastBelow? answer? position

/-- The greatest number that fits a field of two octets; it also stands for any that does not. -/
def shortLimit : Nat := 0xFFFF

/-- The greatest number that fits a field of four octets; it also stands for any that does not. -/
def longLimit : Nat := 0xFFFFFFFF

end JarGate.Archive
