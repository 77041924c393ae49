import JarGate.Bytes

/-!
# Times of entries

Archives say when an entry was last changed in two words of sixteen bits, with two seconds as the
unit and the years counted from 1980.
-/

namespace JarGate.Archive

/-- A date and a time of day. -/
structure Timestamp where
  year : Nat
  month : Nat
  day : Nat
  hour : Nat
  minute : Nat
  second : Nat
  deriving DecidableEq, Repr

namespace Timestamp

/-- The first time that an archive can give. Entries that are not copied from another archive have
it. -/
def earliest : Timestamp := ⟨1980, 1, 1, 0, 0, 0⟩

/-- Whether a year has a leap day. -/
def isLeap (year : Nat) : Bool :=
  year % 4 == 0 && (year % 100 != 0 || year % 400 == 0)

/-- How many days a month has. -/
def daysIn (year month : Nat) : Nat :=
  if month = 2 then (if isLeap year then 29 else 28)
  else if month ∈ [4, 6, 9, 11] then 30
  else 31

/-- The date and the time of two words, if there is such a date and such a time. A leap second is
taken for the last even second before it. -/
def ofWords? (date time : Nat) : Option Timestamp :=
  let year := 1980 + date / 512
  let month := date / 32 % 16
  let day := date % 32
  let hour := time / 2048
  let minute := time / 32 % 64
  let second := time % 32 * 2
  if 1 ≤ month ∧ month ≤ 12 ∧ 1 ≤ day ∧ day ≤ daysIn year month ∧ hour ≤ 23 ∧ minute ≤ 59 ∧
      second ≤ 60 then
    some ⟨year, month, day, hour, minute, min second 58⟩
  else none

/-- The word for the date. -/
def dateWord (t : Timestamp) : Nat :=
  (t.year - 1980) * 512 + t.month * 32 + t.day

/-- The word for the time of day. -/
def timeWord (t : Timestamp) : Nat :=
  t.hour * 2048 + t.minute * 32 + t.second / 2

/-- The text of a date and a time, without zeros in front of the numbers. -/
def text (t : Timestamp) : String :=
  String.intercalate "-" ([t.year, t.month, t.day].map toString) ++ " " ++
    String.intercalate ":" ([t.hour, t.minute, t.second].map toString)

end Timestamp

end JarGate.Archive
