/-!
# Decimal numbers

Unsigned numbers as people type them: digits, with a plus sign allowed in front, and nothing else.
-/

namespace JarGate.Text.Decimal

/-- The number that a row of digits stands for. -/
def ofDigits? : List Char → Option Nat
  | [] => none
  | ds =>
    if ds.all Char.isDigit then some (ds.foldl (fun n d => n * 10 + (d.toNat - '0'.toNat)) 0)
    else none

/-- The number below `bound` that a text stands for. -/
def below? (bound : Nat) (text : List Char) : Option Nat :=
  let digits := match text with
    | '+' :: digits => digits
    | digits => digits
  match ofDigits? digits with
  | some n => if n < bound then some n else none
  | none => none

end JarGate.Text.Decimal
