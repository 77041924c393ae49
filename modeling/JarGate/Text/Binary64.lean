/-!
# Floating point numbers as text

Numbers of the binary64 format, kept exactly as a significand times a power of two. A decimal text
reads as the nearest of them, ties to the even significand, and a number is written with the fewest
digits that read back. All comparisons are of natural numbers.
-/

namespace JarGate.Text

/-- The finite number `significand * 2 ^ exponent`, negated where `negative`. The exponent is at
least `-1074`, and the significand has 53 bits unless the exponent is the least. -/
structure Binary64 where
  negative : Bool
  significand : Nat
  exponent : Int
  deriving DecidableEq, Repr

namespace Binary64

/-- The least exponent. -/
def leastExponent : Int := -1074

/-- The greatest exponent. -/
def greatestExponent : Int := 971

/-- The least significand of 53 bits. -/
def leastNormal : Nat := 1 <<< 52

/-- A positive fraction, as its numerator and its denominator. -/
structure Ratio where
  num : Nat
  den : Nat

/-- A fraction times a power of a base. -/
def Ratio.scale (r : Ratio) (base : Nat) (power : Int) : Ratio :=
  if 0 ≤ power then ⟨r.num * Nat.pow base power.toNat, r.den⟩
  else ⟨r.num, r.den * Nat.pow base (-power).toNat⟩

/-- Whether one fraction is less than another. -/
def Ratio.lt (a b : Ratio) : Bool :=
  a.num * b.den < b.num * a.den

/-- The nearest whole number to a fraction, and of two the even one. -/
def Ratio.round (r : Ratio) : Nat :=
  let q := r.num / r.den
  let twice := 2 * (r.num % r.den)
  if twice < r.den then q
  else if r.den < twice then q + 1
  else q + q % 2

/-! ### Reading -/

/-- The nearest number to a positive fraction, unless it is too large for the format. -/
def ofRatio? (negative : Bool) (r : Ratio) : Option Binary64 :=
  let estimate : Int := (r.num.log2 : Int) - r.den.log2 - 52
  let exponent := if (r.scale 2 (-estimate)).lt ⟨leastNormal, 1⟩ then estimate - 1 else estimate
  let exponent := max exponent leastExponent
  let significand := (r.scale 2 (-exponent)).round
  let (significand, exponent) :=
    if significand = 2 * leastNormal then (leastNormal, exponent + 1) else (significand, exponent)
  if greatestExponent < exponent then none else some ⟨negative, significand, exponent⟩

/-- The nearest number to `n * 10 ^ power`, where `n` has the given number of digits. Powers far
outside the format are not computed. -/
def ofDecimal? (negative : Bool) (n digits : Nat) (power : Int) : Option Binary64 :=
  if n = 0 ∨ digits + power < -400 then some ⟨negative, 0, leastExponent⟩
  else if 400 < power + digits then none
  else ofRatio? negative (Ratio.scale ⟨n, 1⟩ 10 power)

/-- The number that a row of digits stands for, zero for none. -/
def natOfDigits (ds : List Char) : Nat :=
  ds.foldl (fun n d => n * 10 + (d.toNat - '0'.toNat)) 0

/-- The power of ten at the end of a number, which has to be all of the text. -/
def power? (cs : List Char) : Option Int :=
  let digits (ds : List Char) : Option Int :=
    if ds.isEmpty || !ds.all Char.isDigit then none else some (natOfDigits ds)
  match cs with
  | [] => some 0
  | e :: cs =>
    if e = 'e' ∨ e = 'E' then
      match cs with
      | '-' :: ds => (digits ds).map Int.neg
      | '+' :: ds => digits ds
      | ds => digits ds
    else none

/-- The number of a text without its sign: digits, of which some may follow a point, and perhaps a
power of ten. -/
def unsigned? (negative : Bool) (cs : List Char) : Option Binary64 :=
  let whole := cs.takeWhile Char.isDigit
  let (fraction, rest) := match cs.dropWhile Char.isDigit with
    | '.' :: rest => (rest.takeWhile Char.isDigit, rest.dropWhile Char.isDigit)
    | rest => ([], rest)
  let digits := (whole ++ fraction).dropWhile (· == '0')
  match whole ++ fraction, power? rest with
  | _ :: _, some power =>
    ofDecimal? negative (natOfDigits digits) digits.length (power - fraction.length)
  | _, _ => none

/-- The number that a text stands for, if it is a decimal number within the range of the format. -/
def parse? (text : List Char) : Option Binary64 :=
  match text with
  | '-' :: cs => unsigned? true cs
  | '+' :: cs => unsigned? false cs
  | cs => unsigned? false cs

/-! ### Writing -/

/-- The power of ten of the first digit of a fraction whose binary logarithm is known. -/
def leadingPower (r : Ratio) (log2 : Int) : Int :=
  let estimate := log2 * 30103 / 100000
  if r.lt (Ratio.scale ⟨1, 1⟩ 10 estimate) then estimate - 1
  else if r.lt (Ratio.scale ⟨1, 1⟩ 10 (estimate + 1)) then estimate
  else estimate + 1

/-- The fractions that read as one number: those between two bounds, which belong to them where
`closed`. -/
structure Interval where
  low : Ratio
  high : Ratio
  closed : Bool

/-- Whether a fraction lies in an interval. -/
def Interval.contains (i : Interval) (r : Ratio) : Bool :=
  if i.closed then !r.lt i.low && !i.high.lt r else i.low.lt r && r.lt i.high

/-- The fractions that read as `significand * 2 ^ exponent`. Where the significand is least, the
number below is only half as far away. -/
def interval (significand : Nat) (exponent : Int) : Interval :=
  let quarter (n : Nat) : Ratio := Ratio.scale ⟨n, 4⟩ 2 exponent
  let below := if significand = leastNormal ∧ leastExponent < exponent then 1 else 2
  ⟨quarter (4 * significand - below), quarter (4 * significand + 2), significand % 2 = 0⟩

/-- The nearer of the two neighbours of a fraction among the multiples of a power of ten, if either
lies in the interval. -/
def onGrid? (r : Ratio) (i : Interval) (power : Int) : Option Nat :=
  let scaled := r.scale 10 (-power)
  let n := scaled.num / scaled.den
  let inside (n : Nat) : Bool := i.contains (Ratio.scale ⟨n, 1⟩ 10 power)
  let nearest := scaled.round
  if inside nearest then some nearest
  else if inside n then some n
  else if inside (n + 1) then some (n + 1)
  else none

/-- Looks for the coarsest grid that has a point in the interval: `places` more digits after `power`
may be tried. -/
def searchGrid (r : Ratio) (i : Interval) : Nat → Int → Nat × Int
  | 0, power => ((r.scale 10 (-power)).round, power)
  | places + 1, power =>
    match onGrid? r i power with
    | some n => (n, power)
    | none => searchGrid r i places (power - 1)

/-- Moves trailing zeros of a number into the power of ten. -/
def withoutZeros : Nat → Nat → Int → Nat × Int
  | 0, n, power => (n, power)
  | fuel + 1, n, power =>
    if n ≠ 0 ∧ n % 10 = 0 then withoutZeros fuel (n / 10) (power + 1) else (n, power)

/-- The shortest decimal `n * 10 ^ power` that reads as a positive number, and of several the nearest
to it. -/
def shortest (significand : Nat) (exponent : Int) : Nat × Int :=
  let r : Ratio := Ratio.scale ⟨significand, 1⟩ 2 exponent
  let first := leadingPower r (significand.log2 + exponent)
  let (n, power) := searchGrid r (interval significand exponent) 16 first
  withoutZeros 20 n power

/-- Digits with a point, or with a power of ten where that would need too many zeros. `point` is the
position of the point after the first digit. -/
def layOut (digits : List Char) (power : Int) : List Char :=
  let point : Int := digits.length + power
  if 0 ≤ power ∧ point ≤ 16 then digits ++ List.replicate power.toNat '0' ++ ['.', '0']
  else if 0 < point ∧ point ≤ 16 then
    digits.take point.toNat ++ '.' :: digits.drop point.toNat
  else if -5 < point ∧ point ≤ 0 then
    ['0', '.'] ++ List.replicate (-point).toNat '0' ++ digits
  else
    let fraction := if digits.length = 1 then [] else '.' :: digits.drop 1
    digits.take 1 ++ fraction ++ 'e' :: (toString (point - 1)).toList

/-- The text of a number. -/
def render (x : Binary64) : String :=
  let text :=
    if x.significand = 0 then ['0', '.', '0']
    else
      let (n, power) := shortest x.significand x.exponent
      layOut (Nat.toDigits 10 n) power
  String.ofList (if x.negative then '-' :: text else text)

end Binary64

end JarGate.Text
