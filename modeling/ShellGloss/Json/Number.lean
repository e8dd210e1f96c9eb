import ShellGloss.Json.Basic
import ShellGloss.Number.Digits
import ShellGloss.Number.Double
import ShellGloss.Number.Word

/-!
# Reading numbers

A number written as an integer is that integer when it fits into 64 bits. Any
other number stands for a double, found from at most 64 bits of its digits and a
power of ten, each rounded to the nearest double; a number whose product is too
large for a double is refused.
-/

namespace ShellGloss.Json.Number

open ShellGloss.Number

/-- Appends digits to `n` as long as the result fits into 64 bits. What is left
over is returned. -/
def extend (n : Nat) : List Char → Nat × List Char
  | [] => (n, [])
  | c :: cs =>
    if n * 10 + digitValue c < wordCount 64 then extend (n * 10 + digitValue c) cs
    else (n, c :: cs)

/-- The parts of a number: its sign, the digits before and after the point, and
the power of ten. -/
structure Parts where
  negative : Bool
  whole : List Char
  fraction : List Char
  power : Int
  integral : Bool
deriving Repr

/-- Takes a number apart. The text is one that the grammar of numbers admits. -/
def Parts.ofText (text : List Char) : Parts :=
  let negative := text.head? == some '-'
  let text := if negative then text.drop 1 else text
  let whole := text.takeWhile Char.isDigit
  let text := text.dropWhile Char.isDigit
  let pointed := text.head? == some '.'
  let text := if pointed then text.drop 1 else text
  let fraction := if pointed then text.takeWhile Char.isDigit else []
  let text := if pointed then text.dropWhile Char.isDigit else text
  let digits := text.filter Char.isDigit
  let power : Int := if text.contains '-' then -decimal digits else decimal digits
  ⟨negative, whole, fraction, power, !pointed && text.isEmpty⟩

/-- The number is no larger than a double can be. -/
def Parts.fitsDouble (p : Parts) : Bool :=
  let (n, left) := extend 0 p.whole
  let (m, leftFraction) := extend n p.fraction
  let taken := p.fraction.length - leftFraction.length
  let power : Int := left.length - taken + p.power
  m == 0 || power < 0
    || (power ≤ 308 && nearestDouble m * nearestDouble (Nat.pow 10 power.toNat) < doubleLimit)

/-- The integer that a number is. `-0` is none, for its sign would be lost. -/
def Parts.int? (p : Parts) : Option Int :=
  let n : Int := decimal p.whole
  let z := if p.negative then -n else n
  if p.integral && fitsWord 64 z && !(p.negative && n == 0) then some z else none

/-- The number that a text spells, unless it is too large. -/
def ofText? (text : List Char) : Option Number :=
  let p := Parts.ofText text
  match p.int? with
  | some z => some (.int z)
  | none => if p.fitsDouble then some (.real (String.ofList text)) else none

end ShellGloss.Json.Number
