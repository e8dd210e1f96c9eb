import ShellGloss.Number.Digits
import ShellGloss.Number.Double
import ShellGloss.Number.Word
import ShellGloss.Toml.Basic

/-!
# Numbers, dates and truth values

A scalar without quotation marks is a run of letters, digits and a few signs;
`scalarOf?` says what such a run means. Only a date may go on, with a time, after
a space.
-/

namespace ShellGloss.Toml

open ShellGloss.Number

/-- A character of a scalar without quotation marks. -/
def isScalarChar (c : Char) : Bool :=
  c.isAlphanum || c = '_' || c = '-' || c = '+' || c = '.' || c = ':'

/-! ## Numbers -/

/-- Digits, perhaps with single underscores between them. -/
def isSpaced (isDigit : Char → Bool) : List Char → Bool
  | [] => false
  | [c] => isDigit c
  | c :: '_' :: cs => isDigit c && isSpaced isDigit cs
  | c :: cs => isDigit c && isSpaced isDigit cs

/-- Digits without the underscores between them. -/
def unspaced (cs : List Char) : List Char :=
  cs.filter (· ≠ '_')

/-- A text without the sign in front, and whether that is a minus. -/
def takeSign : List Char → Bool × List Char
  | '-' :: cs => (true, cs)
  | '+' :: cs => (false, cs)
  | cs => (false, cs)

/-- Decimal digits that do not begin with a zero, except for zero itself. -/
def isWhole (cs : List Char) : Bool :=
  isSpaced Char.isDigit cs && (cs.head? ≠ some '0' || cs.length = 1)

/-- The number that digits of a base spell. -/
def inBase (base : Nat) (cs : List Char) : Nat :=
  cs.foldl (fun n c => n * base + (hexDigit? c).getD 0) 0

/-- A digit of a base. -/
def isDigitOf (base : Nat) (c : Char) : Bool :=
  match hexDigit? c with
  | some d => d < base
  | none => false

/-- A natural number in a base other than ten. -/
def basedInt? (base : Nat) (cs : List Char) : Option Int :=
  let n : Int := inBase base (unspaced cs)
  if isSpaced (isDigitOf base) cs && fitsSigned 64 n then some n else none

/-- An integer of 64 bits. -/
def int? (cs : List Char) : Option Int :=
  match cs with
  | '0' :: 'x' :: cs => basedInt? 16 cs
  | '0' :: 'o' :: cs => basedInt? 8 cs
  | '0' :: 'b' :: cs => basedInt? 2 cs
  | _ =>
    let (negative, digits) := takeSign cs
    let n : Int := decimal (unspaced digits)
    let z := if negative then -n else n
    if isWhole digits && fitsSigned 64 z then some z else none

/-- The exponent of a number, after its letter. -/
def exponent? (cs : List Char) : Option Int :=
  let (negative, digits) := takeSign cs
  let n : Int := decimal (unspaced digits)
  if isSpaced Char.isDigit digits then some (if negative then -n else n) else none

/-- A number has a fraction or an exponent, or both. One that is too large may
only be negative. -/
def isFloat (cs : List Char) : Bool :=
  let (negative, cs) := takeSign cs
  if cs = ['i', 'n', 'f'] || cs = ['n', 'a', 'n'] then true
  else
    let isMark := fun c : Char => c = 'e' || c = 'E'
    let mantissa := cs.takeWhile fun c => !isMark c
    let mark := cs.dropWhile fun c => !isMark c
    let whole := mantissa.takeWhile (· ≠ '.')
    let point := mantissa.dropWhile (· ≠ '.')
    let fraction := point.drop 1
    let power := if mark.isEmpty then some 0 else exponent? (mark.drop 1)
    match power with
    | none => false
    | some power =>
      isWhole whole
        && (point.isEmpty || isSpaced Char.isDigit fraction)
        && !(point.isEmpty && mark.isEmpty)
        && (negative
          || fitsDouble (decimal (unspaced (whole ++ fraction)))
            (power - (unspaced fraction).length))

/-! ## Dates and times -/

/-- The number of exactly `n` digits, and what is left. -/
def digits? (n : Nat) (cs : List Char) : Option (Nat × List Char) :=
  let ds := cs.take n
  if ds.length = n && ds.all Char.isDigit then some (decimal ds, cs.drop n) else none

/-- A given character, and what is left. -/
def char? (c : Char) : List Char → Option (List Char)
  | [] => none
  | d :: cs => if d = c then some cs else none

/-- The days of a month. -/
def daysOf (year month : Nat) : Nat :=
  let leap := year % 4 = 0 && (year % 100 ≠ 0 || year % 400 = 0)
  if month = 2 then (if leap then 29 else 28)
  else if month = 4 || month = 6 || month = 9 || month = 11 then 30
  else 31

/-- A number of at least two digits. -/
def twoDigits (n : Nat) : String :=
  if n < 10 then "0" ++ toString n else toString n

/-- A date, as it is usually written. -/
def date? (cs : List Char) : Option (String × List Char) := do
  let text := String.ofList (cs.take 10)
  let (year, cs) ← digits? 4 cs
  let cs ← char? '-' cs
  let (month, cs) ← digits? 2 cs
  let cs ← char? '-' cs
  let (day, cs) ← digits? 2 cs
  if 1 ≤ month && month ≤ 12 && 1 ≤ day && day ≤ daysOf year month then some (text, cs) else none

/-- The fraction of a second: nine digits of it, without zeros at the end. -/
def fractionText (digits : List Char) : String :=
  match ((digits.take 9).reverse.dropWhile (· = '0')).reverse with
  | [] => ""
  | ds => "." ++ String.ofList ds

/-- The fraction of a second, if there is one, as it is usually written. -/
def fraction? : List Char → Option (String × List Char)
  | '.' :: cs =>
    let ds := cs.takeWhile Char.isDigit
    if ds.isEmpty then none else some (fractionText ds, cs.dropWhile Char.isDigit)
  | cs => some ("", cs)

/-- A time, as it is usually written. -/
def time? (cs : List Char) : Option (String × List Char) := do
  let text := String.ofList (cs.take 8)
  let (hour, cs) ← digits? 2 cs
  let cs ← char? ':' cs
  let (minute, cs) ← digits? 2 cs
  let cs ← char? ':' cs
  let (second, cs) ← digits? 2 cs
  let (fraction, cs) ← fraction? cs
  if hour ≤ 23 && minute ≤ 59 && second ≤ 60 then some (text ++ fraction, cs) else none

/-- The offset of a time from UTC, as it is usually written; nothing for a local time. -/
def offset? : List Char → Option String
  | [] => some ""
  | ['Z'] | ['z'] => some "Z"
  | sign :: cs => do
    let (hour, cs) ← digits? 2 cs
    let cs ← char? ':' cs
    let (minute, cs) ← digits? 2 cs
    let west := sign = '-' && 0 < hour + minute
    if (sign = '+' || sign = '-') && cs.isEmpty && hour ≤ 23 && minute ≤ 59 then
      some ((if west then "-" else "+") ++ twoDigits hour ++ ":" ++ twoDigits minute)
    else none

/-- A time and its offset. -/
def offsetTime? (cs : List Char) : Option String := do
  let (time, cs) ← time? cs
  let offset ← offset? cs
  return time ++ offset

/-- A date, a time, or both. -/
def moment? (cs : List Char) : Option String :=
  match date? cs with
  | some (day, []) => some day
  | some (day, mark :: cs) =>
    if mark = 'T' || mark = 't' then (offsetTime? cs).map fun time => day ++ "T" ++ time
    else none
  | none =>
    match time? cs with
    | some (time, []) => some time
    | _ => none

/-! ## Scalars -/

/-- What a run of characters means. -/
def scalarOf? (cs : List Char) : Option Toml :=
  if cs = ['t', 'r', 'u', 'e'] then some (.bool true)
  else if cs = ['f', 'a', 'l', 's', 'e'] then some (.bool false)
  else
    match int? cs with
    | some n => some (.int n)
    | none =>
      match moment? cs with
      | some moment => some (.date moment)
      | none => if isFloat cs then some (.float (String.ofList cs)) else none

/-- The text is a date that a time may follow after a space. -/
def timeFollows? (run rest : List Char) : Option (String × List Char) :=
  match date? run, rest with
  | some (day, []), ' ' :: c :: cs => if c.isDigit then some (day, c :: cs) else none
  | _, _ => none

/-- A scalar without quotation marks. -/
def scalar (cs : List Char) : Option (Toml × List Char) :=
  let run := cs.takeWhile isScalarChar
  let rest := cs.dropWhile isScalarChar
  match timeFollows? run rest with
  | some (day, cs) =>
    (offsetTime? (cs.takeWhile isScalarChar)).map fun time =>
      (.date (day ++ "T" ++ time), cs.dropWhile isScalarChar)
  | none => (scalarOf? run).map fun v => (v, rest)

end ShellGloss.Toml
