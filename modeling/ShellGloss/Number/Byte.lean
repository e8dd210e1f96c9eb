import ShellGloss.Number.Digits

/-!
# Bytes in digits

Numbers of eight bits as the digits of a radix spell them, perhaps with a plus sign in
front. The digits are taken one by one, and as soon as the value is no byte the text is none:
nothing wraps around. Leading zeros do not matter.
-/

namespace ShellGloss.Number

/-- The value of a digit of the radix, in either case. -/
def digit? (radix : Nat) (c : Char) : Option Nat :=
  (hexDigit? c).filter fun d => decide (d < radix)

/-- The byte with one more digit behind it, if that is a byte. -/
def appendDigit? (radix : Nat) (n : UInt8) (c : Char) : Option UInt8 :=
  (digit? radix c).bind fun d =>
    if n.toNat * radix + d < UInt8.size then some (UInt8.ofNat (n.toNat * radix + d)) else none

/-- A text without one plus sign in front. -/
def dropPlus : List Char → List Char
  | '+' :: cs => cs
  | cs => cs

/-- The byte that one or more digits spell, perhaps with a plus sign in front. -/
def byte? (radix : Nat) (cs : List Char) : Option UInt8 :=
  if (dropPlus cs).isEmpty then none else (dropPlus cs).foldlM (appendDigit? radix) 0

end ShellGloss.Number
