/-!
# The size of doubles

Which natural numbers a double of 64 bits can come near to. A number from
`doubleLimit` on has no nearest finite double.
-/

namespace ShellGloss.Number

/-- The least natural number that rounds to no finite double. -/
def doubleLimit : Nat :=
  Nat.pow 2 1024 - Nat.pow 2 970

/-- `n` rounded to 53 significant bits, a tie going to the even neighbour. -/
def nearestDouble (n : Nat) : Nat :=
  if n < Nat.pow 2 53 then n
  else
    let unit := Nat.pow 2 (n.log2 - 52)
    let q := n / unit
    let r := n % unit
    (if unit < 2 * r || (unit == 2 * r && q % 2 == 1) then q + 1 else q) * unit

/-- `digits · 10 ^ power` rounds to a finite double. Powers so large or so small that
the length of the number settles the matter are never computed. -/
def fitsDouble (digits : Nat) (power : Int) : Bool :=
  let length : Int := (toString digits).length
  digits == 0 || power + length ≤ 300
    || (power + length ≤ 320 &&
      (if 0 ≤ power then digits * Nat.pow 10 power.toNat < doubleLimit
        else digits < doubleLimit * Nat.pow 10 (-power).toNat))

end ShellGloss.Number
