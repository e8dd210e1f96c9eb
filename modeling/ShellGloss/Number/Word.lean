/-!
# Words

The integers that fit into a given number of bits, without a sign or with one.
-/

namespace ShellGloss.Number

/-- The number of values that so many bits have. -/
def wordCount (bits : Nat) : Nat :=
  Nat.pow 2 bits

/-- The integer fits into so many bits without a sign. -/
def fitsUnsigned (bits : Nat) (z : Int) : Bool :=
  0 ≤ z && z < wordCount bits

/-- The integer fits into so many bits, one of which is for the sign. -/
def fitsSigned (bits : Nat) (z : Int) : Bool :=
  -(wordCount (bits - 1) : Int) ≤ z && z < wordCount (bits - 1)

/-- The integer fits into so many bits in one of the two ways. -/
def fitsWord (bits : Nat) (z : Int) : Bool :=
  fitsUnsigned bits z || fitsSigned bits z

theorem fitsUnsigned_iff {bits : Nat} {z : Int} :
    fitsUnsigned bits z = true ↔ 0 ≤ z ∧ z < wordCount bits := by
  simp [fitsUnsigned]

theorem fitsUnsigned_natCast {bits n : Nat} :
    fitsUnsigned bits n = true ↔ n < wordCount bits := by
  simp [fitsUnsigned]

end ShellGloss.Number
