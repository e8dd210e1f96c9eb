/-!
# JSON values

A value keeps the members of an object in the order of the text, repeated names
included: which of two members of one name counts is for whoever reads the
object to say.

A number is an integer when it is written as one and fits into 64 bits, signed
or unsigned. Every other number is kept as it is written.
-/

namespace ShellGloss

/-- A number of a JSON text. -/
inductive Json.Number where
  | int (value : Int)
  | real (text : String)
deriving DecidableEq, Repr, Inhabited

/-- A JSON value. -/
inductive Json where
  | null
  | bool (value : Bool)
  | num (value : Json.Number)
  | str (value : String)
  | arr (items : List Json)
  | obj (members : List (String × Json))
deriving Repr, Inhabited

namespace Json

/-- A natural number as a value. -/
def ofNat (n : Nat) : Json :=
  .num (.int n)

/-- An optional value, `null` when absent. -/
def ofOption {α : Type} (f : α → Json) : Option α → Json
  | none => .null
  | some a => f a

/-- A list of texts as a value. -/
def ofTexts (ss : List String) : Json :=
  .arr (ss.map .str)

@[simp] theorem ofOption_none {α : Type} (f : α → Json) : ofOption f none = .null := rfl

@[simp] theorem ofTexts_nil : ofTexts [] = .arr [] := rfl

/-- Induction over a value: an array may assume the property of its items, an object
that of the values of its members. -/
@[elab_as_elim, induction_eliminator]
theorem induct {motive : Json → Prop}
    (null : motive .null)
    (bool : ∀ b, motive (.bool b))
    (num : ∀ n, motive (.num n))
    (str : ∀ s, motive (.str s))
    (arr : ∀ items, (∀ v ∈ items, motive v) → motive (.arr items))
    (obj : ∀ members, (∀ m ∈ members, motive m.2) → motive (.obj members)) :
    ∀ v, motive v := by
  intro v
  refine Json.rec (motive_1 := motive) (motive_2 := fun items => ∀ v ∈ items, motive v)
    (motive_3 := fun members => ∀ m ∈ members, motive m.2) (motive_4 := fun m => motive m.2)
    null bool num str arr obj ?_ ?_ ?_ ?_ ?_ v
  · intro v hv
    cases hv
  · intro head tail hhead htail v hv
    rcases List.mem_cons.mp hv with rfl | hv
    · exact hhead
    · exact htail v hv
  · intro m hm
    cases hm
  · intro head tail hhead htail m hm
    rcases List.mem_cons.mp hm with rfl | hm
    · exact hhead
    · exact htail m hm
  · intro name v hv
    exact hv

end Json

end ShellGloss
