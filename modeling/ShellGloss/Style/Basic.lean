/-!
# Styles

A style is a set of attributes and perhaps a color. Painting a text puts the
control sequences of a terminal around it.

After the text one sequence undoes the style: the one that resets everything when
an attribute was set, else the one that resets the color.
-/

namespace ShellGloss

/-- What a terminal does to a text besides its color. -/
inductive Attribute where
  | bold
  | dim
  | italic
  | underlined
  | reverse
deriving DecidableEq, Repr, Inhabited

namespace Attribute

/-- Every attribute, in the order in which they are written. -/
def all : List Attribute :=
  [bold, dim, italic, underlined, reverse]

/-- The name of an attribute. -/
def name : Attribute → String
  | bold => "bold"
  | dim => "dim"
  | italic => "italic"
  | underlined => "underlined"
  | reverse => "reverse"

/-- The number that sets an attribute. -/
def code : Attribute → Nat
  | bold => 1
  | dim => 2
  | italic => 3
  | underlined => 4
  | reverse => 7

end Attribute

/-- A set of attributes. -/
structure Attributes where
  bold : Bool
  dim : Bool
  italic : Bool
  underlined : Bool
  reverse : Bool
deriving DecidableEq, Repr, Inhabited

namespace Attributes

/-- No attribute. -/
def none : Attributes :=
  ⟨false, false, false, false, false⟩

/-- The attribute is in the set. -/
def has (s : Attributes) : Attribute → Bool
  | .bold => s.bold
  | .dim => s.dim
  | .italic => s.italic
  | .underlined => s.underlined
  | .reverse => s.reverse

/-- The set with one more attribute. -/
def insert (s : Attributes) : Attribute → Attributes
  | .bold => { s with bold := true }
  | .dim => { s with dim := true }
  | .italic => { s with italic := true }
  | .underlined => { s with underlined := true }
  | .reverse => { s with reverse := true }

/-- The set of the attributes of a list. -/
def ofList (as : List Attribute) : Attributes :=
  as.foldl insert none

/-- The attributes of a set, in the order in which they are written. -/
def toList (s : Attributes) : List Attribute :=
  Attribute.all.filter s.has

/-- The set has no attribute. -/
def isEmpty (s : Attributes) : Bool :=
  s.toList.isEmpty

@[simp] theorem has_none (a : Attribute) : none.has a = false := by
  cases a <;> rfl

@[simp] theorem has_insert (s : Attributes) (a b : Attribute) :
    (s.insert a).has b = (s.has b || decide (a = b)) := by
  cases a <;> cases b <;> simp [insert, has]

end Attributes

/-- The colors that have names. -/
inductive NamedColor where
  | black
  | darkRed
  | darkGreen
  | darkYellow
  | darkBlue
  | darkMagenta
  | darkCyan
  | grey
  | darkGrey
  | red
  | green
  | yellow
  | blue
  | magenta
  | cyan
  | white
deriving DecidableEq, Repr, Inhabited

/-- The place of a named color in the palette. -/
def NamedColor.index : NamedColor → Nat
  | black => 0
  | darkRed => 1
  | darkGreen => 2
  | darkYellow => 3
  | darkBlue => 4
  | darkMagenta => 5
  | darkCyan => 6
  | grey => 7
  | darkGrey => 8
  | red => 9
  | green => 10
  | yellow => 11
  | blue => 12
  | magenta => 13
  | cyan => 14
  | white => 15

/-- A color: one with a name, one by its channels, or a place in the palette. -/
inductive Color where
  | named (name : NamedColor)
  | rgb (red green blue : UInt8)
  | palette (index : UInt8)
deriving DecidableEq, Repr, Inhabited

/-- The numbers that choose a color. -/
def Color.code : Color → String
  | named c => "5;" ++ toString c.index
  | rgb r g b => "2;" ++ toString r.toNat ++ ";" ++ toString g.toNat ++ ";" ++ toString b.toNat
  | palette n => "5;" ++ toString n.toNat

/-- How a text is painted, as far as the text of a style can say it: with any of the five
attributes, and in one color or in that of the terminal. -/
structure Style where
  attributes : Attributes
  color : Option Color
deriving DecidableEq, Repr, Inhabited

/-- Whether colors are shown. Where they are not, a sequence that would choose or
reset one is written without its numbers. -/
inductive ColorMode where
  | shown
  | suppressed
deriving DecidableEq, Repr, Inhabited

/-- A control sequence that changes how text is shown. -/
def sequence (numbers : String) : String :=
  "\x1b[" ++ numbers ++ "m"

namespace Style

/-- The style that changes nothing. -/
def plain : Style :=
  ⟨.none, none⟩

/-- A sequence that concerns the color. -/
def colorSequence : ColorMode → String → String
  | .shown, numbers => sequence numbers
  | .suppressed, _ => sequence ""

/-- What is written before the text. -/
def opening (mode : ColorMode) (s : Style) : String :=
  (match s.color with
    | none => ""
    | some c => colorSequence mode ("38;" ++ c.code))
  ++ String.join (s.attributes.toList.map fun a => sequence (toString a.code))

/-- What is written after the text. -/
def closing (mode : ColorMode) (s : Style) : String :=
  if s.attributes.isEmpty then
    match s.color with
    | none => ""
    | some _ => colorSequence mode "39"
  else sequence "0"

/-- The text in the style. -/
def paint (mode : ColorMode) (s : Style) (text : String) : String :=
  s.opening mode ++ text ++ s.closing mode

end Style

end ShellGloss
