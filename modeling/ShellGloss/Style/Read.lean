import ShellGloss.Number.Byte
import ShellGloss.Style.Basic
import ShellGloss.Text.Blank
import ShellGloss.Text.Bytes

/-!
# Reading styles

The text of a style names attributes and then perhaps a color: `bold green`,
`italic #ff8800`, `underline rgb(10, 20, 30)`, `dim 244`. ASCII letters may be of
either case. No color, or `default`, leaves the color as it is.
-/

namespace ShellGloss

/-- A text that names no color, as it stands after the attributes. -/
structure UnknownColor where
  text : String
deriving DecidableEq, Repr

/-- The wording of the error. -/
def UnknownColor.message (e : UnknownColor) : String :=
  "unable to parse color: " ++ e.text

/-! ## Attributes -/

/-- The words for attributes. -/
def Attribute.words : List (List Char × Attribute) :=
  [("bold".toList, .bold), ("dim".toList, .dim), ("italic".toList, .italic),
    ("underlined".toList, .underlined), ("underline".toList, .underlined),
    ("reverse".toList, .reverse)]

/-- The attribute that a word stands for. -/
def Attribute.ofWord? (word : List Char) : Option Attribute :=
  words.lookup word

/-- A word for an attribute is not empty. -/
theorem Attribute.ne_nil_of_ofWord? {word : List Char} {a : Attribute}
    (h : ofWord? word = some a) : word ≠ [] := by
  rintro rfl
  have : ofWord? [] = none := by decide
  simp [this] at h

namespace Style

/-- The attribute that the first word of a text stands for, and the bytes of that word.
Blanks before the word are passed over. -/
def leadingAttribute? (cs : List Char) : Option (Attribute × Nat) :=
  let word := Text.firstWord (Text.trimLeft cs)
  (Attribute.ofWord? word).map fun a => (a, Text.byteCount word)

/-- Cutting the bytes of the first word off a text makes it shorter. -/
theorem length_lt_of_leadingAttribute? {cs : List Char} {a : Attribute} {size : Nat}
    (h : leadingAttribute? cs = some (a, size)) :
    (Text.trimLeft (Text.dropBytes size cs)).length < cs.length := by
  obtain ⟨a', hword, heq⟩ := Option.map_eq_some_iff.mp h
  obtain ⟨rfl, rfl⟩ := Prod.mk.inj heq
  have hne := Attribute.ne_nil_of_ofWord? hword
  have hsize : 0 < Text.byteCount (Text.firstWord (Text.trimLeft cs)) := by
    cases hw : Text.firstWord (Text.trimLeft cs) with
    | nil => exact absurd hw hne
    | cons c word =>
      have hpos := c.utf8Size_pos
      rw [Text.byteCount]
      omega
  have hcs : cs ≠ [] := by
    rintro rfl
    exact hne rfl
  exact Nat.lt_of_le_of_lt (Text.length_trimLeft_le _) (Text.length_dropBytes_lt hsize hcs)

/-- The attributes at the start of a text, and what follows them. The word for an attribute
is cut off by its bytes, and the blanks behind it are passed over. -/
def takeAttributes (cs : List Char) : List Attribute × List Char :=
  match _h : leadingAttribute? cs with
  | none => ([], cs)
  | some (a, size) =>
    let (as, rest) := takeAttributes (Text.trimLeft (Text.dropBytes size cs))
    (a :: as, rest)
termination_by cs.length
decreasing_by
  exact length_lt_of_leadingAttribute? _h

end Style

/-! ## Colors -/

namespace Color

/-- The names of colors. -/
def names : List (List Char × NamedColor) :=
  [("black".toList, .black), ("red".toList, .red), ("green".toList, .green),
    ("yellow".toList, .yellow), ("blue".toList, .blue), ("magenta".toList, .magenta),
    ("cyan".toList, .cyan), ("white".toList, .white), ("gray".toList, .grey),
    ("grey".toList, .grey), ("dark gray".toList, .darkGrey), ("dark grey".toList, .darkGrey),
    ("darkgray".toList, .darkGrey), ("darkgrey".toList, .darkGrey), ("dark red".toList, .darkRed),
    ("darkred".toList, .darkRed), ("dark green".toList, .darkGreen),
    ("darkgreen".toList, .darkGreen), ("dark yellow".toList, .darkYellow),
    ("darkyellow".toList, .darkYellow), ("dark blue".toList, .darkBlue),
    ("darkblue".toList, .darkBlue), ("dark magenta".toList, .darkMagenta),
    ("darkmagenta".toList, .darkMagenta), ("dark cyan".toList, .darkCyan),
    ("darkcyan".toList, .darkCyan)]

/-- Why no color is read. -/
inductive Fault where
  /-- The text names no color. -/
  | unknown
  /-- A part was to be taken between places where the text cannot be cut. No text
  leads there. -/
  | badCut
deriving DecidableEq, Repr

/-- The part of a text between two places, counted in bytes. -/
def part (first stop : Nat) (cs : List Char) : Except Fault (List Char) :=
  match Text.slice? first stop cs with
  | some part => .ok part
  | none => .error .badCut

/-- The byte that digits spell. -/
def byte (radix : Nat) (cs : List Char) : Except Fault UInt8 :=
  match Number.byte? radix cs with
  | some n => .ok n
  | none => .error .unknown

/-- A channel in two bytes of hexadecimal text. -/
def hexChannel (hex : List Char) (first : Nat) : Except Fault UInt8 := do
  byte 16 (← part first (first + 2) hex)

/-- A color of three channels in hexadecimal text. -/
def ofHex (hex : List Char) : Except Fault Color :=
  if Text.byteCount hex = 6 && hex.all Text.isAscii then do
    return .rgb (← hexChannel hex 0) (← hexChannel hex 2) (← hexChannel hex 4)
  else .error .unknown

/-- A color of three channels between commas. -/
def ofChannels (cs : List Char) : Except Fault Color := do
  match ← (cs.splitOn ',').mapM fun channel => byte 10 (Text.trim channel) with
  | [red, green, blue] => return .rgb red green blue
  | _ => .error .unknown

/-- The color that a text names. -/
def read (cs : List Char) : Except Fault Color :=
  match names.lookup cs with
  | some c => .ok (.named c)
  | none =>
    if ['#'].isPrefixOf cs then do
      ofHex (← part 1 (Text.byteCount cs) cs)
    else if ['r', 'g', 'b', '('].isPrefixOf cs && cs.getLast? = some ')' then do
      ofChannels (← part 4 (Text.byteCount cs - 1) cs)
    else do
      return .palette (← byte 10 cs)

/-- The color that a text names, if any. -/
def ofText? (cs : List Char) : Option Color :=
  (read cs).toOption

end Color

/-! ## Styles -/

/-- The text names no color and leaves the color as it is. -/
def Style.isColorless (cs : List Char) : Bool :=
  cs.isEmpty || cs == "default".toList

/-- The style that a text describes. -/
def Style.read (text : String) : Except UnknownColor Style :=
  let (attributes, rest) := takeAttributes ((Text.trim text.toList).map Char.toLower)
  if isColorless rest then .ok ⟨.ofList attributes, none⟩
  else
    match Color.ofText? rest with
    | some c => .ok ⟨.ofList attributes, some c⟩
    | none => .error ⟨String.ofList rest⟩

end ShellGloss
