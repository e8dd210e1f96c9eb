import ShellGloss.Number.Digits
import ShellGloss.Style.Basic

/-!
# Terminals

What becomes of a painted text. A terminal reads a text character by character:
a control sequence `ESC [ numbers m` changes the pen, every other character is
shown in the pen that is set when it comes.

A text painted in a style is shown in the pen of the style, and the terminal is
left with the plain pen that it had before (`feed_paint`), whatever the color and
the attributes are: the one sequence after the text takes back all that the
sequences before it have set.
-/

namespace ShellGloss

/-- A color as a terminal knows it. -/
inductive Shade where
  | palette (index : Nat)
  | rgb (red green blue : Nat)
deriving DecidableEq, Repr

/-- How a terminal shows the characters to come. -/
structure Pen where
  attributes : Attributes
  shade : Option Shade
deriving DecidableEq, Repr

/-- The shade of a color. A color with a name is a place in the palette. -/
def Color.shade : Color → Shade
  | named c => .palette c.index
  | rgb r g b => .rgb r.toNat g.toNat b.toNat
  | palette n => .palette n.toNat

/-- The pen that a style asks for. -/
def Style.pen (s : Style) : Pen :=
  ⟨s.attributes, s.color.map Color.shade⟩

/-- The attribute that a number sets. -/
def Attribute.ofCode? (n : Nat) : Option Attribute :=
  all.find? fun a => a.code == n

namespace Pen

/-- The pen without attributes and color. -/
def plain : Pen :=
  ⟨.none, none⟩

/-- The pen after the numbers of a control sequence. Numbers without a meaning
here do nothing. -/
def select : Pen → List Nat → Pen
  | p, [] => p
  | _, 0 :: ns => plain.select ns
  | p, 38 :: 5 :: index :: ns => { p with shade := some (.palette index) }.select ns
  | p, 38 :: 2 :: r :: g :: b :: ns => { p with shade := some (.rgb r g b) }.select ns
  | p, 39 :: ns => { p with shade := none }.select ns
  | p, n :: ns =>
    match Attribute.ofCode? n with
    | some a => { p with attributes := p.attributes.insert a }.select ns
    | none => p.select ns

theorem select_attribute (p : Pen) (a : Attribute) :
    p.select [a.code] = { p with attributes := p.attributes.insert a } := by
  cases a <;> rfl

end Pen

/-- How far into a control sequence a terminal is. -/
inductive Reading where
  | text
  | escape
  /-- Among the numbers: those that are complete, and the one that is not. -/
  | numbers (complete : List Nat) (current : Nat)
deriving DecidableEq, Repr

/-- A terminal: where it is in the text, its pen, and the characters shown so far,
each with the pen that it is shown in. -/
structure Terminal where
  reading : Reading
  pen : Pen
  shown : List (Char × Pen)
deriving DecidableEq, Repr

/-- The character that begins a control sequence. -/
def escapeChar : Char :=
  '\x1b'

namespace Terminal

/-- A terminal that has read nothing yet. -/
def start : Terminal :=
  ⟨.text, .plain, []⟩

/-- What a character does to a terminal. A sequence that does not go on as one that
sets the pen is dropped. -/
def step (t : Terminal) (c : Char) : Terminal :=
  match t.reading with
  | .text =>
    if c = escapeChar then { t with reading := .escape }
    else { t with shown := t.shown ++ [(c, t.pen)] }
  | .escape => { t with reading := if c = '[' then .numbers [] 0 else .text }
  | .numbers complete n =>
    if c.isDigit then { t with reading := .numbers complete (10 * n + Number.digitValue c) }
    else if c = ';' then { t with reading := .numbers (complete ++ [n]) 0 }
    else if c = 'm' then { t with reading := .text, pen := t.pen.select (complete ++ [n]) }
    else { t with reading := .text }

/-- The terminal after a text. -/
def feed (t : Terminal) (text : String) : Terminal :=
  text.toList.foldl step t

@[simp] theorem feed_empty (t : Terminal) : t.feed "" = t := rfl

theorem feed_append (t : Terminal) (a b : String) : t.feed (a ++ b) = (t.feed a).feed b := by
  rw [feed, String.toList_append, List.foldl_append]
  rfl

variable {pen : Pen} {shown : List (Char × Pen)}

/-! ## Texts -/

/-- A text without control sequences is shown in the pen that is set. -/
theorem feed_text {text : String} (h : escapeChar ∉ text.toList) :
    feed ⟨.text, pen, shown⟩ text =
      ⟨.text, pen, shown ++ text.toList.map fun c => (c, pen)⟩ := by
  rw [feed]
  generalize text.toList = cs at h ⊢
  induction cs generalizing shown with
  | nil => simp
  | cons c cs ih =>
    rw [List.mem_cons, not_or] at h
    obtain ⟨hc, hcs⟩ := h
    have hstep : step ⟨.text, pen, shown⟩ c = ⟨.text, pen, shown ++ [(c, pen)]⟩ := by
      simp [step, Ne.symm hc]
    rw [List.foldl_cons, hstep, ih hcs, List.map_cons, List.append_assoc, List.singleton_append]

/-! ## Control sequences -/

/-- Digits go on with the number that is not complete. -/
theorem feed_digits {complete : List Nat} {n : Nat} {digits : List Char}
    (h : ∀ c ∈ digits, c.isDigit = true) :
    digits.foldl step ⟨.numbers complete n, pen, shown⟩ =
      ⟨.numbers complete (Nat.ofDigitChars 10 digits n), pen, shown⟩ := by
  induction digits generalizing n with
  | nil => rfl
  | cons c cs ih =>
    obtain ⟨hc, hcs⟩ := List.forall_mem_cons.mp h
    have hstep : step ⟨.numbers complete n, pen, shown⟩ c =
        ⟨.numbers complete (10 * n + (c.toNat - '0'.toNat)), pen, shown⟩ := by
      simp [step, hc, Number.digitValue]
    rw [List.foldl_cons, hstep, ih hcs, Nat.ofDigitChars_cons]

/-- A number is read as it is written. -/
theorem feed_number {complete : List Nat} (n : Nat) :
    feed ⟨.numbers complete 0, pen, shown⟩ (toString n) = ⟨.numbers complete n, pen, shown⟩ := by
  rw [feed, Nat.toString_eq_ofList_toDigits, String.toList_ofList,
    feed_digits fun c hc => Nat.isDigit_of_mem_toDigits (by decide) (by decide) hc,
    Nat.ofDigitChars_ten_toDigits]

end Terminal

/-- Numbers as a control sequence holds them. -/
def writeNumbers : List Nat → String
  | [] => ""
  | [n] => toString n
  | n :: ns => toString n ++ ";" ++ writeNumbers ns

namespace Terminal

variable {pen : Pen} {shown : List (Char × Pen)}

theorem feed_numbers {complete : List Nat} {ns : List Nat} (h : ns ≠ []) :
    feed ⟨.numbers complete 0, pen, shown⟩ (writeNumbers ns ++ "m") =
      ⟨.text, pen.select (complete ++ ns), shown⟩ := by
  induction ns generalizing complete with
  | nil => exact absurd rfl h
  | cons n ns ih =>
    cases ns with
    | nil => rw [writeNumbers, feed_append, feed_number]; rfl
    | cons m ns =>
      have hmore : feed ⟨.numbers complete n, pen, shown⟩ ";" =
          ⟨.numbers (complete ++ [n]) 0, pen, shown⟩ := rfl
      have hwrite : writeNumbers (n :: m :: ns) = toString n ++ ";" ++ writeNumbers (m :: ns) := rfl
      rw [hwrite, String.append_assoc, String.append_assoc, feed_append, feed_number, feed_append,
        hmore, ih (by simp), List.append_assoc, List.singleton_append]

/-- A control sequence sets the pen and shows nothing. -/
theorem feed_sequence (ns : List Nat) (h : ns ≠ []) :
    feed ⟨.text, pen, shown⟩ (sequence (writeNumbers ns)) = ⟨.text, pen.select ns, shown⟩ := by
  have hopen : feed ⟨.text, pen, shown⟩ "\x1b[" = ⟨.numbers [] 0, pen, shown⟩ := rfl
  rw [sequence, String.append_assoc, feed_append, hopen, feed_numbers h, List.nil_append]

end Terminal

/-! ## Styles -/

/-- The numbers that choose a color. -/
def Color.numbers : Color → List Nat
  | named c => [38, 5, c.index]
  | rgb r g b => [38, 2, r.toNat, g.toNat, b.toNat]
  | palette n => [38, 5, n.toNat]

theorem Color.writeNumbers_numbers (c : Color) : writeNumbers c.numbers = "38;" ++ c.code := by
  cases c <;> simp [numbers, code, writeNumbers, String.append_assoc, ← String.toList_inj] <;> rfl

theorem Color.select_numbers (c : Color) (p : Pen) :
    p.select c.numbers = { p with shade := some c.shade } := by
  cases c <;> rfl

/-- A set is made of its attributes. -/
theorem Attributes.foldl_insert_toList (s : Attributes) : s.toList.foldl insert none = s := by
  obtain ⟨bold, dim, italic, underlined, reverse⟩ := s
  cases bold <;> cases dim <;> cases italic <;> cases underlined <;> cases reverse <;> rfl

theorem Attributes.isEmpty_iff {s : Attributes} : s.isEmpty = true ↔ s = none := by
  constructor
  · intro h
    rw [isEmpty, List.isEmpty_iff] at h
    rw [← foldl_insert_toList s, h]
    rfl
  · rintro rfl
    rfl

namespace Terminal

variable {shown : List (Char × Pen)}

/-- The sequences of attributes add them to the pen. -/
theorem feed_attributes {pen : Pen} (as : List Attribute) :
    feed ⟨.text, pen, shown⟩ (String.join (as.map fun a => sequence (toString a.code))) =
      ⟨.text, { pen with attributes := as.foldl .insert pen.attributes }, shown⟩ := by
  induction as generalizing pen with
  | nil => rfl
  | cons a as ih =>
    have hone : feed ⟨.text, pen, shown⟩ (sequence (toString a.code)) =
        ⟨.text, pen.select [a.code], shown⟩ := feed_sequence [a.code] (by simp)
    rw [List.map_cons, String.join_cons, feed_append, hone, Pen.select_attribute, ih,
      List.foldl_cons]

/-- What is written before a text sets the pen of the style. -/
theorem feed_opening (s : Style) :
    feed ⟨.text, .plain, shown⟩ (s.opening .shown) = ⟨.text, s.pen, shown⟩ := by
  obtain ⟨attributes, color⟩ := s
  cases color with
  | none =>
    rw [Style.opening, feed_append, feed_empty, feed_attributes]
    simp [Pen.plain, Style.pen, Attributes.foldl_insert_toList]
  | some c =>
    have hcolor : feed ⟨.text, .plain, shown⟩ (Style.colorSequence .shown ("38;" ++ c.code)) =
        ⟨.text, Pen.plain.select c.numbers, shown⟩ := by
      rw [Style.colorSequence, ← Color.writeNumbers_numbers]
      exact feed_sequence _ (by cases c <;> simp [Color.numbers])
    rw [Style.opening, feed_append, hcolor, Color.select_numbers, feed_attributes]
    simp [Pen.plain, Style.pen, Attributes.foldl_insert_toList]

/-- What is written after a text takes the pen of the style back. -/
theorem feed_closing (s : Style) :
    feed ⟨.text, s.pen, shown⟩ (s.closing .shown) = ⟨.text, .plain, shown⟩ := by
  rw [Style.closing]
  split
  · rename_i hempty
    obtain ⟨attributes, color⟩ := s
    obtain rfl : attributes = .none := Attributes.isEmpty_iff.mp hempty
    -- no attribute is set, so that resetting the color is enough
    cases color with
    | none => rfl
    | some c => exact feed_sequence [39] (by simp)
  · exact feed_sequence [0] (by simp)

/-- A painted text is shown in the pen of its style, and nothing of the style remains. -/
theorem feed_paint (s : Style) {text : String} (h : escapeChar ∉ text.toList) :
    feed ⟨.text, .plain, shown⟩ (s.paint .shown text) =
      ⟨.text, .plain, shown ++ text.toList.map fun c => (c, s.pen)⟩ := by
  rw [Style.paint, feed_append, feed_append, feed_opening, feed_text h, feed_closing]

end Terminal

end ShellGloss
