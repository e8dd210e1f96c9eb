import ShellGloss.Json.Number
import ShellGloss.Text.Bytes

/-!
# Reading JSON texts

The reader is a machine that takes one character at a time: `Machine.step` says
what a character does, and a text is read by folding it over the characters.

A text may break off in the middle, or go wrong there. What had been read up to
that place is then kept as a `Fragment`, because whoever reads the value may
find fault with a part that was complete before the text went wrong.

At most 127 arrays and objects may be open at a time. A reader may declare that
it ignores some members of the outermost object; the values of those are checked
for their grammar only, without that limit, and are left out.
-/

namespace ShellGloss.Json

open ShellGloss.Number (hexDigit?)

/-- The part of a value that had been read when the text went wrong. -/
inductive Fragment where
  /-- Nothing complete and no container opened. -/
  | nothing
  /-- The complete items of an array, and what there is of one begun after them. -/
  | items (complete : List Json) (next : Option Fragment)
  /-- The complete members of an object, and what there is of one whose name has been read. -/
  | members (complete : List (String × Json)) (next : Option (String × Fragment))
  /-- A complete value with something else after it. -/
  | whole (value : Json)
deriving Repr, Inhabited

/-- Why a text cannot be read. -/
inductive TextFault where
  /-- The text ends where more is needed. -/
  | cutShort
  /-- The text goes on in a way that no JSON text does. -/
  | malformed
deriving DecidableEq, Repr

/-- A text that cannot be read, with what had been read of it. -/
structure Broken where
  fault : TextFault
  fragment : Fragment
deriving Repr

/-- An array or object that has been opened. Its content is in reverse order; the
key is the last one read. -/
inductive Frame where
  | items (complete : List Json)
  | members (complete : List (String × Json)) (key : String)

/-- What may come next, blanks aside. -/
inductive Await where
  | value
  | itemOrClose
  | keyOrClose
  | key
  | colon
  | commaOrClose
  | done (value : Json)

/-- How far into a number a text is. -/
inductive NumberStage where
  | sign
  | zero
  | whole
  | point
  | fraction
  | mark
  | markSign
  | power

/-- How far into an escape of a string a text is. -/
inductive EscapeStage where
  | plain
  | backslash
  /-- Digits of a code unit, the last first; `high` is the unit before it when that was the
  first half of a pair. -/
  | unit (digits : List Char) (high : Option Nat)
  | pairBackslash (high : Nat)
  | pairLetter (high : Nat)

/-- The token in which a text stands. Characters already read are in reverse order. -/
inductive Scan where
  | none
  | literal (left : List Char) (value : Json)
  | number (stage : NumberStage) (seen : List Char)
  | text (stage : EscapeStage) (seen : List Char)

/-- The state of a reader. `lax` holds inside the value of an ignored member. -/
structure Machine where
  stack : List Frame
  await : Await
  scan : Scan
  lax : Bool

/-! ## What has been read -/

/-- The innermost frame as a fragment. -/
def Frame.innermost (await : Await) : Frame → Fragment
  | .items complete =>
    .items complete.reverse (match await with | .value => some .nothing | _ => none)
  | .members complete key =>
    .members complete.reverse
      (match await with | .value | .colon => some (key, .nothing) | _ => none)

/-- A frame around a fragment of its last item or member. -/
def Frame.enclosing (inner : Fragment) : Frame → Fragment
  | .items complete => .items complete.reverse (some inner)
  | .members complete key => .members complete.reverse (some (key, inner))

namespace Machine

/-- The machine before the first character. -/
def start : Machine :=
  ⟨[], .value, .none, false⟩

/-- What has been read so far. -/
def fragment (m : Machine) : Fragment :=
  match m.stack with
  | [] =>
    match m.await with
    | .done v => .whole v
    | _ => .nothing
  | f :: fs => fs.foldl (fun inner frame => frame.enclosing inner) (f.innermost m.await)

/-- The outcome when no JSON text goes on as this one does. -/
def malformed {α : Type} (m : Machine) : Except Broken α :=
  .error ⟨.malformed, m.fragment⟩

/-- The outcome when the text ends too early. -/
def cutShort {α : Type} (m : Machine) : Except Broken α :=
  .error ⟨.cutShort, m.fragment⟩

/-! ## Values and containers -/

/-- Takes in a complete value. -/
def deliver (m : Machine) (v : Json) : Machine :=
  match m.stack with
  | [] => { m with await := .done v, scan := .none }
  | .items complete :: rest =>
    { m with stack := .items (v :: complete) :: rest, await := .commaOrClose, scan := .none }
  | .members complete key :: rest =>
    if m.lax && rest.isEmpty then
      { m with await := .commaOrClose, scan := .none, lax := false }
    else
      { m with
        stack := .members ((key, v) :: complete) key :: rest
        await := .commaOrClose
        scan := .none }

/-- Takes in a complete key. -/
def deliverKey (ignored : String → Bool) (m : Machine) (key : String) : Machine :=
  match m.stack with
  | .members complete _ :: rest =>
    { stack := .members complete key :: rest
      await := .colon
      scan := .none
      lax := m.lax || (rest.isEmpty && ignored key) }
  | _ => { m with scan := .none }

/-- Opens an array or object. -/
def openFrame (m : Machine) (frame : Frame) (await : Await) : Except Broken Machine :=
  if !m.lax && 127 ≤ m.stack.length then m.malformed
  else .ok { m with stack := frame :: m.stack, await := await }

/-- Closes the innermost array or object, which `c` must match. -/
def close (m : Machine) (c : Char) : Except Broken Machine :=
  match m.stack with
  | .items complete :: rest =>
    if c = ']' then .ok (deliver { m with stack := rest } (.arr complete.reverse))
    else m.malformed
  | .members complete _ :: rest =>
    if c = '\x7d' then .ok (deliver { m with stack := rest } (.obj complete.reverse))
    else m.malformed
  | [] => m.malformed

/-! ## Strings -/

/-- The code unit that four hexadecimal digits spell, the last digit first. -/
def unit? : List Char → Option Nat
  | [d, c, b, a] => do
    return (← hexDigit? a) * 4096 + (← hexDigit? b) * 256 + (← hexDigit? c) * 16 + (← hexDigit? d)
  | _ => none

/-- The character that a letter after a backslash stands for. -/
def escaped? : Char → Option Char
  | '"' => some '"'
  | '\\' => some '\\'
  | '/' => some '/'
  | 'b' => some '\x08'
  | 'f' => some '\x0c'
  | 'n' => some '\n'
  | 'r' => some '\r'
  | 't' => some '\t'
  | _ => none

/-- The unit is the first half of a pair. -/
def isHighUnit (n : Nat) : Bool :=
  0xD800 ≤ n && n ≤ 0xDBFF

/-- The unit is the second half of a pair. -/
def isLowUnit (n : Nat) : Bool :=
  0xDC00 ≤ n && n ≤ 0xDFFF

/-- The end of a string: a key where one is awaited, a value elsewhere. -/
def endText (ignored : String → Bool) (m : Machine) (seen : List Char) : Machine :=
  let s := String.ofList seen.reverse
  match m.await with
  | .key | .keyOrClose => m.deliverKey ignored s
  | _ => m.deliver (.str s)

/-- Takes in a code unit. In an ignored value the halves of a pair may stand alone. -/
def takeUnit (m : Machine) (n : Nat) (high : Option Nat) (seen : List Char) :
    Except Broken Machine :=
  let put (c : Char) : Except Broken Machine := .ok { m with scan := .text .plain (c :: seen) }
  if m.lax then put '?'
  else match high with
    | some h =>
      if isLowUnit n then put (Char.ofNat (0x10000 + (h - 0xD800) * 0x400 + (n - 0xDC00)))
      else m.malformed
    | none =>
      if isLowUnit n then m.malformed
      else if isHighUnit n then .ok { m with scan := .text (.pairBackslash n) seen }
      else put (Char.ofNat n)

/-- A character inside a string. The digits of a code unit are judged when four
bytes of them are there. -/
def stepText (ignored : String → Bool) (m : Machine) (stage : EscapeStage) (seen : List Char)
    (c : Char) : Except Broken Machine :=
  match stage with
  | .plain =>
    if c = '"' then .ok (m.endText ignored seen)
    else if c = '\\' then .ok { m with scan := .text .backslash seen }
    else if c.toNat < 0x20 then m.malformed
    else .ok { m with scan := .text .plain (c :: seen) }
  | .backslash =>
    if c = 'u' then .ok { m with scan := .text (.unit [] none) seen }
    else match escaped? c with
      | some e => .ok { m with scan := .text .plain (e :: seen) }
      | none => m.malformed
  | .unit digits high =>
    let digits := c :: digits
    if Text.byteCount digits < 4 then .ok { m with scan := .text (.unit digits high) seen }
    else match unit? digits with
      | some n => m.takeUnit n high seen
      | none => m.malformed
  | .pairBackslash high =>
    if c = '\\' then .ok { m with scan := .text (.pairLetter high) seen } else m.malformed
  | .pairLetter high =>
    if c = 'u' then .ok { m with scan := .text (.unit [] (some high)) seen } else m.malformed

/-! ## Numbers -/

/-- What a character does to a number. -/
inductive NumberMove where
  | stay (stage : NumberStage)
  | finish
  | fail

/-- Where a character takes a number. -/
def moveNumber (c : Char) : NumberStage → NumberMove
  | .sign => if c = '0' then .stay .zero else if c.isDigit then .stay .whole else .fail
  | .zero =>
    if c.isDigit then .fail
    else if c = '.' then .stay .point
    else if c = 'e' || c = 'E' then .stay .mark
    else .finish
  | .whole =>
    if c.isDigit then .stay .whole
    else if c = '.' then .stay .point
    else if c = 'e' || c = 'E' then .stay .mark
    else .finish
  | .point => if c.isDigit then .stay .fraction else .fail
  | .fraction =>
    if c.isDigit then .stay .fraction else if c = 'e' || c = 'E' then .stay .mark else .finish
  | .mark =>
    if c.isDigit then .stay .power else if c = '+' || c = '-' then .stay .markSign else .fail
  | .markSign => if c.isDigit then .stay .power else .fail
  | .power => if c.isDigit then .stay .power else .finish

/-- A number may end at this stage. -/
def mayEnd : NumberStage → Bool
  | .zero | .whole | .fraction | .power => true
  | _ => false

/-- Takes in a complete number. The size of one in an ignored value does not matter. -/
def endNumber (m : Machine) (seen : List Char) : Except Broken Machine :=
  if m.lax then .ok (m.deliver .null)
  else match Number.ofText? seen.reverse with
    | some n => .ok (m.deliver (.num n))
    | none => m.malformed

/-! ## One character -/

/-- A space, tab, line feed or carriage return. -/
def isBlank (c : Char) : Bool :=
  c = ' ' || c = '\t' || c = '\n' || c = '\r'

/-- The first character of a value. -/
def beginValue (m : Machine) (c : Char) : Except Broken Machine :=
  if c = '"' then .ok { m with scan := .text .plain [] }
  else if c = '-' then .ok { m with scan := .number .sign [c] }
  else if c = '0' then .ok { m with scan := .number .zero [c] }
  else if c.isDigit then .ok { m with scan := .number .whole [c] }
  else if c = 't' then .ok { m with scan := .literal ['r', 'u', 'e'] (.bool true) }
  else if c = 'f' then .ok { m with scan := .literal ['a', 'l', 's', 'e'] (.bool false) }
  else if c = 'n' then .ok { m with scan := .literal ['u', 'l', 'l'] .null }
  else if c = '[' then m.openFrame (.items []) .itemOrClose
  else if c = '\x7b' then m.openFrame (.members [] "") .keyOrClose
  else m.malformed

/-- A comma: another item or member must follow. -/
def continueFrame (m : Machine) : Except Broken Machine :=
  match m.stack with
  | .items _ :: _ => .ok { m with await := .value }
  | .members .. :: _ => .ok { m with await := .key }
  | [] => m.malformed

/-- A character between tokens. -/
def stepBetween (m : Machine) (c : Char) : Except Broken Machine :=
  if isBlank c then .ok m
  else match m.await with
    | .value => m.beginValue c
    | .itemOrClose => if c = ']' then m.close c else { m with await := .value }.beginValue c
    | .keyOrClose =>
      if c = '\x7d' then m.close c
      else if c = '"' then .ok { m with scan := .text .plain [] }
      else m.malformed
    | .key => if c = '"' then .ok { m with scan := .text .plain [] } else m.malformed
    | .colon => if c = ':' then .ok { m with await := .value } else m.malformed
    | .commaOrClose => if c = ',' then m.continueFrame else m.close c
    | .done _ => m.malformed

/-- What one character does. -/
def step (ignored : String → Bool) (m : Machine) (c : Char) : Except Broken Machine :=
  match m.scan with
  | .none => m.stepBetween c
  | .literal left v =>
    match left with
    | [] => m.malformed
    | [l] => if c = l then .ok (m.deliver v) else m.malformed
    | l :: ls => if c = l then .ok { m with scan := .literal ls v } else m.malformed
  | .number stage seen =>
    match moveNumber c stage with
    | .stay stage => .ok { m with scan := .number stage (c :: seen) }
    | .fail => m.malformed
    | .finish => do (← m.endNumber seen).stepBetween c
  | .text stage seen => m.stepText ignored stage seen c

/-- The outcome at the end of the text. -/
def finish (m : Machine) : Except Broken Json :=
  match m.scan with
  | .none => settle m
  | .number stage seen =>
    if mayEnd stage then do settle (← m.endNumber seen)
    else if m.lax then m.malformed
    else m.cutShort
  | _ => m.cutShort
where
  settle (m : Machine) : Except Broken Json :=
    match m.await with
    | .done v => .ok v
    | _ => m.cutShort

end Machine

/-- Reads a text, ignoring some members of the outermost object. -/
def readIgnoring (ignored : String → Bool) (text : String) : Except Broken Json := do
  (← text.toList.foldlM (Machine.step ignored) Machine.start).finish

/-- Reads a text. -/
def read (text : String) : Except Broken Json :=
  readIgnoring (fun _ => false) text

end ShellGloss.Json
