import ShellGloss.Number.Digits

/-!
# Scanning TOML texts

The smallest parts of a TOML text: blanks, comments, strings and bare words. Each
function takes the text that is left and returns what it has found together with
what is left after it.

A string is scanned one character at a time. `scan` drives such a scan: a step
goes on in a new state, ends after or before the character, or fails.
-/

namespace ShellGloss.Toml

open ShellGloss.Number (hexDigit?)

/-- What a character does to a scan. -/
inductive Move (σ : Type) where
  | goOn (state : σ)
  | endAfter (state : σ)
  | endBefore (state : σ)
  | fail

/-- Runs a scan from a state. The text may only end where `mayEnd` says so. -/
def scan {σ : Type} (step : σ → Char → Move σ) (mayEnd : σ → Bool) :
    σ → List Char → Option (σ × List Char)
  | s, [] => if mayEnd s then some (s, []) else none
  | s, c :: cs =>
    match step s c with
    | .goOn s => scan step mayEnd s cs
    | .endAfter s => some (s, cs)
    | .endBefore s => some (s, c :: cs)
    | .fail => none

/-! ## Blanks and comments -/

/-- A space or tab. -/
def isBlank (c : Char) : Bool :=
  c = ' ' || c = '\t'

/-- A text without the spaces and tabs at its start. -/
def skipBlanks (cs : List Char) : List Char :=
  cs.dropWhile isBlank

/-- A character that may stand in a comment or a literal string. -/
def isPrintable (c : Char) : Bool :=
  c = '\t' || (0x20 ≤ c.toNat && c.toNat ≠ 0x7F)

/-- A text without the comment at its start, if there is one. -/
def skipComment : List Char → List Char
  | '#' :: cs => cs.dropWhile isPrintable
  | cs => cs

/-- A text after the line break at its start. -/
def newline? : List Char → Option (List Char)
  | '\n' :: cs => some cs
  | '\r' :: '\n' :: cs => some cs
  | _ => none

/-- What follows the end of a line: blanks and a comment may still stand on it. -/
def endLine? (cs : List Char) : Option (List Char) :=
  match skipComment (skipBlanks cs) with
  | [] => some []
  | rest => newline? rest

/-- A text without the blanks, comments and line breaks at its start, at most `fuel` lines. -/
def skipLines (fuel : Nat) (cs : List Char) : List Char :=
  match fuel with
  | 0 => cs
  | fuel + 1 =>
    let cs := skipBlanks cs
    match newline? (skipComment cs) with
    | some rest => skipLines fuel rest
    | none => cs

/-! ## Strings of one line -/

/-- How far into an escape a string is. -/
inductive Escape where
  | plain
  | backslash
  /-- Hexadecimal digits still to come, and the value of those that have been read. -/
  | hex (left : Nat) (value : Nat)

/-- A string in the course of a scan; its characters are in reverse order. -/
structure TextState where
  escape : Escape
  seen : List Char

/-- The character that a letter after a backslash stands for. -/
def escaped? : Char → Option Char
  | 'b' => some '\x08'
  | 't' => some '\t'
  | 'n' => some '\n'
  | 'f' => some '\x0c'
  | 'r' => some '\r'
  | '"' => some '"'
  | '\\' => some '\\'
  | _ => none

/-- The character of that code point, if it is one. -/
def scalar? (n : Nat) : Option Char :=
  if h : n.isValidChar then some (Char.ofNatAux n h) else none

/-- The state after a letter that follows a backslash. -/
def afterBackslash (seen : List Char) (c : Char) : Move TextState :=
  if c = 'u' then .goOn ⟨.hex 4 0, seen⟩
  else if c = 'U' then .goOn ⟨.hex 8 0, seen⟩
  else
    match escaped? c with
    | some e => .goOn ⟨.plain, e :: seen⟩
    | none => .fail

/-- The state after a hexadecimal digit of an escape. -/
def afterHex (left value : Nat) (seen : List Char) (c : Char) : Move TextState :=
  match hexDigit? c with
  | none => .fail
  | some d =>
    if left ≤ 1 then
      match scalar? (value * 16 + d) with
      | some e => .goOn ⟨.plain, e :: seen⟩
      | none => .fail
    else .goOn ⟨.hex (left - 1) (value * 16 + d), seen⟩

/-- A character of a string in quotation marks. -/
def stepBasic (s : TextState) (c : Char) : Move TextState :=
  match s.escape with
  | .plain =>
    if c = '"' then .endAfter s
    else if c = '\\' then .goOn ⟨.backslash, s.seen⟩
    else if isPrintable c then .goOn ⟨.plain, c :: s.seen⟩
    else .fail
  | .backslash => afterBackslash s.seen c
  | .hex left value => afterHex left value s.seen c

/-- The text of a finished scan. -/
def TextState.text (s : TextState) : String :=
  String.ofList s.seen.reverse

/-- A string in quotation marks, after the first of them. -/
def basicString? (cs : List Char) : Option (String × List Char) :=
  (scan stepBasic (fun _ => false) ⟨.plain, []⟩ cs).map fun r => (r.1.text, r.2)

/-- A string in apostrophes, after the first of them. -/
def literalString? (cs : List Char) : Option (String × List Char) :=
  let inside := fun c => isPrintable c && c ≠ '\''
  match cs.dropWhile inside with
  | '\'' :: rest => some (String.ofList (cs.takeWhile inside), rest)
  | _ => none

/-! ## Strings of several lines -/

/-- Where a string of several lines stands. -/
inductive LinesStage where
  | text (escape : Escape)
  /-- That many quotation marks in a row have been read. -/
  | quotes (count : Nat)
  /-- A carriage return has been read, and a line feed must follow. -/
  | carriage
  /-- A backslash and blanks have been read, and a line break must follow. -/
  | folding
  /-- As in `folding`, after a carriage return. -/
  | foldingCarriage
  /-- Blanks and line breaks are passed over. -/
  | folded
  /-- As in `folded`, after a carriage return. -/
  | foldedCarriage

/-- A string of several lines in the course of a scan. -/
structure LinesState where
  stage : LinesStage
  seen : List Char

/-- A move of the scan of a text within a string of several lines. -/
def Move.inLines : Move TextState → Move LinesState
  | .goOn s => .goOn ⟨.text s.escape, s.seen⟩
  | .endAfter s => .endAfter ⟨.text s.escape, s.seen⟩
  | .endBefore s => .endBefore ⟨.text s.escape, s.seen⟩
  | .fail => .fail

/-- A character that stands for itself or begins something else. In a literal
string a backslash is nothing special. -/
def stepPlain (literal : Bool) (quote : Char) (seen : List Char) (c : Char) : Move LinesState :=
  if c = quote then .goOn ⟨.quotes 1, seen⟩
  else if c = '\\' && !literal then .goOn ⟨.text .backslash, seen⟩
  else if c = '\n' then .goOn ⟨.text .plain, '\n' :: seen⟩
  else if c = '\r' then .goOn ⟨.carriage, seen⟩
  else if isPrintable c then .goOn ⟨.text .plain, c :: seen⟩
  else .fail

/-- A character of a string of several lines. Of five quotation marks in a row the
last three end the string. -/
def stepLines (literal : Bool) (quote : Char) (s : LinesState) (c : Char) : Move LinesState :=
  match s.stage with
  | .text .plain => stepPlain literal quote s.seen c
  | .text .backslash =>
    if isBlank c then .goOn ⟨.folding, s.seen⟩
    else if c = '\n' then .goOn ⟨.folded, s.seen⟩
    else if c = '\r' then .goOn ⟨.foldingCarriage, s.seen⟩
    else (afterBackslash s.seen c).inLines
  | .text (.hex left value) => (afterHex left value s.seen c).inLines
  | .quotes n =>
    if c = quote then
      if n < 4 then .goOn ⟨.quotes (n + 1), s.seen⟩
      else .endAfter ⟨.text .plain, quote :: quote :: s.seen⟩
    else if n < 3 then stepPlain literal quote (List.replicate n quote ++ s.seen) c
    else .endBefore ⟨.text .plain, List.replicate (n - 3) quote ++ s.seen⟩
  | .carriage => if c = '\n' then .goOn ⟨.text .plain, '\n' :: s.seen⟩ else .fail
  | .folding =>
    if isBlank c then .goOn s
    else if c = '\n' then .goOn ⟨.folded, s.seen⟩
    else if c = '\r' then .goOn ⟨.foldingCarriage, s.seen⟩
    else .fail
  | .foldingCarriage => if c = '\n' then .goOn ⟨.folded, s.seen⟩ else .fail
  | .folded =>
    if isBlank c || c = '\n' then .goOn s
    else if c = '\r' then .goOn ⟨.foldedCarriage, s.seen⟩
    else stepPlain literal quote s.seen c
  | .foldedCarriage => if c = '\n' then .goOn ⟨.folded, s.seen⟩ else .fail

/-- A string of several lines may only end after three quotation marks. -/
def LinesState.mayEnd (s : LinesState) : Bool :=
  match s.stage with
  | .quotes n => 3 ≤ n
  | _ => false

/-- The text of a finished scan. -/
def LinesState.text (quote : Char) (s : LinesState) : String :=
  let marks := match s.stage with | .quotes n => List.replicate (n - 3) quote | _ => []
  String.ofList (marks ++ s.seen).reverse

/-- A string of several lines, after its three opening quotation marks. A line
break right after them does not belong to it. -/
def linesString? (literal : Bool) (quote : Char) (cs : List Char) : Option (String × List Char) :=
  let cs := (newline? cs).getD cs
  (scan (stepLines literal quote) LinesState.mayEnd ⟨.text .plain, []⟩ cs).map
    fun r => (r.1.text quote, r.2)

/-- A string of any form. -/
def string? : List Char → Option (String × List Char)
  | '"' :: '"' :: '"' :: cs => linesString? false '"' cs
  | '"' :: cs => basicString? cs
  | '\'' :: '\'' :: '\'' :: cs => linesString? true '\'' cs
  | '\'' :: cs => literalString? cs
  | _ => none

/-! ## Keys -/

/-- A character of a bare key. -/
def isBareKeyChar (c : Char) : Bool :=
  c.isAlphanum || c = '_' || c = '-'

/-- One part of a key. -/
def simpleKey? : List Char → Option (String × List Char)
  | '"' :: cs => basicString? cs
  | '\'' :: cs => literalString? cs
  | cs =>
    let key := cs.takeWhile isBareKeyChar
    if key.isEmpty then none else some (String.ofList key, cs.dropWhile isBareKeyChar)

/-- The parts of a key between points, at most `fuel` of them. -/
def keyParts? (fuel : Nat) (cs : List Char) : Option (List String × List Char) :=
  match fuel with
  | 0 => none
  | fuel + 1 => do
    let (part, rest) ← simpleKey? (skipBlanks cs)
    match skipBlanks rest with
    | '.' :: rest =>
      let (parts, rest) ← keyParts? fuel rest
      return (part :: parts, rest)
    | rest => return ([part], rest)

/-- A key has fewer than 80 parts. -/
def key? (cs : List Char) : Option (List String × List Char) :=
  keyParts? 79 cs

end ShellGloss.Toml
