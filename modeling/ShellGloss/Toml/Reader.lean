import ShellGloss.Toml.Scalar
import ShellGloss.Toml.Scan
import ShellGloss.Toml.Tables

/-!
# Reading TOML texts

A text is a sequence of lines: a header, a key with its value, a comment, or
nothing. A value may go over several lines.

Values may be nested to a depth of 79. Apart from that the functions below are
bounded by a number that starts at the length of the text and is never used up,
since each of them takes a character at least from the text before it goes on.
-/

namespace ShellGloss.Toml

mutual

/-- A value, in which `depth` arrays and tables may be nested. -/
def value? (fuel depth : Nat) (cs : List Char) : Option (Toml × List Char) :=
  match fuel with
  | 0 => none
  | fuel + 1 =>
    match cs with
    | '[' :: rest =>
      match depth with
      | 0 => none
      | depth + 1 => (items? fuel depth [] rest).map fun r => (.array r.1, r.2)
    | '\x7b' :: rest =>
      match depth with
      | 0 => none
      | depth + 1 =>
        match skipBlanks rest with
        | '\x7d' :: rest => some (.table [], rest)
        | rest => (members? fuel depth [] rest).map fun r => (.table (entriesToToml r.1), r.2)
    | c :: _ =>
      if c = '"' || c = '\'' then (string? cs).map fun r => (.text r.1, r.2) else scalar cs
    | [] => none

/-- The items of an array after those already `found`, which are in reverse order. -/
def items? (fuel depth : Nat) (found : List Toml) (cs : List Char) :
    Option (List Toml × List Char) :=
  match fuel with
  | 0 => none
  | fuel + 1 =>
    match skipLines cs.length cs with
    | ']' :: rest => some (found.reverse, rest)
    | cs =>
      match value? fuel depth cs with
      | none => none
      | some (v, rest) =>
        match skipLines rest.length rest with
        | ',' :: rest => items? fuel depth (v :: found) rest
        | ']' :: rest => some ((v :: found).reverse, rest)
        | _ => none

/-- The entries of a table on one line, added to those already `found`. -/
def members? (fuel depth : Nat) (found : Entries) (cs : List Char) :
    Option (Entries × List Char) :=
  match fuel with
  | 0 => none
  | fuel + 1 =>
    match key? cs with
    | some (keys, '=' :: rest) =>
      match value? fuel depth (skipBlanks rest) with
      | none => none
      | some (v, rest) =>
        match assign keys v found with
        | none => none
        | some found =>
          match skipBlanks rest with
          | ',' :: rest => members? fuel depth found rest
          | '\x7d' :: rest => some (found, rest)
          | _ => none
    | _ => none

end

/-- One line, and what is left after it. -/
def line? (b : Builder) (cs : List Char) : Option (Builder × List Char) :=
  match skipBlanks cs with
  | '[' :: '[' :: rest =>
    match key? rest with
    | some (keys, ']' :: ']' :: rest) => do
      let b ← b.openElement keys
      return (b, ← endLine? rest)
    | _ => none
  | '[' :: rest =>
    match key? rest with
    | some (keys, ']' :: rest) => do
      let b ← b.openTable keys
      return (b, ← endLine? rest)
    | _ => none
  | rest =>
    match endLine? rest with
    | some rest => some (b, rest)
    | none =>
      match key? rest with
      | some (keys, '=' :: rest) => do
        let rest := skipBlanks rest
        let (v, rest) ← value? (2 * rest.length + 2) 79 rest
        let rest ← endLine? rest
        return (← b.put keys v, rest)
      | _ => none

/-- All lines, at most `fuel` of them. -/
def lines? : Nat → Builder → List Char → Option Builder
  | _, b, [] => some b
  | 0, _, _ :: _ => none
  | fuel + 1, b, cs => do
    let (b, rest) ← line? b cs
    lines? fuel b rest

/-- A text without a byte order mark in front. -/
def skipMark : List Char → List Char
  | '\uFEFF' :: cs => cs
  | cs => cs

/-- The entries of the table that a text describes. -/
def read? (text : String) : Option (List (String × Toml)) := do
  let cs := skipMark text.toList
  let b ← lines? cs.length .start cs
  return entriesToToml (← b.settle)

end ShellGloss.Toml
