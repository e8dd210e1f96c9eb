import ShellGloss.Text.Alphanumeric

/-!
# Where the configuration is

The name of the overlay file may mention variables and, at its start, the home
directory. When a variable is not set, no variable is filled in.
-/

namespace ShellGloss

/-- The values of the variables that are set. -/
abbrev Environment : Type :=
  String → Option String

/-- The environment in which these variables are set, each once. A name is looked
for as the start of a `NAME=VALUE`, so the part of a name after an equals sign has
to be found at the start of the value. The empty name is never set. -/
def Environment.ofList (entries : List (String × String)) : Environment := fun name =>
  if name.isEmpty then none
  else entries.findSome? fun e =>
    ((name ++ "=").toList.isPrefixOf? (e.1 ++ "=" ++ e.2).toList).map String.ofList

/-! ## Variables -/

/-- A piece of a text with variables in it. -/
inductive TemplatePiece where
  | char (char : Char)
  /-- A variable, and what to take when it is not set. -/
  | reference (name : List Char) (default : Option (List Char))
deriving DecidableEq, Repr

namespace TemplatePiece

/-- A character of the name of a variable that is written without braces. -/
def isNameChar (c : Char) : Bool :=
  Text.isAlphanumeric c || c = '_'

/-- A text before and after the first `:-` in it. -/
def splitAtDefault : List Char → Option (List Char × List Char)
  | [] => none
  | ':' :: '-' :: cs => some ([], cs)
  | c :: cs => (splitAtDefault cs).map fun r => (c :: r.1, r.2)

/-- What stands between braces: a name, and a default unless the name would be empty. -/
def ofBraces (body : List Char) : TemplatePiece :=
  match splitAtDefault body with
  | some (c :: name, default) => .reference (c :: name) (some default)
  | _ => .reference body none

/-- What stands before the closing brace. -/
def beforeBrace? (cs : List Char) : Option (List Char) :=
  if cs.contains '\x7d' then some (cs.takeWhile (· ≠ '\x7d')) else none

/-- The pieces of a text, without its first `skip` characters. A dollar sign that
begins no variable stands for itself, and so do two of them together for one. -/
def parse : Nat → List Char → List TemplatePiece
  | _, [] => []
  | skip + 1, _ :: cs => parse skip cs
  | 0, c :: cs =>
    if c ≠ '$' then .char c :: parse 0 cs
    else
      match cs with
      | '$' :: _ => .char '$' :: parse 1 cs
      | '\x7b' :: inside =>
        match beforeBrace? inside with
        | some body => ofBraces body :: parse (body.length + 2) cs
        | none => .char '$' :: .char '\x7b' :: parse 1 cs
      | _ =>
        match cs.takeWhile isNameChar with
        | [] => .char '$' :: parse 0 cs
        | name => .reference name none :: parse name.length cs

/-- The text of a piece; nothing for a variable that is not set. -/
def expand? (env : Environment) : TemplatePiece → Option (List Char)
  | char c => some [c]
  | reference name default =>
    match env (String.ofList name) with
    | some value => some value.toList
    | none => default

end TemplatePiece

/-- A text with its variables filled in, unless one of them is not set. -/
def expandVariables? (env : Environment) (text : List Char) : Option (List Char) :=
  ((TemplatePiece.parse 0 text).mapM (TemplatePiece.expand? env)).map List.flatten

/-! ## The home directory -/

/-- The home directory, if it has a name. -/
def homeDirectory? (env : Environment) : Option (List Char) :=
  match env "HOME" with
  | some home => if home.isEmpty then none else some home.toList
  | none => none

/-- A text with the home directory for a tilde at its start, where a slash or
nothing follows. -/
def expandTilde (env : Environment) (text : List Char) : List Char :=
  match text, homeDirectory? env with
  | ['~'], some home => home
  | '~' :: '/' :: cs, some home => home ++ '/' :: cs
  | _, _ => text

/-- A name of a file with its variables filled in and the home directory for its
tilde. A tilde that a variable brings in stays as it is. -/
def expandName (env : Environment) (text : List Char) : List Char :=
  match expandVariables? env text with
  | none => expandTilde env text
  | some expanded => if text.head? = some '~' then expandTilde env expanded else expanded

/-! ## Files -/

/-- The variable that names the overlay file. -/
def configVariable : String :=
  "SHELLEXPLAIN_CONFIG"

/-- The overlay file where no variable names one. -/
def usualConfigName : String :=
  "~/.config/shellexplain/config.toml"

/-- The name of the overlay file. -/
def configPath (env : Environment) : String :=
  String.ofList (expandName env ((env configVariable).getD usualConfigName).toList)

/-- A directory and a name below it, with one slash between them. -/
def joinPath (directory name : String) : String :=
  if directory.isEmpty || directory.toList.getLast? = some '/' then directory ++ name
  else directory ++ "/" ++ name

/-- The directory of the log. -/
def logDirectory? (env : Environment) : Option String :=
  (env "HOME").map fun home => joinPath home ".local/share/shellexplain"

/-- The log. -/
def logPath? (env : Environment) : Option String :=
  (logDirectory? env).map fun directory => joinPath directory "explain.log"

end ShellGloss
