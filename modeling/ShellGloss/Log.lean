/-!
# Log records

What is noted while a command line is explained. Records are values that
accompany a result; whether they are written anywhere is decided by a filter and
outside of this library's functions.
-/

namespace ShellGloss.Log

/-- How grave a record is, the gravest first. -/
inductive Level where
  | error
  | warn
  | info
  | debug
  | trace
deriving DecidableEq, Repr, Inhabited

namespace Level

/-- Every level, the gravest first. -/
def all : List Level :=
  [error, warn, info, debug, trace]

/-- The name of a level. -/
def name : Level → String
  | error => "ERROR"
  | warn => "WARN"
  | info => "INFO"
  | debug => "DEBUG"
  | trace => "TRACE"

/-- The place of a level, from the gravest. -/
def rank : Level → Nat
  | error => 1
  | warn => 2
  | info => 3
  | debug => 4
  | trace => 5

end Level

/-- A level and what there is to say. -/
structure Record where
  level : Level
  message : String
deriving DecidableEq, Repr, Inhabited

/-- The least grave level that is still written; `none` writes nothing. -/
structure Filter where
  level? : Option Level
deriving DecidableEq, Repr, Inhabited

namespace Filter

/-- The name of a filter. -/
def name (f : Filter) : String :=
  match f.level? with
  | none => "OFF"
  | some l => l.name

/-- Every filter. -/
def all : List Filter :=
  ⟨none⟩ :: Level.all.map fun l => ⟨some l⟩

/-- The filter of that name, in whatever case its ASCII letters are. -/
def ofName? (s : String) : Option Filter :=
  all.find? fun f => f.name == s.map Char.toUpper

/-- The filter lets a record through. -/
def admits (f : Filter) (r : Record) : Bool :=
  match f.level? with
  | none => false
  | some l => r.level.rank ≤ l.rank

end Filter

end ShellGloss.Log
