import ShellGloss.Node.Basic
import ShellGloss.Text.Blank

/-!
# What a leaf does

One sentence about a leaf, taken from what is known of it or from the shell's
rules. Some leaves have nothing to be said about them.
-/

namespace ShellGloss

/-- A summary without the blanks at its ends, unless nothing is left of it. -/
def tidySummary (s : String) : Option String :=
  let t := Text.trimmed s
  if t.isEmpty then none else some t

/-- What a schema says of a command. -/
def CommandSchema.meaning (s : CommandSchema) : Option String :=
  tidySummary s.summary

/-- What a schema says of an option. -/
def Flag.meaning (o : Flag) : Option String :=
  o.schema.bind fun s => tidySummary s.summary

/-- What is said of an option and its value. -/
def BoundFlag.meaning (o : BoundFlag) : Option String :=
  o.option.meaning.map fun s => s ++ " (value: " ++ o.argument.word ++ ")"

/-- What an assignment does. -/
def Assignment.meaning (a : Assignment) : String :=
  if a.value.isEmpty then "sets the variable " ++ a.name ++ " to an empty value"
  else "sets the variable " ++ a.name ++ " to \"" ++ a.value ++ "\""

/-- The name of a descriptor. -/
def descriptorName : Nat → String
  | 0 => "standard input"
  | 1 => "standard output"
  | 2 => "standard error"
  | n => "file descriptor " ++ toString n

/-- The descriptor that an operator redirects unless told otherwise. -/
def RedirectOp.defaultInput : RedirectOp → Nat
  | read => 0
  | _ => 1

/-- What a redirect redirects. -/
def Redirect.sourceName (r : Redirect) : String :=
  descriptorName (r.input.getD r.op.defaultInput)

/-- Where a redirect leads. -/
def Redirect.targetName (r : Redirect) : String :=
  match r.output, r.outputFd with
  | some w, _ => w.word
  | none, some fd => descriptorName fd
  | none, none => "nowhere"

/-- What a redirect does. -/
def Redirect.meaning (r : Redirect) : String :=
  match r.op with
  | .write => "writes " ++ r.sourceName ++ " to " ++ r.targetName
  | .append => "appends " ++ r.sourceName ++ " to " ++ r.targetName
  | .clobber =>
    "writes " ++ r.sourceName ++ " to " ++ r.targetName ++ ", even if noclobber is set"
  | .read => "reads " ++ r.sourceName ++ " from " ++ r.targetName
  | .duplicate => "sends " ++ r.sourceName ++ " to " ++ r.targetName
  | .writeBoth => "writes standard output and standard error to " ++ r.targetName
  | .appendBoth => "appends standard output and standard error to " ++ r.targetName

/-- What an operator between commands does. -/
def operatorMeaning (op : String) : Option String :=
  if op = "&&" then some "runs the next command only if the previous one succeeded"
  else if op = "||" then some "runs the next command only if the previous one failed"
  else if op = ";" then some "runs the next command after the previous one finishes"
  else if op = "&" then some "runs the previous command in the background"
  else none

/-- What a pipe does. -/
def pipeMeaning (pipe : String) : String :=
  if pipe = "|&" then "pipes output and errors of the previous command into the next"
  else "pipes output of the previous command into the next"

/-- What a node that is one word does. -/
def Word.meaning (w : Word) : WordKind → Option String
  | .operator => operatorMeaning w.word
  | .pipe => some (pipeMeaning w.word)
  | .superuser => some "runs the command as another user, root by default"
  | .argument | .reservedWord | .word => none

/-- What a node does. -/
def Node.meaning : Node → Option String
  | program p => p.schema.bind CommandSchema.meaning
  | subcommand s => s.schema.bind CommandSchema.meaning
  | option o => o.meaning
  | optionWithArg o => o.meaning
  | assignment a => some a.meaning
  | redirect r => some r.meaning
  | word k w => w.meaning k
  | sticky .. | group .. => none

end ShellGloss
