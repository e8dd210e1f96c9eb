import ShellGloss.Json.Basic
import ShellGloss.Node.Basic

/-!
# Nodes as JSON values

The written form of a node: an object with every field present, `null` for what
is absent, and the kind first. A payload that stands inside another node, such as
the option of an `optionWithArg`, has no kind.
-/

namespace ShellGloss

/-- A span as a pair. -/
def Span.toJson (s : Span) : Json :=
  .arr [.ofNat s.start, .ofNat s.stop]

/-- The members of a word. -/
def Word.members (w : Word) : List (String × Json) :=
  [("position", w.span.toJson), ("word", .str w.word)]

/-- A schema as an object. -/
def CommandSchema.toJson (s : CommandSchema) : Json :=
  .obj [("name", .str s.name), ("summary", .str s.summary)]

/-- A schema as an object. -/
def OptionSchema.toJson (s : OptionSchema) : Json :=
  .obj [("long", .ofTexts s.long), ("short", .ofTexts s.short), ("summary", .str s.summary),
    ("expectsArg", .bool s.expectsArg), ("argInNextToken", .bool s.argInNextToken)]

/-- The members of a program. -/
def Program.members (p : Program) : List (String × Json) :=
  [("position", p.span.toJson), ("word", .str p.word), ("name", .str p.name),
    ("schema", .ofOption CommandSchema.toJson p.schema)]

/-- The members of a subcommand. -/
def Subcommand.members (s : Subcommand) : List (String × Json) :=
  [("position", s.span.toJson), ("word", .str s.word),
    ("schema", .ofOption CommandSchema.toJson s.schema)]

/-- The members of an option. -/
def Flag.members (o : Flag) : List (String × Json) :=
  [("position", o.span.toJson), ("word", .str o.word), ("opt", .str o.name),
    ("optionSchema", .ofOption OptionSchema.toJson o.schema)]

/-- The members of an option with its value. -/
def BoundFlag.members (o : BoundFlag) : List (String × Json) :=
  [("position", o.span.toJson), ("option", .obj o.option.members),
    ("argument", .obj o.argument.members)]

/-- The members of an assignment. -/
def Assignment.members (a : Assignment) : List (String × Json) :=
  [("position", a.span.toJson), ("name", .str a.name), ("value", .str a.value)]

/-- The members of a redirect. -/
def Redirect.members (r : Redirect) : List (String × Json) :=
  [("position", r.span.toJson), ("type", .str r.op.text), ("input", .ofOption .ofNat r.input),
    ("output", .ofOption (fun w => .obj w.members) r.output),
    ("output_fd", .ofOption .ofNat r.outputFd)]

namespace Node

mutual

/-- A node as an object. -/
def toJson : Node → Json
  | program p => .obj (("kind", .str "program") :: p.members)
  | subcommand s => .obj (("kind", .str "subcommand") :: s.members)
  | option o => .obj (("kind", .str "option") :: o.members)
  | optionWithArg o => .obj (("kind", .str "optionWithArg") :: o.members)
  | sticky s w os =>
    .obj [("kind", .str "stickyOption"), ("position", s.toJson), ("word", .str w),
      ("options", .arr (listToJson os))]
  | assignment a => .obj (("kind", .str "assignment") :: a.members)
  | redirect r => .obj (("kind", .str "redirect") :: r.members)
  | word k w => .obj (("kind", .str k.kind.name) :: w.members)
  | group k s ps =>
    .obj [("kind", .str k.kind.name), ("position", s.toJson), ("parts", .arr (listToJson ps))]

/-- Nodes as objects. -/
def listToJson : List Node → List Json
  | [] => []
  | n :: ns => n.toJson :: listToJson ns

end

@[simp] theorem listToJson_eq_map (ns : List Node) : listToJson ns = ns.map toJson := by
  induction ns with
  | nil => rfl
  | cons n ns ih => simp [listToJson, ih]

end Node

end ShellGloss
