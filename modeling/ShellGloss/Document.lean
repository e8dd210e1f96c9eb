import ShellGloss.Log
import ShellGloss.Node.Check
import ShellGloss.Node.Decode

/-!
# Documents

A document is a source text together with its tree. Reading one checks the tree,
by itself and against the source.

Of a text that is no JSON, the error reported is the first that a reader meets:
a fault in a part that had been read before the text went wrong comes before the
fault of the text.
-/

namespace ShellGloss

/-- A command line and its tree. -/
structure Document where
  source : String
  tree : Node
deriving Repr, Inhabited

/-- Why a text does not describe a tree. -/
inductive ReadError where
  | text (fault : Json.TextFault)
  | data (error : DecodeError)
deriving DecidableEq, Repr

/-- Why a text is refused: it describes no tree, or the tree breaks a rule. -/
inductive InputError where
  | unreadable (error : ReadError)
  | invalid (violation : Violation)
deriving DecidableEq, Repr

/-- The wording of an error. -/
def ReadError.message : ReadError → String
  | text _ => "failed to decode command tree"
  | data e => "failed to decode command tree: " ++ e.message

/-- The wording of an error. -/
def InputError.message : InputError → String
  | unreadable e => e.message
  | invalid v => v.message

/-! ## Texts -/

/-- Reads a text by way of a JSON value. `early` finds the fault of what had been
read when the text goes wrong. -/
def readThrough {α : Type} (ignored : String → Bool) (ofJson : Json → Except ReadError α)
    (early : Json.Fragment → Option ReadError) (text : String) : Except ReadError α :=
  match Json.readIgnoring ignored text with
  | .ok v => ofJson v
  | .error broken => .error ((early broken.fragment).getD (.text broken.fault))

/-- An outcome as that of reading a text. -/
def asData {α : Type} (d : Decoded α) : Except ReadError α :=
  d.mapError .data

namespace Node

/-- The tree that a text describes, unchecked. -/
def read (text : String) : Except ReadError Node :=
  readThrough (fun _ => false) (fun v => asData (ofJson v))
    (fun f => (earlyFault f).map .data) text

/-- The list of trees that a text describes, unchecked. -/
def readList (text : String) : Except ReadError (List Node) :=
  readThrough (fun _ => false) (fun v => asData (listOfJson v))
    (fun f => (listEarlyFault f).map .data) text

/-- The tree that a text describes, checked. -/
def readChecked (text : String) : Except InputError Node := do
  let n ← (read text).mapError .unreadable
  n.check.mapError .invalid
  return n

end Node

namespace Document

/-- The fields of a document. -/
def fields : Fields Json Document :=
  Document.mk <$> .required "source" Json.readText <*> .required "ast" Node.ofJson

/-- The document that a value describes. In an array, more items than there are
fields count as a fault of the text. -/
def ofJson : Json → Except ReadError Document
  | .obj members => asData (fields.readMembers members)
  | .arr items => do
    let d ← asData (fields.readItems (items.take 2))
    if 2 < items.length then .error (.text .malformed) else .ok d
  | _ => .error (.data .invalidType)

/-- What is wrong with a field of which something had been read. -/
def fieldEarlyFault (name : String) (f : Json.Fragment) : Option ReadError :=
  if name = "source" then (Node.containerFault f).map .data
  else if name = "ast" then (Node.earlyFault f).map .data
  else none

/-- What is wrong with a document that had been read in part. -/
def earlyFault : Json.Fragment → Option ReadError
  | .nothing => none
  | .whole v =>
    match ofJson v with
    | .error e => some e
    | .ok _ => none
  | .members complete next =>
    match Fields.checkMembers fields.checks [] complete with
    | .error e => some (.data e)
    | .ok _ =>
      match next with
      | none => none
      | some (name, inner) =>
        if fields.names.contains name && complete.any (fun m => m.1 == name) then
          some (.data (.duplicateField name))
        else fieldEarlyFault name inner
  | .items complete next =>
    match Fields.checkMembers fields.checks [] (fields.names.zip complete) with
    | .error e => some (.data e)
    | .ok _ =>
      if fields.names.length < complete.length then some (.text .malformed)
      else
        match next with
        | none => none
        | some inner =>
          match fields.names[complete.length]? with
          | some name => fieldEarlyFault name inner
          | none => some (.text .malformed)

/-- The document that a text describes, unchecked. Members that are not fields of
a document are not looked at. -/
def read (text : String) : Except ReadError Document :=
  readThrough (fun name => !fields.names.contains name) ofJson earlyFault text

/-- The first rule that a document breaks. -/
def check (d : Document) : Checked := do
  d.tree.check
  d.tree.checkStarts d.source.length

/-- The document that a text describes, checked. -/
def readChecked (text : String) : Except InputError Document := do
  let d ← (read text).mapError .unreadable
  d.check.mapError .invalid
  return d

/-- What is noted when a document has been read and checked. -/
def record (d : Document) : Log.Record :=
  ⟨.debug, "decoded document: " ++ toString d.source.length ++ " chars, root "
    ++ d.tree.kind.name ++ " " ++ d.tree.span.render⟩

end Document

end ShellGloss
