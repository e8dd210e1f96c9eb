import ShellGloss.Json.Fields
import ShellGloss.Json.Reader
import ShellGloss.Node.Basic

/-!
# Nodes from JSON values

A node is an object whose `kind` says which fields it has, or an array that
begins with the kind. The kind is judged first, and every `kind` in the order of
the text. Inside another node a kind may also be given by its number.

When a text goes wrong inside a node, what is wrong with the kind is still
reported if it had been met before; see `Node.earlyFault`.
-/

namespace ShellGloss

/-- A pair of offsets. -/
def Span.ofJson : Json → Decoded Span
  | .arr items =>
    match items with
    | [] => .error .invalidLength
    | [a] => do
      let _ ← a.readNat 64
      .error .invalidLength
    | a :: b :: rest => do
      let start ← a.readNat 64
      let stop ← b.readNat 64
      if rest.isEmpty then .ok ⟨start, stop⟩ else .error .invalidLength
  | _ => .error .invalidType

/-- The field that every node has. -/
def Span.field : Fields Json Span :=
  .required "position" Span.ofJson

/-- The fields of a word. -/
def Word.fields : Fields Json Word :=
  Word.mk <$> Span.field <*> .required "word" Json.readText

/-- The fields of what is known of a command. -/
def CommandSchema.fields : Fields Json CommandSchema :=
  CommandSchema.mk <$> .required "name" Json.readText <*> .optional "summary" "" Json.readText

/-- The fields of what is known of an option. -/
def OptionSchema.fields : Fields Json OptionSchema :=
  OptionSchema.mk
    <$> .optional "long" [] (Json.readList Json.readText)
    <*> .optional "short" [] (Json.readList Json.readText)
    <*> .optional "summary" "" Json.readText
    <*> .optional "expectsArg" false Json.readBool
    <*> .optional "argInNextToken" false Json.readBool

/-- The fields of a program. -/
def Program.fields : Fields Json Program :=
  Program.mk <$> Span.field
    <*> .required "word" Json.readText
    <*> .required "name" Json.readText
    <*> .optional "schema" none (Json.readOption CommandSchema.fields.read)

/-- The fields of a subcommand. -/
def Subcommand.fields : Fields Json Subcommand :=
  Subcommand.mk <$> Span.field
    <*> .required "word" Json.readText
    <*> .optional "schema" none (Json.readOption CommandSchema.fields.read)

/-- The fields of an option. -/
def Flag.fields : Fields Json Flag :=
  Flag.mk <$> Span.field
    <*> .required "word" Json.readText
    <*> .required "opt" Json.readText
    <*> .optional "optionSchema" none (Json.readOption OptionSchema.fields.read)

/-- The fields of an option with its value. -/
def BoundFlag.fields : Fields Json BoundFlag :=
  BoundFlag.mk <$> Span.field
    <*> .required "option" Flag.fields.read
    <*> .required "argument" Word.fields.read

/-- The fields of an assignment. -/
def Assignment.fields : Fields Json Assignment :=
  Assignment.mk <$> Span.field
    <*> .required "name" Json.readText
    <*> .required "value" Json.readText

/-- The operator of that text. -/
def RedirectOp.ofName (s : String) : Decoded RedirectOp :=
  match ofText? s with
  | some op => .ok op
  | none => .error (.unknownVariant s (all.map text))

/-- An operator, alone or as the only member of an object that says nothing more. -/
def RedirectOp.ofJson : Json → Decoded RedirectOp
  | .str s => ofName s
  | .obj [(s, payload)] => do
    let op ← ofName s
    match payload with
    | .null | .obj [] => .ok op
    | _ => .error .invalidType
  | .obj _ => .error .invalidValue
  | _ => .error .invalidType

/-- The fields of a redirect. -/
def Redirect.fields : Fields Json Redirect :=
  Redirect.mk <$> Span.field
    <*> .required "type" RedirectOp.ofJson
    <*> .optional "input" none (Json.readOption (Json.readNat 32))
    <*> .optional "output" none (Json.readOption Word.fields.read)
    <*> .optional "output_fd" none (Json.readOption (Json.readNat 32))

namespace Kind

/-- A kind by its name. -/
def ofJson : Json → Decoded Kind
  | .str s =>
    match ofName? s with
    | some k => .ok k
    | none => .error (.unknownVariant s (all.map name))
  | _ => .error .invalidType

/-- A kind by its name or its number. -/
def ofJsonOrNumber : Json → Decoded Kind
  | .num (.int z) =>
    if Number.fitsUnsigned 64 z then
      match all[z.toNat]? with
      | some k => .ok k
      | none => .error .invalidValue
    else .error .invalidType
  | v => ofJson v

end Kind

namespace Node

/-- A value inside a node, and what it comes to where a list of nodes is wanted. -/
structure Slot where
  value : Json
  nodes : Decoded (List Node)

/-- Fields in which no nodes stand. -/
def flat {α : Type} (make : α → Node) (f : Fields Json α) : Fields Slot Node :=
  make <$> f.comap Slot.value

/-- The fields of a group. -/
def groupFields (k : GroupKind) : Fields Slot Node :=
  group k <$> Span.field.comap Slot.value <*> .required "parts" Slot.nodes

/-- The fields of a node of each kind. -/
def fields : Kind → Fields Slot Node
  | .program => flat program Program.fields
  | .subcommand => flat subcommand Subcommand.fields
  | .option => flat option Flag.fields
  | .optionWithArg => flat optionWithArg BoundFlag.fields
  | .stickyOption =>
    sticky <$> Span.field.comap Slot.value
      <*> .required "word" (fun s => s.value.readText)
      <*> .required "options" Slot.nodes
  | .argument => flat (word .argument) Word.fields
  | .assignment => flat assignment Assignment.fields
  | .operator => flat (word .operator) Word.fields
  | .pipe => flat (word .pipe) Word.fields
  | .redirect => flat redirect Redirect.fields
  | .reservedWord => flat (word .reservedWord) Word.fields
  | .word => flat (word .word) Word.fields
  | .superuser => flat (word .superuser) Word.fields
  | .command => groupFields .command
  | .list => groupFields .list
  | .pipeline => groupFields .pipeline

/-- The kind among the members, each `kind` judged where it is met. -/
def findKind (readKind : Json → Decoded Kind) : Option Kind → List (String × Json) →
    Decoded (Option Kind)
  | found, [] => .ok found
  | found, (name, v) :: rest =>
    if name = "kind" then
      match found with
      | some _ => .error (.duplicateField "kind")
      | none => do findKind readKind (some (← readKind v)) rest
    else findKind readKind found rest

/-- The node that the members of an object describe. -/
def ofMembers (readKind : Json → Decoded Kind) (members : List (String × Slot)) : Decoded Node := do
  match ← findKind readKind none (members.map fun m => (m.1, m.2.value)) with
  | none => .error (.missingField "kind")
  | some k => (fields k).readMembers members

/-- The node that the items of an array describe. -/
def ofItems (readKind : Json → Decoded Kind) : List Slot → Decoded Node
  | [] => .error (.missingField "kind")
  | kind :: rest => do (fields (← readKind kind.value)).readItems rest

mutual

/-- A node that stands inside another. -/
def ofInnerJson : Json → Decoded Node
  | .obj members => ofMembers Kind.ofJsonOrNumber (memberSlots members)
  | .arr items => ofItems Kind.ofJsonOrNumber (itemSlots items)
  | _ => .error .invalidType

/-- The nodes that stand inside another. -/
def listOfInnerJson : Json → Decoded (List Node)
  | .arr items => listOfItems items
  | _ => .error .invalidType

/-- The nodes that the items of an array describe. -/
def listOfItems : List Json → Decoded (List Node)
  | [] => .ok []
  | v :: vs => do
    let n ← ofInnerJson v
    let ns ← listOfItems vs
    return n :: ns

/-- The members of an object, each with the nodes that it may be. -/
def memberSlots : List (String × Json) → List (String × Slot)
  | [] => []
  | (name, v) :: rest => (name, ⟨v, listOfInnerJson v⟩) :: memberSlots rest

/-- The items of an array, each with the nodes that it may be. -/
def itemSlots : List Json → List Slot
  | [] => []
  | v :: vs => ⟨v, listOfInnerJson v⟩ :: itemSlots vs

end

/-- A node that stands alone. -/
def ofJson : Json → Decoded Node
  | .obj members => ofMembers Kind.ofJson (memberSlots members)
  | .arr items => ofItems Kind.ofJson (itemSlots items)
  | _ => .error .invalidType

/-- A list of nodes, each of which stands alone. -/
def listOfJson : Json → Decoded (List Node) :=
  Json.readList ofJson

/-- A slot is a function of its value. -/
def slot (v : Json) : Slot :=
  ⟨v, listOfInnerJson v⟩

theorem listOfItems_eq_mapM (vs : List Json) : listOfItems vs = vs.mapM ofInnerJson := by
  induction vs with
  | nil => rfl
  | cons v vs ih => simp only [listOfItems, List.mapM_cons, ih]

theorem memberSlots_eq_map (ms : List (String × Json)) :
    memberSlots ms = ms.map fun m => (m.1, slot m.2) := by
  induction ms with
  | nil => rfl
  | cons m ms ih => simp [memberSlots, slot, ih]

theorem itemSlots_eq_map (vs : List Json) : itemSlots vs = vs.map slot := by
  induction vs with
  | nil => rfl
  | cons v vs ih => simp [itemSlots, slot, ih]

/-! ## Texts that go wrong -/

/-- The error of a field that no array and no object can be. -/
def containerFault : Json.Fragment → Option DecodeError
  | .items .. | .members .. => some .invalidType
  | _ => none

/-- The error of an outcome. -/
def faultOf {α : Type} : Decoded α → Option DecodeError
  | .error e => some e
  | .ok _ => none

/-- What is wrong with a node that had been read in part. -/
def earlyFault : Json.Fragment → Option DecodeError
  | .nothing => none
  | .whole v => faultOf (ofJson v)
  | .items [] next => next.bind containerFault
  | .items (kind :: _) _ => faultOf (Kind.ofJson kind)
  | .members complete next =>
    match findKind Kind.ofJson none complete with
    | .error e => some e
    | .ok found =>
      match next with
      | some (name, inner) =>
        if name = "kind" then
          if found.isSome then some (.duplicateField "kind") else containerFault inner
        else none
      | none => none

/-- What is wrong with a list of nodes that had been read in part. -/
def listEarlyFault : Json.Fragment → Option DecodeError
  | .nothing => none
  | .whole v => faultOf (listOfJson v)
  | .members .. => some .invalidType
  | .items complete next =>
    match complete.mapM ofJson with
    | .error e => some e
    | .ok _ => next.bind earlyFault

end Node

end ShellGloss
