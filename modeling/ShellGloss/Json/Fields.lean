import ShellGloss.Json.Basic
import ShellGloss.Number.Word
import ShellGloss.Text.Accents

/-!
# Reading records

A record is written as an object of named members or as an array of its fields
in order. `Fields ν α` describes the fields of a record `α`: their names, how
each is read from what is known of its value (`ν`), and how the record is made of
them. Both written forms are read from the one description.

The members of an object are judged in the order of the text: a repeated field,
or one of the wrong shape, is reported where it is met. Members that are not
fields are passed over. Only then is a missing field reported, the first in the
order of the description.
-/

namespace ShellGloss

/-- Why a JSON value does not describe what it should. -/
inductive DecodeError where
  | missingField (name : String)
  | duplicateField (name : String)
  | unknownVariant (given : String) (expected : List String)
  | invalidType
  | invalidValue
  | invalidLength
deriving DecidableEq, Repr

/-- The wording of an error. -/
def DecodeError.message : DecodeError → String
  | missingField name => "missing field " ++ inAccents name
  | duplicateField name => "duplicate field " ++ inAccents name
  | unknownVariant given expected =>
    "unknown variant " ++ inAccents given ++ ", expected one of "
      ++ ", ".intercalate (expected.map inAccents)
  | invalidType => "invalid type"
  | invalidValue => "invalid value"
  | invalidLength => "invalid length"

/-- The outcome of reading a value. -/
abbrev Decoded (α : Type) : Type :=
  Except DecodeError α

/-- The fields of a record. `checks` names them in order and judges their values;
`build` makes the record, given the value of each field that is there and the
error for one that is not. -/
structure Fields (ν α : Type) where
  checks : List (String × (ν → Decoded Unit))
  build : (String → Option ν) → (String → DecodeError) → Decoded α

namespace Fields

variable {μ ν α β : Type}

/-! ## Descriptions -/

/-- A record without fields. -/
protected def pure (a : α) : Fields ν α :=
  ⟨[], fun _ _ => .ok a⟩

/-- The fields of a function and then those of its argument. -/
protected def seq (f : Fields ν (α → β)) (a : Fields ν α) : Fields ν β :=
  ⟨f.checks ++ a.checks, fun get absent => do
    let g ← f.build get absent
    let x ← a.build get absent
    return g x⟩

instance : Applicative (Fields ν) where
  pure := Fields.pure
  seq f a := f.seq (a ())

/-- A field that must be there. -/
def required (name : String) (read : ν → Decoded α) : Fields ν α :=
  ⟨[(name, fun v => (read v).map fun _ => ())], fun get absent =>
    match get name with
    | some v => read v
    | none => .error (absent name)⟩

/-- A field that is `default` when it is not there. -/
def optional (name : String) (default : α) (read : ν → Decoded α) : Fields ν α :=
  ⟨[(name, fun v => (read v).map fun _ => ())], fun get _ =>
    match get name with
    | some v => read v
    | none => .ok default⟩

/-- The same fields, their values found in something that holds more. -/
def comap (g : μ → ν) (f : Fields ν α) : Fields μ α :=
  ⟨f.checks.map fun c => (c.1, c.2 ∘ g), fun get => f.build fun name => (get name).map g⟩

/-- The names of the fields, in order. -/
def names (f : Fields ν α) : List String :=
  f.checks.map Prod.fst

/-! ## Reading -/

/-- Judges members in order; `seen` are the fields already met. -/
def checkMembers (checks : List (String × (ν → Decoded Unit))) :
    List String → List (String × ν) → Decoded Unit
  | _, [] => .ok ()
  | seen, (name, v) :: rest =>
    match checks.lookup name with
    | none => checkMembers checks seen rest
    | some check =>
      if seen.contains name then .error (.duplicateField name)
      else
        match check v with
        | .error e => .error e
        | .ok _ => checkMembers checks (name :: seen) rest

/-- The record that the members of an object describe. -/
def readMembers (f : Fields ν α) (members : List (String × ν)) : Decoded α := do
  checkMembers f.checks [] members
  f.build (fun name => members.lookup name) .missingField

/-- The record that the items of an array describe. Optional fields at the end may
be left out. -/
def readItems (f : Fields ν α) (items : List ν) : Decoded α := do
  let members := f.names.zip items
  checkMembers f.checks [] members
  let a ← f.build (fun name => members.lookup name) fun _ => .invalidLength
  if f.names.length < items.length then .error .invalidLength else .ok a

/-- The record that a value describes. -/
def read (f : Fields Json α) : Json → Decoded α
  | .obj members => f.readMembers members
  | .arr items => f.readItems items
  | _ => .error .invalidType

end Fields

/-! ## Values of a single field -/

namespace Json

open ShellGloss.Number (fitsUnsigned fitsWord)

/-- A natural number of so many bits. A number that is not an integer of 64 bits
is of the wrong type, any other that does not fit is a wrong value. -/
def readNat (bits : Nat) : Json → Decoded Nat
  | .num (.int z) =>
    if fitsUnsigned bits z then .ok z.toNat
    else if fitsWord 64 z then .error .invalidValue
    else .error .invalidType
  | _ => .error .invalidType

/-- A truth value. -/
def readBool : Json → Decoded Bool
  | .bool b => .ok b
  | _ => .error .invalidType

/-- A text. -/
def readText : Json → Decoded String
  | .str s => .ok s
  | _ => .error .invalidType

/-- A list, each of whose items is read in turn. -/
def readList {α : Type} (read : Json → Decoded α) : Json → Decoded (List α)
  | .arr items => items.mapM read
  | _ => .error .invalidType

/-- A value that may be `null`. -/
def readOption {α : Type} (read : Json → Decoded α) : Json → Decoded (Option α)
  | .null => .ok none
  | v => (read v).map some

end Json

end ShellGloss
