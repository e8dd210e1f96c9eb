import ShellGloss.Toml.Basic

/-!
# Building tables

The tables of a TOML text come about in pieces: headers name them, dotted keys
reach into them. A table that a header or a value has defined may not be extended
by a dotted key, and no key and no table may be defined twice. A table that is
only implied by the header of a table below it may still get a header of its own.
-/

namespace ShellGloss.Toml

/-- How a table has come about. -/
inductive Origin where
  /-- A header names it, or it is the table of the whole text. -/
  | header
  /-- A header names a table below it. -/
  | implied
  /-- A dotted key leads through it. -/
  | dotted
deriving DecidableEq, Repr

/-- What a key stands for while tables are built. -/
inductive Item where
  | value (value : Toml)
  | table (origin : Origin) (entries : List (String × Item))
  /-- The tables of an array, each of which a header has begun. -/
  | tables (elements : List (List (String × Item)))
deriving Repr, Inhabited

/-- The entries of a table that is being built. -/
abbrev Entries : Type :=
  List (String × Item)

/-- The entries with another item for a key that is there. -/
def Entries.replace (key : String) (item : Item) (es : Entries) : Entries :=
  es.map fun e => if e.1 = key then (key, item) else e

/-- The entries without a key. -/
def Entries.erase (key : String) (es : Entries) : Entries :=
  es.filter fun e => e.1 ≠ key

/-- Changes the table that a path of keys leads to, making tables where there are
none. A path that is `dotted` may not lead into a table that has a header. In an
array of tables the last one is meant. -/
def changeAt (dotted : Bool) (change : Origin → Entries → Option Entries) :
    List String → Origin → Entries → Option Entries
  | [], origin, es => change origin es
  | key :: path, _, es =>
    match es.lookup key with
    | none => do
      let origin := if dotted then .dotted else .implied
      return es ++ [(key, .table origin (← changeAt dotted change path origin []))]
    | some (.value _) => none
    | some (.tables elements) => do
      let last ← elements.getLast?
      let last ← changeAt dotted change path .header last
      return es.replace key (.tables (elements.dropLast ++ [last]))
    | some (.table origin inner) =>
      if dotted && origin = .header then none
      else do
        return es.replace key (.table origin (← changeAt dotted change path origin inner))

/-- Gives a value to a key. The keys before the last, if there are any, must lead to
a table that dotted keys have made. -/
def assign (keys : List String) (value : Toml) (es : Entries) : Option Entries := do
  let key ← keys.getLast?
  let path := keys.dropLast
  changeAt true (fun origin inner =>
    if (!path.isEmpty && origin ≠ .dotted) || (inner.lookup key).isSome then none
    else some (inner ++ [(key, .value value)])) path .header es

/-! ## Headers -/

/-- A text of which some lines have been read: the finished tables, and the table
whose lines are being read, with the keys of its header. -/
structure Builder where
  root : Entries
  keys : List String
  isElement : Bool
  current : Entries

namespace Builder

/-- Before the first line. -/
def start : Builder :=
  ⟨[], [], false, []⟩

/-- Puts the table whose lines have been read into its place. -/
def settle (b : Builder) : Option Entries :=
  match b.keys.getLast? with
  | none => some b.current
  | some key =>
    changeAt false (fun _ es =>
      match es.lookup key, b.isElement with
      | none, false => some (es ++ [(key, .table .header b.current)])
      | none, true => some (es ++ [(key, .tables [b.current])])
      | some (.tables elements), true =>
        some (es.replace key (.tables (elements ++ [b.current])))
      | _, _ => none) b.keys.dropLast .header b.root

/-- What an implied table holds when it gets its own header; nothing for a new table. -/
def opened? (key : String) (es : Entries) : Option Entries :=
  match es.lookup key with
  | none => some []
  | some (.table .implied inner) => some inner
  | _ => none

/-- A key may head an element of an array of tables. -/
def admitsElement (key : String) (es : Entries) : Bool :=
  match es.lookup key with
  | none | some (.tables _) => true
  | _ => false

/-- The entries of the table that a path of keys leads to, nothing for a new one. -/
def entriesAt? : List String → Entries → Option Entries
  | [], es => some es
  | key :: path, es =>
    match es.lookup key with
    | none => some []
    | some (.value _) => none
    | some (.table _ inner) => entriesAt? path inner
    | some (.tables elements) => elements.getLast?.bind (entriesAt? path)

/-- The header of a table. -/
def openTable (b : Builder) (keys : List String) : Option Builder := do
  let root ← b.settle
  let key ← keys.getLast?
  let path := keys.dropLast
  let current ← opened? key (← entriesAt? path root)
  let root ← changeAt false (fun _ es => some (es.erase key)) path .header root
  return ⟨root, keys, false, current⟩

/-- The header of an element of an array of tables. -/
def openElement (b : Builder) (keys : List String) : Option Builder := do
  let root ← b.settle
  let key ← keys.getLast?
  let es ← entriesAt? keys.dropLast root
  if admitsElement key es then some ⟨root, keys, true, []⟩ else none

/-- A key and its value. -/
def put (b : Builder) (keys : List String) (value : Toml) : Option Builder := do
  return { b with current := ← assign keys value b.current }

end Builder

/-! ## Finished tables -/

mutual

/-- An item as a value. -/
def Item.toToml : Item → Toml
  | .value v => v
  | .table _ es => .table (entriesToToml es)
  | .tables elements => .array (elementsToToml elements)

/-- Entries as those of a value. -/
def entriesToToml : List (String × Item) → List (String × Toml)
  | [] => []
  | (key, item) :: es => (key, item.toToml) :: entriesToToml es

/-- Tables of an array as values. -/
def elementsToToml : List (List (String × Item)) → List Toml
  | [] => []
  | es :: elements => .table (entriesToToml es) :: elementsToToml elements

end

end ShellGloss.Toml
