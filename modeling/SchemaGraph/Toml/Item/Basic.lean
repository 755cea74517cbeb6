/-!
# Items of TOML documents

* `Toml.Item`: what may stand under a key.
* `Toml.Entries`: the keys of a table with what stands under them, in the order of the document.
* `Toml.insert?`: put an item under a path of keys, as `a.b.c = item` does.
* `Toml.openTable?`, `Toml.openElement?`: begin the table `[a.b.c]` or an element `[[a.b.c]]`.
* `Toml.within?`: change the table that was begun last under a path.

A table may be mentioned before it is written, and where it was first mentioned decides how it may
be added to later; that is its `TableKind`. No key may be given twice.
-/

namespace SchemaGraph.Toml

/-- How a table came into being. -/
inductive TableKind where
  /-- Written out between braces. Nothing can be added. -/
  | closed
  /-- Begun by a header of its own. Nothing can be added once another header follows, but for
  tables below it that have headers of their own. -/
  | headed
  /-- Mentioned in a header of a table below it. It may still get a header of its own. -/
  | implied
  /-- Mentioned in the key of an entry. More entries may be added in the same way. -/
  | dotted
deriving DecidableEq

/-- What may stand under a key. Of floats and moments only the text is kept. -/
inductive Item where
  | boolean (value : Bool)
  | integer (value : Int)
  | float (text : String)
  | moment (text : String)
  | text (value : String)
  | array (items : List Item)
  | table (kind : TableKind) (entries : List (String × Item))
  /-- The tables that share one header in double brackets. -/
  | elements (tables : List (List (String × Item)))

/-- The keys of a table with what stands under them. -/
abbrev Entries := List (String × Item)

namespace Entries

/-- What stands under a key. -/
def get? (entries : Entries) (key : String) : Option Item :=
  entries.lookup key

/-- Put an item under a key that has none. -/
def insertNew? (entries : Entries) (key : String) (item : Item) : Option Entries :=
  match entries.get? key with
  | none => some (entries ++ [(key, item)])
  | some _ => none

/-- Put another item in the place of the one under a key. -/
def replace (entries : Entries) (key : String) (item : Item) : Entries :=
  entries.map fun (k, old) => if k = key then (k, item) else (k, old)

end Entries

/-- Change the last of some tables. -/
def onLast? (change : Entries → Option Entries) : List Entries → Option (List Entries)
  | [] => none
  | [entries] => (change entries).map fun entries => [entries]
  | entries :: rest => (onLast? change rest).map (entries :: ·)

/-- Put an item under a key in the table that the keys of a path lead to, from a table of a given
kind on. The tables on the way are made where they are missing. The last one must have been
mentioned in this way, the others at least not have a header of their own. -/
def insertBelow? (key : String) (item : Item) :
    (path : List String) → TableKind → Entries → Option Entries
  | [], kind, entries => if kind = .dotted then entries.insertNew? key item else none
  | k :: path, _, entries =>
    match entries.get? k with
    | none => do
      let below ← insertBelow? key item path .dotted []
      return entries ++ [(k, .table .dotted below)]
    | some (.table kind below) =>
      if kind = .implied ∨ kind = .dotted then do
        let below ← insertBelow? key item path kind below
        return entries.replace k (.table kind below)
      else none
    | some (.elements tables) => do
      let tables ← onLast? (insertBelow? key item path .headed) tables
      return entries.replace k (.elements tables)
    | some _ => none

/-- Put an item under a key, or under the last of several keys. -/
def insert? (entries : Entries) (path : List String) (key : String) (item : Item) :
    Option Entries :=
  if path.isEmpty then entries.insertNew? key item
  else insertBelow? key item path .headed entries

/-- Begin a table under the last key of a path; `begin?` says what stands there then, given what
stood there before. The tables on the way are made where they are missing. -/
def openAt? (begin? : Option Item → Option Item) :
    (path : List String) → Entries → Option Entries
  | [], _ => none
  | [key], entries => do
    let item ← begin? (entries.get? key)
    return if (entries.get? key).isSome then entries.replace key item else entries ++ [(key, item)]
  | k :: path, entries =>
    match entries.get? k with
    | none => do
      let below ← openAt? begin? path []
      return entries ++ [(k, .table .implied below)]
    | some (.table kind below) =>
      if kind = .closed then none
      else do
        let below ← openAt? begin? path below
        return entries.replace k (.table kind below)
    | some (.elements tables) => do
      let tables ← onLast? (openAt? begin? path) tables
      return entries.replace k (.elements tables)
    | some _ => none

/-- Begin the table of a header. -/
def openTable? (path : List String) (entries : Entries) : Option Entries :=
  openAt?
    (fun
      | none => some (.table .headed [])
      | some (.table .implied below) => some (.table .headed below)
      | some _ => none)
    path entries

/-- Begin an element of the tables that share a header. -/
def openElement? (path : List String) (entries : Entries) : Option Entries :=
  openAt?
    (fun
      | none => some (.elements [[]])
      | some (.elements tables) => some (.elements (tables ++ [[]]))
      | some _ => none)
    path entries

/-- Change the table under a path, of several tables that share a header the last. -/
def within? (change : Entries → Option Entries) : (path : List String) → Entries → Option Entries
  | [], entries => change entries
  | k :: path, entries =>
    match entries.get? k with
    | some (.table kind below) => do
      let below ← within? change path below
      return entries.replace k (.table kind below)
    | some (.elements tables) => do
      let tables ← onLast? (within? change path) tables
      return entries.replace k (.elements tables)
    | _ => none

end SchemaGraph.Toml
