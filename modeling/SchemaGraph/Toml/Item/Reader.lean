import SchemaGraph.Toml.Item.Basic
import SchemaGraph.Toml.Key
import SchemaGraph.Toml.Moment
import SchemaGraph.Toml.Number

/-!
# Reading items

* `Toml.readItem?`: an item, and what follows it. Arrays and tables between braces may lie within
  one another to a fixed depth.

The items of an array may be spread over lines, with comments between them, and a comma may follow
the last one. A table between braces stays on one line, and no comma may follow its last entry.
-/

namespace SchemaGraph.Toml

/-! ## Blanks, line ends and comments -/

/-- What follows a comment, up to the end of the line. -/
def skipComment (s : List Char) : List Char :=
  s.dropWhile isPlain

/-- What follows blanks, line ends and comments. A comment must be followed by a line end. -/
def skipFiller? : (fuel : Nat) → List Char → Option (List Char)
  | 0, s => some s
  | fuel + 1, s =>
    match skipSpace s with
    | '#' :: rest => do
      let rest ← newline? (skipComment rest)
      skipFiller? fuel rest
    | rest => some rest

/-! ## Items that hold no other items -/

/-- The characters that were read, given what follows them. -/
def consumed (s rest : List Char) : String :=
  String.ofList (s.take (s.length - rest.length))

/-- A moment, a float or an integer: the first of them that the characters begin with. -/
def readNumeric? (s : List Char) : Option (Item × List Char) :=
  match readMoment? s with
  | some rest => some (.moment (consumed s rest), rest)
  | none =>
    match readFloat? s with
    | some rest => some (.float (consumed s rest), rest)
    | none => (readInteger? s).map fun (i, rest) => (.integer i, rest)

/-- An item that holds no other items. -/
def readScalar? : List Char → Option (Item × List Char)
  | 't' :: 'r' :: 'u' :: 'e' :: rest => some (.boolean true, rest)
  | 'f' :: 'a' :: 'l' :: 's' :: 'e' :: rest => some (.boolean false, rest)
  | c :: rest =>
    if c = '"' ∨ c = '\'' then
      (readText? (c :: rest)).map fun (text, rest) => (.text (String.ofList text), rest)
    else readNumeric? (c :: rest)
  | [] => none

/-! ## Items that hold items -/

/-- The items of an array up to its closing bracket, after a bracket or a comma. -/
def readItems? (readOne? : List Char → Option (Item × List Char)) :
    (fuel : Nat) → List Char → Option (List Item × List Char)
  | 0, _ => none
  | fuel + 1, s => do
    match ← skipFiller? s.length s with
    | ']' :: rest => return ([], rest)
    | s =>
      let (item, rest) ← readOne? s
      match ← skipFiller? rest.length rest with
      | ',' :: rest =>
        let (items, rest) ← readItems? readOne? fuel rest
        return (item :: items, rest)
      | ']' :: rest => return ([item], rest)
      | _ => none

/-- The entries of a table up to its closing brace, after a brace or a comma, on top of those that
came before. -/
def readPairs? (readOne? : List Char → Option (Item × List Char)) :
    (fuel : Nat) → Entries → List Char → Option (Entries × List Char)
  | 0, _, _ => none
  | fuel + 1, entries, s => do
    let (key, rest) ← readKey? s
    match rest with
    | '=' :: rest =>
      let (item, rest) ← readOne? (skipBlanks rest)
      let entries ← insert? entries key.dropLast (key.getLastD "") item
      match skipBlanks rest with
      | ',' :: rest => readPairs? readOne? fuel entries rest
      | '\x7d' :: rest => return (entries, rest)
      | _ => none
    | _ => none

/-- The entries of a table, after its opening brace. -/
def readBraces? (readOne? : List Char → Option (Item × List Char)) (s : List Char) :
    Option (Entries × List Char) :=
  match skipBlanks s with
  | '\x7d' :: rest => some ([], rest)
  | s => readPairs? readOne? s.length [] s

/-- An item that holds other items to a depth of at most `depth`. -/
def readNested? : (depth : Nat) → List Char → Option (Item × List Char)
  | 0, s => readScalar? s
  | depth + 1, s =>
    match s with
    | '[' :: rest =>
      (readItems? (readNested? depth) s.length rest).map fun (items, rest) => (.array items, rest)
    | '\x7b' :: rest =>
      (readBraces? (readNested? depth) rest).map fun (entries, rest) =>
        (.table .closed entries, rest)
    | s => readScalar? s

/-- An item, and what follows it. -/
def readItem? (s : List Char) : Option (Item × List Char) :=
  readNested? maxDepth s

end SchemaGraph.Toml
