import SchemaGraph.Toml.Item.Reader

/-!
# TOML documents

A document is a sequence of lines, each of which is empty, gives an entry, or begins a table.

* `Toml.Line`: what a line says.
* `Toml.readLine?`: one line, which may run over several where a text or an array does.
* `Toml.Document.add?`: what a line adds to the tables so far.
* `Toml.read?`: the entries of a whole document.
-/

namespace SchemaGraph.Toml

/-- What a line says. -/
inductive Line where
  | empty
  | entry (key : List String) (item : Item)
  /-- The header of a table. -/
  | table (path : List String)
  /-- The header of an element, in double brackets. -/
  | element (path : List String)

/-- What follows the end of a line, after blanks and possibly a comment. -/
def endLine? (s : List Char) : Option (List Char) :=
  let rest :=
    match skipBlanks s with
    | '#' :: rest => skipComment rest
    | rest => rest
  if rest.isEmpty then some [] else newline? rest

/-- The header of a table, after its opening bracket. -/
def readHeader? : List Char → Option (Line × List Char)
  | '[' :: rest => do
    let (path, rest) ← readKey? rest
    match rest with
    | ']' :: ']' :: rest => return (.element path, ← endLine? rest)
    | _ => none
  | s => do
    let (path, rest) ← readKey? s
    match rest with
    | ']' :: rest => return (.table path, ← endLine? rest)
    | _ => none

/-- An entry. -/
def readEntry? (s : List Char) : Option (Line × List Char) := do
  let (key, rest) ← readKey? s
  match rest with
  | '=' :: rest =>
    let (item, rest) ← readItem? (skipBlanks rest)
    return (.entry key item, ← endLine? rest)
  | _ => none

/-- One line. -/
def readLine? (s : List Char) : Option (Line × List Char) :=
  match endLine? s with
  | some rest => some (.empty, rest)
  | none =>
    match skipBlanks s with
    | '[' :: rest => readHeader? rest
    | s => readEntry? s

/-- The lines of a text. -/
def readLines? : (fuel : Nat) → List Char → Option (List Line)
  | _, [] => some []
  | 0, _ => none
  | fuel + 1, s => do
    let (line, rest) ← readLine? s
    let lines ← readLines? fuel rest
    return line :: lines

/-- The tables so far, and the path of the one that was begun last. -/
structure Document where
  entries : Entries
  current : List String

namespace Document

def empty : Document := ⟨[], []⟩

/-- What a line adds. -/
def add? (d : Document) : Line → Option Document
  | .empty => some d
  | .entry key item => do
    let insert := fun entries => insert? entries key.dropLast (key.getLastD "") item
    return { d with entries := ← within? insert d.current d.entries }
  | .table path => return ⟨← openTable? path d.entries, path⟩
  | .element path => return ⟨← openElement? path d.entries, path⟩

end Document

/-- What follows a byte order mark, if the text begins with one. -/
def skipMark : List Char → List Char
  | '\ufeff' :: rest => rest
  | s => s

/-- The entries of a whole document. -/
def read? (text : String) : Option Entries := do
  let s := skipMark text.toList
  let lines ← readLines? s.length s
  let document ← lines.foldlM Document.add? .empty
  return document.entries

end SchemaGraph.Toml
