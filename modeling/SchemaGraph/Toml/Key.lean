import SchemaGraph.Toml.Text.Reader

/-!
# Keys in TOML

A key is one name or several with points between them. A name is written bare or as a text on one
line.

* `Toml.readKey?`: a key with the blanks around it. A key of more than 79 names is refused.
-/

namespace SchemaGraph.Toml

/-- A character of a bare name. -/
def isBare (c : Char) : Bool :=
  c.isAlphanum || c == '-' || c == '_'

/-- One name of a key. -/
def readName? : List Char → Option (List Char × List Char)
  | '"' :: rest => readBasic rest
  | '\'' :: rest => readLiteral rest
  | s =>
    let name := s.takeWhile isBare
    if name.isEmpty then none else some (name, s.dropWhile isBare)

/-- The names of a key, at most `limit` of them, with the blanks around each. -/
def readNames? : (limit : Nat) → List Char → Option (List String × List Char)
  | 0, _ => none
  | limit + 1, s => do
    let (name, rest) ← readName? (skipBlanks s)
    match skipBlanks rest with
    | '.' :: rest =>
      let (names, rest) ← readNames? limit rest
      return (String.ofList name :: names, rest)
    | rest => return ([String.ofList name], rest)

/-- How many tables lie within one another at most, and how many names a key has at most. -/
def maxDepth : Nat := 79

/-- The names of a key, with the blanks around it. -/
def readKey? (s : List Char) : Option (List String × List Char) :=
  readNames? maxDepth s

end SchemaGraph.Toml
