import SchemaGraph.Text.Quoted

/-!
# Structural text

The long written form of a value of any type, which shows how it was built: a constructor by its
name with its arguments in parentheses, a structure with its field names, an absent value as
`None`. All on one line.
-/

namespace SchemaGraph.Text

/-- Items between two delimiters, with a comma and a blank between them. -/
def enclosed (before after : String) (items : List String) : String :=
  before ++ ", ".intercalate items ++ after

/-- A list: `[a, b]`. -/
def sequence (items : List String) : String :=
  enclosed "[" "]" items

/-- A set of texts: `{"a", "b"}`. -/
def textSet (items : List String) : String :=
  enclosed "\x7b" "\x7d" (items.map quoted)

/-- A map with texts as keys: `{"k": v}`. -/
def textMap (entries : List (String × String)) : String :=
  enclosed "\x7b" "\x7d" (entries.map fun (key, value) => quoted key ++ ": " ++ value)

/-- A constructor with one argument: `Name(a)`. -/
def applied (name argument : String) : String :=
  name ++ "(" ++ argument ++ ")"

/-- A structure with named parts: `Name { a: x, b: y }`. -/
def structured (name : String) (parts : List (String × String)) : String :=
  name ++ " " ++ enclosed "\x7b " " \x7d" (parts.map fun (key, value) => key ++ ": " ++ value)

/-- A value that may be absent. -/
def optional : Option String → String
  | none => "None"
  | some value => applied "Some" value

end SchemaGraph.Text
