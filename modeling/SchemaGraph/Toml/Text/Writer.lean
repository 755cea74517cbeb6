/-!
# Writing texts in TOML

* `Toml.Form`: the four forms of a text.
* `Toml.Form.choose`: the form that a text is written in: the plainest one that shows the text as
  it is, and one with escapes where there is none.
* `Toml.writeText`: a text in its form.
-/

namespace SchemaGraph.Toml

/-- The forms of a text: between quotation marks or apostrophes, on one line or several. -/
inductive Form where
  | basic
  | literal
  | multilineBasic
  | multilineLiteral
deriving DecidableEq

/-- An ASCII control character other than tab and newline. -/
def isControl (c : Char) : Bool :=
  (c.toNat < 0x20 && c != '\t' && c != '\n') || c.toNat == 0x7f

/-- Whether a mark stands three times in a row. -/
def hasTriple (mark : Char) : List Char → Bool
  | a :: b :: c :: rest =>
    (a == mark && b == mark && c == mark) || hasTriple mark (b :: c :: rest)
  | _ => false

/-- The first form that shows a text as it is, or else the one with escapes. -/
def Form.choose (s : List Char) : Form :=
  let controls := s.any isControl
  let newline := s.contains '\n'
  let backslash := s.contains '\\'
  if !controls && !backslash && !s.contains '"' && !newline then .basic
  else if !controls && !s.contains '\'' && !newline then .literal
  else if !controls && !backslash && !hasTriple '"' s then .multilineBasic
  else if !controls && !hasTriple '\'' s then .multilineLiteral
  else if newline then .multilineBasic
  else .basic

/-! ## Escapes -/

/-- An upper-case hexadecimal digit. -/
def hexDigit (n : Nat) : Char :=
  (Nat.digitChar n).toUpper

/-- A character between quotation marks, where neither newlines nor quotation marks matter. -/
def escape (c : Char) : List Char :=
  if c = '\\' then ['\\', '\\']
  else if c = '\t' then ['\\', 't']
  else if c = '\r' then ['\\', 'r']
  else if c = '\x08' then ['\\', 'b']
  else if c = '\x0c' then ['\\', 'f']
  else if isControl c then ['\\', 'u', '0', '0', hexDigit (c.toNat / 16), hexDigit (c.toNat % 16)]
  else [c]

/-- A text between single quotation marks. -/
def escapeLine (s : List Char) : List Char :=
  s.flatMap fun c =>
    if c = '\n' then ['\\', 'n'] else if c = '"' then ['\\', '"'] else escape c

/-- A text between triple quotation marks, after `run` marks in a row: newlines stay, and of each
run of marks every third is escaped. -/
def escapeLines (run : Nat) : List Char → List Char
  | [] => []
  | '"' :: rest =>
    if run = 2 then '\\' :: '"' :: escapeLines 0 rest else '"' :: escapeLines (run + 1) rest
  | c :: rest => (if c = '\n' then ['\n'] else escape c) ++ escapeLines 0 rest

/-! ## The forms -/

/-- The line end after the opening marks, which lets the first line begin at the left. -/
def opening (s : List Char) : List Char :=
  if s.contains '\n' then ['\n'] else []

/-- A text in a form. -/
def Form.write (form : Form) (s : List Char) : List Char :=
  match form with
  | .basic => ['"'] ++ escapeLine s ++ ['"']
  | .literal => ['\''] ++ s ++ ['\'']
  | .multilineBasic => ['"', '"', '"'] ++ opening s ++ escapeLines 0 s ++ ['"', '"', '"']
  | .multilineLiteral => ['\'', '\'', '\''] ++ opening s ++ s ++ ['\'', '\'', '\'']

/-- A text in the form that it is written in. -/
def writeText (s : List Char) : List Char :=
  (Form.choose s).write s

end SchemaGraph.Toml
