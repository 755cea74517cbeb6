/-!
# Quoted text

A text between quotation marks in which every character that could end it or garble a line is
escaped: `\\`, `\"`, `\n`, `\r`, `\t`, `\0`, and the other ASCII control characters by their code
point in lower-case hexadecimal, as short as possible.

* `Text.quoted`: the quoted form.
-/

namespace SchemaGraph.Text

/-- The lower-case hexadecimal digits of a number, without leading zeros. -/
def hexDigits (n : Nat) : String :=
  String.ofList (Nat.toDigits 16 n)

/-- The form of one character between quotation marks. -/
def escapedChar (c : Char) : String :=
  if c = '\\' then "\\\\"
  else if c = '"' then "\\\""
  else if c = '\n' then "\\n"
  else if c = '\r' then "\\r"
  else if c = '\t' then "\\t"
  else if c.toNat = 0 then "\\0"
  else if c.toNat < 0x20 || c.toNat = 0x7f then "\\u\x7b" ++ hexDigits c.toNat ++ "\x7d"
  else c.toString

/-- A text between quotation marks. -/
def quoted (s : String) : String :=
  "\"" ++ String.join (s.toList.map escapedChar) ++ "\""

end SchemaGraph.Text
