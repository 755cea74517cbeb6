/-!
# Dates and times in TOML

A day, a time of the day, or a day with a time and possibly an offset.

* `Toml.readMoment?`: what follows a moment in any of these forms.

Seconds are not optional, the last second of a minute may be the 60th, and the day must be one of
the month in that year.
-/

namespace SchemaGraph.Toml

/-- A number of exactly `count` digits. -/
def readFixed? : (count : Nat) → (value : Nat) → List Char → Option (Nat × List Char)
  | 0, value, rest => some (value, rest)
  | count + 1, value, c :: rest =>
    if c.isDigit then readFixed? count (10 * value + (c.toNat - '0'.toNat)) rest else none
  | _ + 1, _, [] => none

/-- A number of two digits in a range. -/
def readPart? (least greatest : Nat) (s : List Char) : Option (Nat × List Char) := do
  let (n, rest) ← readFixed? 2 0 s
  if least ≤ n ∧ n ≤ greatest then return (n, rest) else none

/-- What follows one given character. -/
def expect? (c : Char) : List Char → Option (List Char)
  | d :: rest => if d = c then some rest else none
  | [] => none

def isLeap (year : Nat) : Bool :=
  year % 4 == 0 && (year % 100 != 0 || year % 400 == 0)

/-- The number of days of a month. -/
def daysIn (year month : Nat) : Nat :=
  if month = 2 then (if isLeap year then 29 else 28)
  else if month ∈ [4, 6, 9, 11] then 30
  else 31

/-- What follows a day. -/
def readDay? (s : List Char) : Option (List Char) := do
  let (year, rest) ← readFixed? 4 0 s
  let rest ← expect? '-' rest
  let (month, rest) ← readPart? 1 12 rest
  let rest ← expect? '-' rest
  let (_, rest) ← readPart? 1 (daysIn year month) rest
  return rest

/-- What follows the fraction of a second, if there is one. -/
def skipFraction : List Char → List Char
  | '.' :: c :: rest => if c.isDigit then rest.dropWhile Char.isDigit else '.' :: c :: rest
  | s => s

/-- What follows a time of the day. -/
def readTime? (s : List Char) : Option (List Char) := do
  let (_, rest) ← readPart? 0 23 s
  let rest ← expect? ':' rest
  let (_, rest) ← readPart? 0 59 rest
  let rest ← expect? ':' rest
  let (_, rest) ← readPart? 0 60 rest
  return skipFraction rest

/-- What follows an offset. -/
def readOffset? : List Char → Option (List Char)
  | 'Z' :: rest => some rest
  | 'z' :: rest => some rest
  | c :: rest => do
    if c = '+' ∨ c = '-' then
      let (_, rest) ← readPart? 0 23 rest
      let rest ← expect? ':' rest
      let (_, rest) ← readPart? 0 59 rest
      return rest
    else none
  | [] => none

/-- What follows the mark between a day and a time, and the time. -/
def readTimeOfDay? : List Char → Option (List Char)
  | c :: rest => if c = 'T' ∨ c = 't' ∨ c = ' ' then readTime? rest else none
  | [] => none

/-- What follows a moment. -/
def readMoment? (s : List Char) : Option (List Char) :=
  match readDay? s with
  | none => readTime? s
  | some rest =>
    match readTimeOfDay? rest with
    | none => some rest
    | some rest => some ((readOffset? rest).getD rest)

end SchemaGraph.Toml
