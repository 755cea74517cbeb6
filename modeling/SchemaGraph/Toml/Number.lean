/-!
# Numbers in TOML

* `Toml.readInteger?`: a decimal integer with an optional sign, or an unsigned one in base 16, 8
  or 2. It must be in the range of 64 bits.
* `Toml.readFloat?`: a decimal number with a fraction or an exponent, an infinity or a NaN. A
  positive number that is too large for binary64 is refused; a negative one counts as minus
  infinity.

Single underscores may stand between two digits, and a decimal integer has no leading zeros.
-/

namespace SchemaGraph.Toml

/-! ## Digits -/

/-- The digits that follow a digit. -/
def readMoreDigits (isDigit : Char → Bool) : List Char → Option (List Char × List Char)
  | [] => some ([], [])
  | ['_'] => none
  | '_' :: c :: rest =>
    if isDigit c then (readMoreDigits isDigit rest).map fun (ds, r) => (c :: ds, r) else none
  | c :: rest =>
    if isDigit c then (readMoreDigits isDigit rest).map fun (ds, r) => (c :: ds, r)
    else some ([], c :: rest)

/-- One or more digits, without the underscores between them. -/
def readDigits? (isDigit : Char → Bool) : List Char → Option (List Char × List Char)
  | c :: rest =>
    if isDigit c then (readMoreDigits isDigit rest).map fun (ds, r) => (c :: ds, r) else none
  | [] => none

/-- The digits of a decimal integer: a single zero, or digits that do not begin with one. -/
def readDecimal? : List Char → Option (List Char × List Char)
  | '0' :: rest => some (['0'], rest)
  | s => readDigits? Char.isDigit s

/-- Whether there is a minus sign, and what follows the sign if there is one. -/
def readSign : List Char → Bool × List Char
  | '+' :: rest => (false, rest)
  | '-' :: rest => (true, rest)
  | s => (false, s)

/-- The number that digits of a base stand for. -/
def number (base : Nat) (digits : List Char) : Nat :=
  digits.foldl (fun n c => base * n + (if c.isDigit then c.toNat - '0'.toNat
    else if c.isUpper then c.toNat - 'A'.toNat + 10 else c.toNat - 'a'.toNat + 10)) 0

/-! ## Integers -/

/-- An integer, if it is in the range of 64 bits. -/
def inRange? (i : Int) : Option Int :=
  if Int64.minValue.toInt ≤ i ∧ i ≤ Int64.maxValue.toInt then some i else none

def isHexadecimal (c : Char) : Bool :=
  c.isDigit || ('a' ≤ c && c ≤ 'f') || ('A' ≤ c && c ≤ 'F')

/-- An unsigned integer in a base. -/
def readBase? (base : Nat) (isDigit : Char → Bool) (s : List Char) :
    Option (Int × List Char) := do
  let (digits, rest) ← readDigits? isDigit s
  return (← inRange? (number base digits), rest)

/-- An integer in any of its forms. -/
def readInteger? : List Char → Option (Int × List Char)
  | '0' :: 'x' :: rest => readBase? 16 isHexadecimal rest
  | '0' :: 'o' :: rest => readBase? 8 (fun c => '0' ≤ c && c ≤ '7') rest
  | '0' :: 'b' :: rest => readBase? 2 (fun c => c == '0' || c == '1') rest
  | s => do
    let (negative, rest) := readSign s
    let (digits, rest) ← readDecimal? rest
    let magnitude : Int := number 10 digits
    return (← inRange? (if negative then -magnitude else magnitude), rest)

/-! ## Floats -/

/-- A point and one or more digits. -/
def readFraction? : List Char → Option (List Char × List Char)
  | '.' :: rest => readDigits? Char.isDigit rest
  | _ => none

/-- A mark, an optional sign and one or more digits. -/
def readExponent? : List Char → Option (Int × List Char)
  | c :: rest => do
    if c = 'e' ∨ c = 'E' then
      let (negative, rest) := readSign rest
      let (digits, rest) ← readDigits? Char.isDigit rest
      let magnitude : Int := number 10 digits
      return (if negative then -magnitude else magnitude, rest)
    else none
  | [] => none

/-- The least number that is rounded to infinity: halfway between the largest binary64 number and
the next power of two. -/
def overflowLimit : Nat := (Nat.pow 2 54 - 1) * Nat.pow 2 970

/-- Whether `digits * 10 ^ exponent` is rounded to infinity. Far from the limit the count of the
digits decides, so that no large power is ever formed. -/
def overflows (digits : Nat) (exponent : Int) : Bool :=
  let places : Int := (Nat.toDigits 10 digits).length + exponent
  digits != 0 && 309 ≤ places
    && (309 < places
      || overflowLimit * Nat.pow 10 (-exponent).toNat ≤ digits * Nat.pow 10 exponent.toNat)

/-- An infinity or a NaN. -/
def readSpecial? (s : List Char) : Option (List Char) :=
  match (readSign s).2 with
  | 'i' :: 'n' :: 'f' :: rest => some rest
  | 'n' :: 'a' :: 'n' :: rest => some rest
  | _ => none

/-- What follows a decimal number with a fraction or an exponent. -/
def readDecimalFloat? (s : List Char) : Option (List Char) := do
  let (negative, rest) := readSign s
  let (whole, rest) ← readDecimal? rest
  let (fraction, rest) ←
    match readFraction? rest with
    | some read => some read
    | none => some ([], rest)
  let (exponent, after) ←
    match readExponent? rest with
    | some read => some read
    | none => if fraction.isEmpty then none else some (0, rest)
  if !negative && overflows (number 10 (whole ++ fraction)) (exponent - fraction.length) then none
  else return after

/-- What follows a float in any of its forms. -/
def readFloat? (s : List Char) : Option (List Char) :=
  readDecimalFloat? s <|> readSpecial? s

end SchemaGraph.Toml
