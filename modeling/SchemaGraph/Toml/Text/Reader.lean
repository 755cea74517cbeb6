/-!
# Texts in TOML

A text is written between quotation marks or between apostrophes, once each for a text on one line
and three times each for one that may run over several lines. Between quotation marks a backslash
starts an escape; between apostrophes every character stands for itself.

* `Toml.readBasic`, `Toml.readLiteral`: the rest of a text on one line, after its opening mark.
* `Toml.readMultilineBasic`, `Toml.readMultilineLiteral`: the same for several lines. A line end
  is read as a newline, also where a carriage return precedes it.
* `Toml.readText?`: a text in any of the four forms.

A reader takes characters and returns what it has read together with the characters that are left;
it returns nothing where the characters do not have the form.
-/

namespace SchemaGraph.Toml

/-! ## Characters -/

/-- A blank within a line. -/
def isBlank (c : Char) : Bool :=
  c == ' ' || c == '\t'

/-- A character that may stand in a line: a tab, or any other than the ASCII control characters. -/
def isPlain (c : Char) : Bool :=
  c == '\t' || (0x20 ≤ c.toNat && c.toNat != 0x7f)

/-- What follows the end of a line. -/
def newline? : List Char → Option (List Char)
  | '\n' :: rest => some rest
  | '\r' :: '\n' :: rest => some rest
  | _ => none

/-- What follows the blanks at the beginning. -/
def skipBlanks (s : List Char) : List Char :=
  s.dropWhile isBlank

/-- What follows the blanks and ends of lines at the beginning. -/
def skipSpace : List Char → List Char
  | ' ' :: rest => skipSpace rest
  | '\t' :: rest => skipSpace rest
  | '\n' :: rest => skipSpace rest
  | '\r' :: '\n' :: rest => skipSpace rest
  | s => s

theorem length_skipBlanks_le (s : List Char) : (skipBlanks s).length ≤ s.length :=
  (List.dropWhile_sublist _).length_le

theorem length_skipSpace_le (s : List Char) : (skipSpace s).length ≤ s.length := by
  fun_induction skipSpace s with
  | case5 => exact Nat.le_refl _
  | case1 rest ih | case2 rest ih | case3 rest ih | case4 rest ih =>
    simp only [List.length_cons]
    omega

theorem length_newline?_lt {s rest : List Char} (h : newline? s = some rest) :
    rest.length < s.length := by
  unfold newline? at h
  split at h
  · cases h; simp
  · cases h; simp only [List.length_cons]; omega
  · cases h

/-! ## Escapes -/

/-- The value of a hexadecimal digit. -/
def hexValue? (c : Char) : Option Nat :=
  if '0' ≤ c ∧ c ≤ '9' then some (c.toNat - '0'.toNat)
  else if 'a' ≤ c ∧ c ≤ 'f' then some (c.toNat - 'a'.toNat + 10)
  else if 'A' ≤ c ∧ c ≤ 'F' then some (c.toNat - 'A'.toNat + 10)
  else none

/-- The number that hexadecimal digits stand for. -/
def hexNumber? (digits : List Char) : Option Nat :=
  digits.foldlM (fun n c => (hexValue? c).map (16 * n + ·)) 0

/-- The character whose code point is written with `count` hexadecimal digits. -/
def codePoint? (count : Nat) (s : List Char) : Option (Char × List Char) := do
  let digits := s.take count
  let n ← hexNumber? digits
  if digits.length = count ∧ n.isValidChar then some (Char.ofNat n, s.drop count) else none

/-- The character that the characters after a backslash stand for. -/
def unescape? : List Char → Option (Char × List Char)
  | 'b' :: rest => some ('\x08', rest)
  | 't' :: rest => some ('\t', rest)
  | 'n' :: rest => some ('\n', rest)
  | 'f' :: rest => some ('\x0c', rest)
  | 'r' :: rest => some ('\r', rest)
  | '"' :: rest => some ('"', rest)
  | '\\' :: rest => some ('\\', rest)
  | 'u' :: rest => codePoint? 4 rest
  | 'U' :: rest => codePoint? 8 rest
  | _ => none

theorem length_codePoint?_le {count : Nat} {s rest : List Char} {c : Char}
    (h : codePoint? count s = some (c, rest)) : rest.length ≤ s.length := by
  simp only [codePoint?, Option.bind_eq_bind, Option.bind_eq_some_iff] at h
  obtain ⟨n, -, h⟩ := h
  split at h
  · cases h; simp
  · cases h

theorem length_unescape?_lt {s rest : List Char} {c : Char}
    (h : unescape? s = some (c, rest)) : rest.length < s.length := by
  unfold unescape? at h
  split at h
  case h_10 => cases h
  case h_8 => have := length_codePoint?_le h; simp only [List.length_cons]; omega
  case h_9 => have := length_codePoint?_le h; simp only [List.length_cons]; omega
  all_goals cases h; simp

/-- What follows a backslash at the end of a line: nothing of the blanks and line ends up to the
next visible character is part of the text. -/
def continuation? (s : List Char) : Option (List Char) :=
  (newline? (skipBlanks s)).map skipSpace

theorem length_continuation?_lt {s rest : List Char} (h : continuation? s = some rest) :
    rest.length < s.length := by
  obtain ⟨t, ht, rfl⟩ := Option.map_eq_some_iff.mp h
  have := length_newline?_lt ht
  have := length_skipBlanks_le s
  have := length_skipSpace_le t
  omega

/-! ## The four forms -/

/-- Put a character in front of what was read. -/
def consRead (c : Char) (read : Option (List Char × List Char)) :
    Option (List Char × List Char) :=
  read.map fun (text, rest) => (c :: text, rest)

/-- The rest of a text on one line, after its opening quotation mark. -/
def readBasic (s : List Char) : Option (List Char × List Char) :=
  match s with
  | [] => none
  | '"' :: rest => some ([], rest)
  | '\\' :: rest =>
    match _ : unescape? rest with
    | none => none
    | some (c, rest) => consRead c (readBasic rest)
  | c :: rest => if isPlain c then consRead c (readBasic rest) else none
termination_by s.length
decreasing_by
  · have := length_unescape?_lt ‹_›; simp only [List.length_cons]; omega
  · simp

/-- The rest of a text on one line, after its opening apostrophe. -/
def readLiteral : List Char → Option (List Char × List Char)
  | [] => none
  | '\'' :: rest => some ([], rest)
  | c :: rest => if isPlain c then consRead c (readLiteral rest) else none

/-- What comes after the first three of a run of marks that ends a text: the text has up to two of
the marks as its last characters. -/
def closing (mark : Char) (s : List Char) : List Char × List Char :=
  let marks := ((s.take 2).takeWhile (· == mark)).length
  (s.take marks, s.drop marks)

/-- The rest of a text on several lines, after its opening quotation marks. -/
def readMultilineBasic (s : List Char) : Option (List Char × List Char) :=
  match s with
  | [] => none
  | '"' :: '"' :: '"' :: rest => some (closing '"' rest)
  | '\\' :: rest =>
    match _ : continuation? rest with
    | some rest => readMultilineBasic rest
    | none =>
      match _ : unescape? rest with
      | none => none
      | some (c, rest) => consRead c (readMultilineBasic rest)
  | '\n' :: rest => consRead '\n' (readMultilineBasic rest)
  | '\r' :: '\n' :: rest => consRead '\n' (readMultilineBasic rest)
  | c :: rest => if isPlain c then consRead c (readMultilineBasic rest) else none
termination_by s.length
decreasing_by
  · have := length_continuation?_lt ‹_›; simp only [List.length_cons]; omega
  · have := length_unescape?_lt ‹_›; simp only [List.length_cons]; omega
  · simp
  · simp only [List.length_cons]; omega
  · simp

/-- The rest of a text on several lines, after its opening apostrophes. -/
def readMultilineLiteral : List Char → Option (List Char × List Char)
  | [] => none
  | '\'' :: '\'' :: '\'' :: rest => some (closing '\'' rest)
  | '\n' :: rest => consRead '\n' (readMultilineLiteral rest)
  | '\r' :: '\n' :: rest => consRead '\n' (readMultilineLiteral rest)
  | c :: rest => if isPlain c then consRead c (readMultilineLiteral rest) else none

/-- A line end right after the opening marks is not part of the text. -/
def dropNewline (s : List Char) : List Char :=
  (newline? s).getD s

/-- A text in any of the four forms. -/
def readText? : List Char → Option (List Char × List Char)
  | '"' :: '"' :: '"' :: rest => readMultilineBasic (dropNewline rest)
  | '"' :: rest => readBasic rest
  | '\'' :: '\'' :: '\'' :: rest => readMultilineLiteral (dropNewline rest)
  | '\'' :: rest => readLiteral rest
  | _ => none

end SchemaGraph.Toml
