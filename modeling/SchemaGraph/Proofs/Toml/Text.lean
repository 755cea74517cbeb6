import Mathlib
import SchemaGraph.Toml.Text.Reader
import SchemaGraph.Toml.Text.Writer

/-!
# Texts are read as they were written

The writer chooses one of four forms for a text, and each form is undone by the reader that its
marks call for. Characters that could end the text or that may not stand in it are escaped, so the
rest of a text is read character by character, and what follows it plays no part.

Quotation marks within three marks on each side are another matter, since the reader ends the text
at the first three in a row. Not all of them are escaped, only every third one of a run, so there
are never three before the end; and the one or two that may come right before the marks at the end
are counted to the text by the reader, which takes the first three marks it sees for the end and
then looks for up to two more. Apostrophes need no escape where no three of them follow each other.

* `Toml.Escaped`, `Toml.escape_cases`: a character is written as it is, or after a backslash.
* `Toml.readBasic_escapeLine`, `Toml.readLiteral_append`: texts on one line.
* `Toml.readMultilineBasic_escapeLines`, `Toml.readMultilineLiteral_append`: texts on several lines.
* `Toml.readText?_writeText`: whatever form is chosen, the text is read back.
-/

namespace SchemaGraph.Toml

/-! ## Escapes -/

theorem hexValue?_hexDigit : ∀ n < 16, hexValue? (hexDigit n) = some n := by
  decide

/-- The last two of four hexadecimal digits, after two zeros. -/
theorem codePoint?_four {n : Nat} (hn : n < 0x80) (rest : List Char) :
    codePoint? 4 ('0' :: '0' :: hexDigit (n / 16) :: hexDigit (n % 16) :: rest) =
      some (Char.ofNat n, rest) := by
  have hnumber : hexNumber? ['0', '0', hexDigit (n / 16), hexDigit (n % 16)] = some n := by
    have hzero : hexValue? '0' = some 0 := by decide
    unfold hexNumber?
    simp only [List.foldlM_cons, List.foldlM_nil, hzero, hexValue?_hexDigit (n / 16) (by omega),
      hexValue?_hexDigit (n % 16) (by omega), Option.map_some, Option.bind_eq_bind,
      Option.bind_some, Option.pure_def]
    congr 1
    omega
  have hvalid : n.isValidChar := .inl (by omega)
  unfold codePoint?
  simp only [List.take_succ_cons, List.take_zero, List.drop_succ_cons, List.drop_zero, hnumber,
    Option.bind_eq_bind, Option.bind_some]
  rw [if_pos ⟨rfl, hvalid⟩]

/-- The characters after a backslash stand for a character, whatever follows them, and they do not
continue a line. -/
structure Escaped (c : Char) (e : List Char) : Prop where
  unescape? : ∀ rest, unescape? (e ++ rest) = some (c, rest)
  continuation? : ∀ rest, continuation? (e ++ rest) = none

theorem toNat_lt_of_isControl {c : Char} (hc : isControl c = true) : c.toNat < 0x80 := by
  unfold isControl at hc
  simp only [Bool.or_eq_true, Bool.and_eq_true, decide_eq_true_eq, beq_iff_eq] at hc
  omega

theorem isPlain_of_not_isControl {c : Char} (hc : ¬ isControl c = true) (hnewline : c ≠ '\n') :
    isPlain c = true := by
  unfold isControl at hc
  unfold isPlain
  simp only [Bool.or_eq_true, Bool.and_eq_true, decide_eq_true_eq, beq_iff_eq, bne_iff_ne, ne_eq,
    not_or, not_and] at hc ⊢
  by_cases htab : c = '\t'
  · exact .inl htab
  · have hlow : ¬ c.toNat < 0x20 := fun hlow => hc.1 ⟨hlow, htab⟩ hnewline
    exact .inr ⟨by omega, hc.2⟩

theorem ne_return_of_not_isControl {c : Char} (hc : isControl c = false) : c ≠ '\r' := by
  rintro rfl
  exact absurd hc (by decide)

/-- A character is written as it is, or after a backslash. -/
theorem escape_cases (c : Char) (hnewline : c ≠ '\n') :
    (escape c = [c] ∧ c ≠ '\\' ∧ c ≠ '\r' ∧ isPlain c = true) ∨
      ∃ e, escape c = '\\' :: e ∧ Escaped c e := by
  unfold escape
  split_ifs with hbackslash htab hreturn hbackspace hfeed hcontrol
  · subst hbackslash
    exact .inr ⟨['\\'], rfl, fun _ => rfl, fun _ => rfl⟩
  · subst htab
    exact .inr ⟨['t'], rfl, fun _ => rfl, fun _ => rfl⟩
  · subst hreturn
    exact .inr ⟨['r'], rfl, fun _ => rfl, fun _ => rfl⟩
  · subst hbackspace
    exact .inr ⟨['b'], rfl, fun _ => rfl, fun _ => rfl⟩
  · subst hfeed
    exact .inr ⟨['f'], rfl, fun _ => rfl, fun _ => rfl⟩
  · refine .inr ⟨_, rfl, fun rest => ?_, fun _ => rfl⟩
    have hread := codePoint?_four (toNat_lt_of_isControl hcontrol) rest
    rw [Char.ofNat_toNat] at hread
    exact hread
  · exact .inl ⟨rfl, hbackslash, hreturn, isPlain_of_not_isControl hcontrol hnewline⟩

/-- What is written for a character begins with the character or with a backslash. -/
theorem exists_escape_eq_cons {c : Char} (hnewline : c ≠ '\n') :
    ∃ d e, escape c = d :: e ∧ (d = c ∧ c ≠ '\r' ∨ d = '\\') := by
  rcases escape_cases c hnewline with ⟨hescape, -, hreturn, -⟩ | ⟨e, hescape, -⟩
  · exact ⟨c, [], hescape, .inl ⟨rfl, hreturn⟩⟩
  · exact ⟨'\\', e, hescape, .inr rfl⟩

theorem escaped_newline : Escaped '\n' ['n'] :=
  ⟨fun _ => rfl, fun _ => rfl⟩

theorem escaped_mark : Escaped '"' ['"'] :=
  ⟨fun _ => rfl, fun _ => rfl⟩

/-! ## Texts on one line -/

section Line

variable {c : Char} {e : List Char}

theorem readBasic_escaped (he : Escaped c e) (rest : List Char) :
    readBasic ('\\' :: (e ++ rest)) = consRead c (readBasic rest) := by
  rw [readBasic]
  split
  next hnone =>
    rw [he.unescape?] at hnone
    cases hnone
  next d rest' hsome =>
    rw [he.unescape?] at hsome
    obtain ⟨rfl, rfl⟩ := Prod.mk.inj (Option.some.inj hsome)
    rfl

theorem readBasic_plain (hmark : c ≠ '"') (hbackslash : c ≠ '\\') (hplain : isPlain c = true)
    (rest : List Char) : readBasic (c :: rest) = consRead c (readBasic rest) := by
  rw [readBasic.eq_4 c rest hmark hbackslash, if_pos hplain]

theorem readBasic_escapeLine (s rest : List Char) :
    readBasic (escapeLine s ++ '"' :: rest) = some (s, rest) := by
  induction s with
  | nil => rw [escapeLine, List.flatMap_nil, List.nil_append, readBasic]
  | cons c s ih =>
    have hstep : ∀ tail, readBasic ((if c = '\n' then ['\\', 'n']
        else if c = '"' then ['\\', '"'] else escape c) ++ tail) = consRead c (readBasic tail) := by
      intro tail
      split_ifs with hnewline hmark
      · subst hnewline
        exact readBasic_escaped escaped_newline tail
      · subst hmark
        exact readBasic_escaped escaped_mark tail
      · rcases escape_cases c hnewline with ⟨hescape, hbackslash, -, hplain⟩ | ⟨e, hescape, he⟩
        · rw [hescape]
          exact readBasic_plain hmark hbackslash hplain tail
        · rw [hescape]
          exact readBasic_escaped he tail
    rw [escapeLine, List.flatMap_cons, List.append_assoc, hstep]
    rw [escapeLine] at ih
    rw [ih]
    rfl

/-- On one line no quotation mark is written as it is. -/
theorem escapeLine_ne_mark (c : Char) (s tail r : List Char) :
    escapeLine (c :: s) ++ tail ≠ '"' :: r := by
  rw [escapeLine, List.flatMap_cons, List.append_assoc]
  split_ifs with hnewline hmark
  · simp
  · simp
  · obtain ⟨d, e, hescape, ⟨rfl, -⟩ | rfl⟩ := exists_escape_eq_cons hnewline
    · simp [hescape, hmark]
    · simp [hescape]

theorem readLiteral_append {s : List Char} (hs : ∀ c ∈ s, c ≠ '\'' ∧ isPlain c = true)
    (rest : List Char) : readLiteral (s ++ '\'' :: rest) = some (s, rest) := by
  induction s with
  | nil => rfl
  | cons c s ih =>
    obtain ⟨⟨hmark, hplain⟩, hs⟩ := List.forall_mem_cons.mp hs
    rw [List.cons_append, readLiteral.eq_3 c _ hmark, if_pos hplain, ih hs]
    rfl

end Line

/-! ## Texts on several lines -/

/-- Up to two marks before what is no mark are counted to the text. -/
theorem closing_append {mark : Char} {marks rest : List Char} (hmarks : ∀ c ∈ marks, c = mark)
    (hlength : marks.length ≤ 2) (hrest : ∀ r, rest ≠ mark :: r) :
    closing mark (marks ++ rest) = (marks, rest) := by
  have hrest' : ∀ n, (rest.take n).takeWhile (· == mark) = [] := by
    intro n
    cases rest with
    | nil => rw [List.take_nil, List.takeWhile_nil]
    | cons c r =>
      have hne : (c == mark) = false := beq_eq_false_iff_ne.mpr fun heq => hrest r (heq ▸ rfl)
      cases n with
      | zero => rfl
      | succ n => rw [List.take_succ_cons, List.takeWhile_cons, hne, if_neg Bool.false_ne_true]
  have hcount : (((marks ++ rest).take 2).takeWhile (· == mark)).length = marks.length := by
    have hall : ∀ c ∈ marks, (c == mark) = true := fun c hc => beq_iff_eq.mpr (hmarks c hc)
    rw [List.take_append, List.take_of_length_le hlength, List.takeWhile_append_of_pos hall,
      hrest', List.append_nil]
  unfold closing
  dsimp only
  rw [hcount, List.take_left, List.drop_left]

section Lines

variable {c : Char} {e : List Char}

theorem readMultilineBasic_escaped (he : Escaped c e) (rest : List Char) :
    readMultilineBasic ('\\' :: (e ++ rest)) = consRead c (readMultilineBasic rest) := by
  rw [readMultilineBasic]
  split
  next rest' hsome =>
    rw [he.continuation?] at hsome
    cases hsome
  next =>
    split
    next hnone =>
      rw [he.unescape?] at hnone
      cases hnone
    next d rest' hsome =>
      rw [he.unescape?] at hsome
      obtain ⟨rfl, rfl⟩ := Prod.mk.inj (Option.some.inj hsome)
      rfl

theorem readMultilineBasic_plain (hmark : c ≠ '"') (hbackslash : c ≠ '\\') (hnewline : c ≠ '\n')
    (hreturn : c ≠ '\r') (hplain : isPlain c = true) (rest : List Char) :
    readMultilineBasic (c :: rest) = consRead c (readMultilineBasic rest) := by
  rw [readMultilineBasic.eq_6 c rest (fun _ h _ => hmark h) hbackslash hnewline
    (fun _ h _ => hreturn h), if_pos hplain]

/-- A quotation mark that is not the first of three. -/
theorem readMultilineBasic_mark {rest : List Char} (hrest : ∀ r, rest ≠ '"' :: '"' :: r) :
    readMultilineBasic ('"' :: rest) = consRead '"' (readMultilineBasic rest) := by
  rw [readMultilineBasic.eq_6 '"' rest (fun r _ h => hrest r h) (by decide) (by decide)
    (fun _ h _ => absurd h (by decide)), if_pos (by decide)]

theorem readMultilineBasic_closing (marks : List Char) {rest : List Char}
    (hmarks : ∀ c ∈ marks, c = '"') (hlength : marks.length ≤ 2) (hrest : ∀ r, rest ≠ '"' :: r) :
    readMultilineBasic ('"' :: '"' :: '"' :: (marks ++ rest)) = some (marks, rest) := by
  rw [readMultilineBasic, closing_append hmarks hlength hrest]

/-- What is written for a character other than a quotation mark. -/
theorem readMultilineBasic_piece (hmark : c ≠ '"') (rest : List Char) :
    readMultilineBasic ((if c = '\n' then ['\n'] else escape c) ++ rest) =
      consRead c (readMultilineBasic rest) := by
  split_ifs with hnewline
  · subst hnewline
    exact readMultilineBasic.eq_4 rest
  · rcases escape_cases c hnewline with ⟨hescape, hbackslash, hreturn, hplain⟩ | ⟨e, hescape, he⟩
    · rw [hescape]
      exact readMultilineBasic_plain hmark hbackslash hnewline hreturn hplain rest
    · rw [hescape]
      exact readMultilineBasic_escaped he rest

/-- After two quotation marks, or before another character, no quotation mark is written as it
is. -/
theorem escapeLines_ne_mark {run : Nat} {t : List Char} (hc : c ≠ '"' ∨ run = 2)
    (tail r : List Char) : escapeLines run (c :: t) ++ tail ≠ '"' :: r := by
  by_cases hmark : c = '"'
  · obtain rfl : run = 2 := hc.resolve_left fun hne => hne hmark
    subst hmark
    simp [escapeLines]
  · rw [escapeLines.eq_3 run c t hmark, List.append_assoc]
    split_ifs with hnewline
    · simp
    · obtain ⟨d, e, hescape, ⟨rfl, -⟩ | rfl⟩ := exists_escape_eq_cons hnewline
      · simp [hescape, hmark]
      · simp [hescape]

/-- Without line ends among the characters there is none at the beginning of what is written. -/
theorem escapeLines_ne_newline {s : List Char} (hnewline : '\n' ∉ s) (rest r : List Char) :
    escapeLines 0 s ++ '"' :: rest ≠ '\n' :: r ∧ escapeLines 0 s ++ '"' :: rest ≠ '\r' :: r := by
  have hfirst : ∃ d e, escapeLines 0 s ++ '"' :: rest = d :: e ∧ d ≠ '\n' ∧ d ≠ '\r' := by
    cases s with
    | nil => exact ⟨'"', rest, rfl, by decide, by decide⟩
    | cons c t =>
      have hc : c ≠ '\n' := fun heq => hnewline (heq ▸ List.mem_cons_self)
      by_cases hmark : c = '"'
      · subst hmark
        exact ⟨'"', _, rfl, by decide, by decide⟩
      · rw [escapeLines.eq_3 0 c t hmark, if_neg hc]
        obtain ⟨d, e, hescape, ⟨rfl, hreturn⟩ | rfl⟩ := exists_escape_eq_cons hc
        · rw [hescape]
          exact ⟨d, _, rfl, hc, hreturn⟩
        · rw [hescape]
          exact ⟨'\\', _, rfl, by decide, by decide⟩
  obtain ⟨d, e, heq, hnewline, hreturn⟩ := hfirst
  rw [heq]
  exact ⟨fun h => hnewline (List.cons.inj h).1, fun h => hreturn (List.cons.inj h).1⟩

theorem readMultilineBasic_escapeLines {rest : List Char} (hrest : ∀ r, rest ≠ '"' :: r)
    (s : List Char) {run : Nat} (hrun : run ≤ 2) :
    readMultilineBasic (escapeLines run s ++ '"' :: '"' :: '"' :: rest) = some (s, rest) := by
  induction s generalizing run with
  | nil => exact readMultilineBasic_closing [] (by simp) (by simp) hrest
  | cons c t ih =>
    by_cases hmark : c = '"'
    · subst hmark
      rw [escapeLines]
      split_ifs with htwo
      · have hstep := readMultilineBasic_escaped escaped_mark
          (escapeLines 0 t ++ '"' :: '"' :: '"' :: rest)
        exact hstep.trans (by rw [ih (Nat.zero_le 2)]; rfl)
      · rw [List.cons_append]
        cases t with
        | nil => exact readMultilineBasic_closing ['"'] (by simp) (by simp) hrest
        | cons d t =>
          have hnext : run + 1 ≤ 2 := by omega
          have hrest' := ih hnext
          by_cases hd : d ≠ '"' ∨ run + 1 = 2
          · have hne := escapeLines_ne_mark (t := t) hd ('"' :: '"' :: '"' :: rest)
            rw [readMultilineBasic_mark fun r h => hne _ h, hrest']
            rfl
          · -- Two marks as they are, which are at the end or before something else.
            have hboth : d = '"' ∧ run = 0 := by
              rw [not_or, not_not] at hd
              exact ⟨hd.1, by omega⟩
            obtain ⟨rfl, rfl⟩ := hboth
            cases t with
            | nil => exact readMultilineBasic_closing ['"', '"'] (by simp) (by simp) hrest
            | cons d t =>
              have hne := escapeLines_ne_mark (c := d) (t := t) (.inr rfl)
                ('"' :: '"' :: '"' :: rest)
              have hsecond : ∀ r,
                  escapeLines 1 ('"' :: d :: t) ++ '"' :: '"' :: '"' :: rest ≠ '"' :: '"' :: r :=
                fun r h => hne r (List.cons.inj h).2
              rw [readMultilineBasic_mark hsecond, hrest']
              rfl
    · rw [escapeLines.eq_3 run c t hmark, List.append_assoc, readMultilineBasic_piece hmark,
        ih (Nat.zero_le 2)]
      rfl

theorem readMultilineLiteral_closing (marks : List Char) {rest : List Char}
    (hmarks : ∀ c ∈ marks, c = '\'') (hlength : marks.length ≤ 2) (hrest : ∀ r, rest ≠ '\'' :: r) :
    readMultilineLiteral ('\'' :: '\'' :: '\'' :: (marks ++ rest)) = some (marks, rest) := by
  rw [readMultilineLiteral, closing_append hmarks hlength hrest]

/-- A plain character that is not the first of three apostrophes. -/
theorem readMultilineLiteral_plain {rest : List Char}
    (hmark : c = '\'' → ∀ r, rest ≠ '\'' :: '\'' :: r) (hnewline : c ≠ '\n') (hreturn : c ≠ '\r')
    (hplain : isPlain c = true) :
    readMultilineLiteral (c :: rest) = consRead c (readMultilineLiteral rest) := by
  rw [readMultilineLiteral.eq_5 c rest (fun r hc h => hmark hc r h) hnewline
    (fun _ h _ => hreturn h), if_pos hplain]

theorem hasTriple_of_cons {mark c : Char} {s : List Char}
    (h : hasTriple mark (c :: s) = false) : hasTriple mark s = false := by
  match s with
  | [] => rfl
  | [_] => rfl
  | _ :: _ :: _ => exact (Bool.or_eq_false_iff.mp h).2

theorem readMultilineLiteral_append {rest : List Char} (hrest : ∀ r, rest ≠ '\'' :: r)
    {s : List Char} (hs : ∀ c ∈ s, isControl c = false) (htriple : hasTriple '\'' s = false) :
    readMultilineLiteral (s ++ '\'' :: '\'' :: '\'' :: rest) = some (s, rest) := by
  induction s with
  | nil => exact readMultilineLiteral_closing [] (by simp) (by simp) hrest
  | cons c t ih =>
    obtain ⟨hc, ht⟩ := List.forall_mem_cons.mp hs
    have hih := ih ht (hasTriple_of_cons htriple)
    rw [List.cons_append]
    by_cases hnewline : c = '\n'
    · subst hnewline
      rw [readMultilineLiteral, hih]
      rfl
    · have hplain := isPlain_of_not_isControl (Bool.eq_false_iff.mp hc) hnewline
      have hreturn := ne_return_of_not_isControl hc
      by_cases hend : c = '\'' ∧ (t = [] ∨ t = ['\''])
      · obtain ⟨rfl, rfl | rfl⟩ := hend
        · exact readMultilineLiteral_closing ['\''] (by simp) (by simp) hrest
        · exact readMultilineLiteral_closing ['\'', '\''] (by simp) (by simp) hrest
      · have hmark : c = '\'' → ∀ r, t ++ '\'' :: '\'' :: '\'' :: rest ≠ '\'' :: '\'' :: r := by
          rintro rfl r heq
          match t with
          | [] => exact hend ⟨rfl, .inl rfl⟩
          | [d] =>
            obtain ⟨rfl, -⟩ := List.cons.inj heq
            exact hend ⟨rfl, .inr rfl⟩
          | d :: d' :: t =>
            obtain ⟨rfl, htail⟩ := List.cons.inj heq
            obtain ⟨rfl, -⟩ := List.cons.inj htail
            cases htriple
        rw [readMultilineLiteral_plain hmark hnewline hreturn hplain, hih]
        rfl

end Lines

/-! ## All forms -/

/-- The line end after the opening marks is all that is dropped. -/
theorem dropNewline_opening {s written : List Char}
    (hwritten : '\n' ∉ s → ∀ r, written ≠ '\n' :: r ∧ written ≠ '\r' :: r) :
    dropNewline (opening s ++ written) = written := by
  unfold opening
  split_ifs with hnewline
  · rfl
  · have hfirst := hwritten fun hmem => hnewline (List.contains_iff_mem.mpr hmem)
    have hnone : newline? written = none := by
      unfold newline?
      split
      next r => exact absurd rfl (hfirst r).1
      next r => exact absurd rfl (hfirst ('\n' :: r)).2
      next => rfl
    unfold dropNewline
    rw [List.nil_append, hnone]
    rfl

theorem choose_eq_literal {s : List Char} (h : Form.choose s = .literal) :
    ∀ c ∈ s, c ≠ '\'' ∧ isPlain c = true := by
  unfold Form.choose at h
  dsimp only at h
  split_ifs at h with hbasic hliteral
  simp only [Bool.and_eq_true, Bool.not_eq_true', List.any_eq_false, List.contains_eq_mem,
    decide_eq_false_iff_not] at hliteral
  obtain ⟨⟨hcontrol, hmark⟩, hnewline⟩ := hliteral
  intro c hc
  refine ⟨fun heq => hmark (heq ▸ hc), ?_⟩
  exact isPlain_of_not_isControl (hcontrol c hc) fun heq => hnewline (heq ▸ hc)

theorem choose_eq_multilineLiteral {s : List Char} (h : Form.choose s = .multilineLiteral) :
    (∀ c ∈ s, isControl c = false) ∧ hasTriple '\'' s = false := by
  unfold Form.choose at h
  dsimp only at h
  split_ifs at h with hbasic hliteral hquotes hapostrophes
  simp only [Bool.and_eq_true, Bool.not_eq_true', List.any_eq_false, Bool.not_eq_true]
    at hapostrophes
  exact hapostrophes

/-- **A text is read as it was written**, whichever form is chosen for it, and what follows it is
left, unless that begins with another mark. -/
theorem readText?_writeText (s : List Char) {rest : List Char} (hquote : ∀ r, rest ≠ '"' :: r)
    (hapostrophe : ∀ r, rest ≠ '\'' :: r) : readText? (writeText s ++ rest) = some (s, rest) := by
  unfold writeText
  cases hform : Form.choose s with
  | basic =>
    have hopen : ∀ r, escapeLine s ++ '"' :: rest ≠ '"' :: '"' :: r := by
      cases s with
      | nil => exact fun r h => hquote r (List.cons.inj h).2
      | cons c s => exact fun r h => escapeLine_ne_mark c s ('"' :: rest) ('"' :: r) h
    show readText? ('"' :: (escapeLine s ++ ['"'] ++ rest)) = _
    rw [List.append_assoc, List.singleton_append, readText?.eq_2 _ hopen, readBasic_escapeLine]
  | literal =>
    have hs := choose_eq_literal hform
    have hopen : ∀ r, s ++ '\'' :: rest ≠ '\'' :: '\'' :: r := by
      cases s with
      | nil => exact fun r h => hapostrophe r (List.cons.inj h).2
      | cons c s => exact fun r h => (hs c List.mem_cons_self).1 (List.cons.inj h).1
    show readText? ('\'' :: (s ++ ['\''] ++ rest)) = _
    rw [List.append_assoc, List.singleton_append, readText?.eq_4 _ hopen, readLiteral_append hs]
  | multilineBasic =>
    show readMultilineBasic
      (dropNewline (opening s ++ escapeLines 0 s ++ ['"', '"', '"'] ++ rest)) = some (s, rest)
    rw [List.append_assoc, List.append_assoc, List.cons_append,
      dropNewline_opening fun hnewline => escapeLines_ne_newline hnewline _]
    exact readMultilineBasic_escapeLines hquote s (Nat.zero_le 2)
  | multilineLiteral =>
    obtain ⟨hcontrol, htriple⟩ := choose_eq_multilineLiteral hform
    have hfirst : '\n' ∉ s → ∀ r, s ++ ['\'', '\'', '\''] ++ rest ≠ '\n' :: r ∧
        s ++ ['\'', '\'', '\''] ++ rest ≠ '\r' :: r := by
      intro hnewline r
      cases s with
      | nil => simp
      | cons c s =>
        have hc : isControl c = false := hcontrol c List.mem_cons_self
        have hne : c ≠ '\n' := fun heq => hnewline (heq ▸ List.mem_cons_self)
        have hreturn := ne_return_of_not_isControl hc
        simp [hne, hreturn]
    show readMultilineLiteral (dropNewline (opening s ++ s ++ ['\'', '\'', '\''] ++ rest)) =
      some (s, rest)
    rw [List.append_assoc, List.append_assoc, ← List.append_assoc s, dropNewline_opening hfirst,
      List.append_assoc]
    exact readMultilineLiteral_append hapostrophe hcontrol htriple

end SchemaGraph.Toml
