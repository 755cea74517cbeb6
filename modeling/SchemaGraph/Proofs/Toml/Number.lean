import Mathlib
import SchemaGraph.Toml.Item.Reader

/-!
# Numbers are read as they were written

A line that begins with a digit may hold a moment, a float or an integer, and they are tried in this
order. Where nothing but digits stands before the end of the line, the first two are out of the
question: a day goes on with a hyphen and a time with a colon, a float with a point or an exponent.
Then the digits of a natural number are read as that number. The number must be within 64 bits.

* `Toml.DigitLine`: digits up to the end of a line.
* `Toml.readMoment?_digitLine`: such a line holds no moment.
* `Toml.readFloat?_toDigits`: nor does it hold a float, where the digits are those of a number.
* `Toml.readNumeric?_toDigits`: the digits of a natural number are read as the number.
-/

namespace SchemaGraph.Toml

/-! ## Digits up to the end of a line -/

/-- Digits up to the end of a line, and what follows. -/
def DigitLine (s : List Char) : Prop :=
  ∃ digits rest, (∀ c ∈ digits, c.isDigit = true) ∧ s = digits ++ '\n' :: rest

namespace DigitLine

variable {s : List Char}

/-- The line is at its end, or goes on with a digit. -/
theorem cases_cons (h : DigitLine s) :
    (∃ rest, s = '\n' :: rest) ∨ ∃ c rest, s = c :: rest ∧ c.isDigit = true ∧ DigitLine rest := by
  obtain ⟨digits, rest, hdigits, rfl⟩ := h
  cases digits with
  | nil => exact .inl ⟨rest, rfl⟩
  | cons c digits =>
    obtain ⟨hc, hdigits⟩ := List.forall_mem_cons.mp hdigits
    exact .inr ⟨c, digits ++ '\n' :: rest, rfl, hc, digits, rest, hdigits, rfl⟩

/-- No other character comes before the end of the line. -/
theorem ne_cons (h : DigitLine s) {c : Char} (hdigit : c.isDigit = false) (hnewline : c ≠ '\n')
    (rest : List Char) : s ≠ c :: rest := by
  rcases h.cases_cons with ⟨_, rfl⟩ | ⟨d, _, rfl, hd, -⟩
  · exact fun h => hnewline (List.cons.inj h).1.symm
  · intro h
    rw [(List.cons.inj h).1, hdigit] at hd
    cases hd

end DigitLine

/-! ## Moments -/

section Moment

variable {s : List Char}

theorem expect?_digitLine (h : DigitLine s) {c : Char} (hdigit : c.isDigit = false)
    (hnewline : c ≠ '\n') : expect? c s = none := by
  cases s with
  | nil => rfl
  | cons d rest =>
    have hne : d ≠ c := fun heq => h.ne_cons hdigit hnewline rest (heq ▸ rfl)
    rw [expect?, if_neg hne]

theorem digitLine_of_readFixed? {count value n : Nat} {rest : List Char} (h : DigitLine s)
    (hread : readFixed? count value s = some (n, rest)) : DigitLine rest := by
  induction count generalizing value s with
  | zero =>
    obtain ⟨-, rfl⟩ := Prod.mk.inj (Option.some.inj hread)
    exact h
  | succ count ih =>
    rcases h.cases_cons with ⟨rest', rfl⟩ | ⟨c, rest', rfl, hc, hrest⟩
    · cases hread
    · rw [readFixed?, if_pos hc] at hread
      exact ih hrest hread

theorem digitLine_of_readPart? {least greatest n : Nat} {rest : List Char} (h : DigitLine s)
    (hread : readPart? least greatest s = some (n, rest)) : DigitLine rest := by
  unfold readPart? at hread
  obtain ⟨⟨m, rest'⟩, hfixed, hread⟩ := Option.bind_eq_some_iff.mp hread
  dsimp only at hread
  split_ifs at hread
  obtain ⟨-, rfl⟩ := Prod.mk.inj (Option.some.inj hread)
  exact digitLine_of_readFixed? h hfixed

/-- There is no hyphen after the year. -/
theorem readDay?_digitLine (h : DigitLine s) : readDay? s = none := by
  unfold readDay?
  cases hyear : readFixed? 4 0 s with
  | none => rfl
  | some read =>
    have hrest := digitLine_of_readFixed? h hyear
    have hhyphen := expect?_digitLine hrest (c := '-') (by decide) (by decide)
    simp only [Option.bind_eq_bind, Option.bind_some, hhyphen, Option.bind_none]

/-- There is no colon after the hour. -/
theorem readTime?_digitLine (h : DigitLine s) : readTime? s = none := by
  unfold readTime?
  cases hhour : readPart? 0 23 s with
  | none => rfl
  | some read =>
    have hrest := digitLine_of_readPart? h hhour
    have hcolon := expect?_digitLine hrest (c := ':') (by decide) (by decide)
    simp only [Option.bind_eq_bind, Option.bind_some, hcolon, Option.bind_none]

theorem readMoment?_digitLine (h : DigitLine s) : readMoment? s = none := by
  unfold readMoment?
  rw [readDay?_digitLine h]
  exact readTime?_digitLine h

end Moment

/-! ## Decimal digits -/

theorem readSign_digitLine {s : List Char} (h : DigitLine s) : readSign s = (false, s) :=
  readSign.eq_3 s (h.ne_cons (by decide) (by decide)) (h.ne_cons (by decide) (by decide))

section Digits

variable {digits : List Char} (hdigits : ∀ c ∈ digits, c.isDigit = true) (rest : List Char)

include hdigits

theorem readMoreDigits_append :
    readMoreDigits Char.isDigit (digits ++ '\n' :: rest) = some (digits, '\n' :: rest) := by
  induction digits with
  | nil =>
    rw [List.nil_append, readMoreDigits.eq_4 _ _ _ (by simp) (by simp)]
    rfl
  | cons c digits ih =>
    obtain ⟨hc, hdigits⟩ := List.forall_mem_cons.mp hdigits
    have hunderscore : c ≠ '_' := by
      rintro rfl
      exact absurd hc (by decide)
    rw [List.cons_append, readMoreDigits.eq_4 _ _ _ (by simp [hunderscore])
      (by simp [hunderscore]), if_pos hc, ih hdigits]
    rfl

theorem readDigits?_append (hne : digits ≠ []) :
    readDigits? Char.isDigit (digits ++ '\n' :: rest) = some (digits, '\n' :: rest) := by
  cases digits with
  | nil => exact absurd rfl hne
  | cons c digits =>
    obtain ⟨hc, hdigits⟩ := List.forall_mem_cons.mp hdigits
    rw [List.cons_append, readDigits?, if_pos hc, readMoreDigits_append hdigits rest]
    rfl

/-- The digits of a number are those of the base 10, without the letters. -/
theorem number_ten : number 10 digits = Nat.ofDigitChars 10 digits 0 := by
  rw [Nat.ofDigitChars_eq_foldl]
  refine List.foldl_ext _ _ 0 fun n c hc => ?_
  rw [if_pos (hdigits c hc)]

end Digits

/-! ## Natural numbers -/

section Natural

variable (n : Nat) (rest : List Char)

theorem isDigit_toDigits : ∀ c ∈ Nat.toDigits 10 n, c.isDigit = true :=
  fun _ hc => Nat.isDigit_of_mem_toDigits (by decide) (by decide) hc

theorem number_toDigits : number 10 (Nat.toDigits 10 n) = n := by
  rw [number_ten (isDigit_toDigits n), Nat.ofDigitChars_ten_toDigits]

/-- Only the number zero begins with a zero. -/
theorem eq_nil_of_toDigits_eq_zero_cons {n : Nat} {digits : List Char}
    (h : Nat.toDigits 10 n = '0' :: digits) : digits = [] := by
  induction n using Nat.strongRecOn generalizing digits with
  | ind n ih =>
    by_cases hn : n < 10
    · rw [Nat.toDigits_of_lt_base hn] at h
      exact (List.cons.inj h).2.symm
    · rw [Nat.toDigits_of_base_le (by decide) (by omega)] at h
      obtain ⟨d, ds, hds⟩ :=
        List.exists_cons_of_ne_nil (Nat.toDigits_ne_nil (n := n / 10) (b := 10))
      rw [hds, List.cons_append] at h
      obtain ⟨rfl, -⟩ := List.cons.inj h
      obtain rfl := ih (n / 10) (by omega) hds
      have hzero : n / 10 = 0 := by
        rw [← number_toDigits (n / 10), hds]
        rfl
      omega

theorem readDecimal?_toDigits :
    readDecimal? (Nat.toDigits 10 n ++ '\n' :: rest) = some (Nat.toDigits 10 n, '\n' :: rest) := by
  obtain ⟨c, digits, hdigits⟩ := List.exists_cons_of_ne_nil (Nat.toDigits_ne_nil (n := n) (b := 10))
  by_cases hzero : c = '0'
  · subst hzero
    rw [hdigits, eq_nil_of_toDigits_eq_zero_cons hdigits]
    rfl
  · rw [readDecimal?.eq_2 _ (by simp [hdigits, hzero])]
    exact readDigits?_append (isDigit_toDigits n) rest Nat.toDigits_ne_nil

theorem digitLine_toDigits : DigitLine (Nat.toDigits 10 n ++ '\n' :: rest) :=
  ⟨_, rest, isDigit_toDigits n, rfl⟩

theorem readDecimalFloat?_toDigits :
    readDecimalFloat? (Nat.toDigits 10 n ++ '\n' :: rest) = none := by
  unfold readDecimalFloat?
  rw [readSign_digitLine (digitLine_toDigits n rest)]
  dsimp only
  rw [readDecimal?_toDigits]
  rfl

theorem readSpecial?_digitLine {s : List Char} (h : DigitLine s) : readSpecial? s = none := by
  unfold readSpecial?
  rw [readSign_digitLine h]
  dsimp only
  split
  next => exact absurd rfl (h.ne_cons (by decide) (by decide) _)
  next => exact absurd rfl (h.ne_cons (by decide) (by decide) _)
  next => rfl

theorem readFloat?_toDigits : readFloat? (Nat.toDigits 10 n ++ '\n' :: rest) = none := by
  unfold readFloat?
  rw [readDecimalFloat?_toDigits, readSpecial?_digitLine (digitLine_toDigits n rest)]
  rfl

/-- The digits of a natural number are no number of another base. -/
theorem readInteger?_toDigits (hn : n < Nat.pow 2 63) :
    readInteger? (Nat.toDigits 10 n ++ '\n' :: rest) = some ((n : Int), '\n' :: rest) := by
  have hrange : inRange? (n : Int) = some (n : Int) := by
    have hleast : Int64.minValue.toInt = -9223372036854775808 := by decide
    have hgreatest : Int64.maxValue.toInt = 9223372036854775807 := by decide
    have hpow : Nat.pow 2 63 = 9223372036854775808 := by decide
    unfold inRange?
    rw [if_pos (by omega)]
  have hbase : ∀ c : Char, c.isDigit = false → c ≠ '\n' → ∀ r,
      Nat.toDigits 10 n ++ '\n' :: rest ≠ '0' :: c :: r := by
    intro c hdigit hnewline r h
    rcases (digitLine_toDigits n rest).cases_cons with ⟨_, hs⟩ | ⟨_, s, hs, -, hrest⟩
    · rw [hs] at h
      exact absurd (List.cons.inj h).1 (by decide)
    · rw [hs] at h
      exact hrest.ne_cons hdigit hnewline r (List.cons.inj h).2
  rw [readInteger?.eq_4 _ (hbase 'x' (by decide) (by decide)) (hbase 'o' (by decide) (by decide))
    (hbase 'b' (by decide) (by decide)),
    readSign_digitLine (digitLine_toDigits n rest)]
  simp only [readDecimal?_toDigits, number_toDigits, hrange, Bool.false_eq_true, if_false,
    Option.bind_eq_bind, Option.bind_some, Option.pure_def]

/-- **The digits of a natural number are read as the number**, and as nothing else that begins with
a digit. -/
theorem readNumeric?_toDigits (hn : n < Nat.pow 2 63) :
    readNumeric? (Nat.toDigits 10 n ++ '\n' :: rest) = some (.integer n, '\n' :: rest) := by
  unfold readNumeric?
  rw [readMoment?_digitLine (digitLine_toDigits n rest), readFloat?_toDigits,
    readInteger?_toDigits n rest hn]
  rfl

end Natural

end SchemaGraph.Toml
