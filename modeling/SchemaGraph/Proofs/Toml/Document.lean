import Mathlib
import SchemaGraph.Proofs.Toml.Number
import SchemaGraph.Proofs.Toml.Text
import SchemaGraph.Toml.Document

/-!
# Lines are read as they were written

A document of plain entries, one on each line and each under a bare key, is read as the list of
these entries. Of what is written for an item no more is asked than that it is read as the item
where the end of the line follows it.

* `Toml.IsWritten`: characters that are read as an item; `Toml.isWritten_toDigits`,
  `Toml.isWritten_writeText` for the digits of a number and for a text.
* `Toml.EntryLine.readLine?_written`: a line is read as its entry, whatever follows it.
* `Toml.EntryLine.read?_document`: a document whose keys are different is read as its entries.
-/

namespace SchemaGraph.Toml

/-! ## Items -/

/-- The characters are read as an item where the end of the line follows them, and no blank comes
before the item. -/
structure IsWritten (value : List Char) (item : Item) : Prop where
  skipBlanks_append : ∀ rest, skipBlanks (value ++ rest) = value ++ rest
  readItem?_append : ∀ rest, readItem? (value ++ '\n' :: rest) = some (item, '\n' :: rest)

/-- A character that is no blank. -/
theorem skipBlanks_cons {c : Char} (hc : isBlank c = false) (s : List Char) :
    skipBlanks (c :: s) = c :: s := by
  unfold skipBlanks
  exact List.dropWhile_cons_of_neg (by simp [hc])

/-- An item that begins with neither a bracket nor a brace holds no other items. -/
theorem readItem?_cons {c : Char} (hbracket : c ≠ '[') (hbrace : c ≠ '\x7b') (s : List Char) :
    readItem? (c :: s) = readScalar? (c :: s) := by
  unfold readItem? maxDepth
  exact readNested?.eq_4 (c :: s) 78 (by simp [hbracket]) (by simp [hbrace])

theorem isWritten_true : IsWritten ['t', 'r', 'u', 'e'] (.boolean true) :=
  ⟨fun _ => rfl, fun _ => rfl⟩

theorem isWritten_false : IsWritten ['f', 'a', 'l', 's', 'e'] (.boolean false) :=
  ⟨fun _ => rfl, fun _ => rfl⟩

theorem isWritten_toDigits {n : Nat} (hn : n < Nat.pow 2 63) :
    IsWritten (Nat.toDigits 10 n) (.integer n) := by
  obtain ⟨c, t, hdigits⟩ := List.exists_cons_of_ne_nil (Nat.toDigits_ne_nil (n := n) (b := 10))
  have hc : c.isDigit = true := isDigit_toDigits n c (by simp [hdigits])
  have hne : ∀ d : Char, d.isDigit = false → c ≠ d := by
    rintro d hd rfl
    rw [hc] at hd
    cases hd
  constructor
  · intro rest
    have hblank : isBlank c = false := by simp [isBlank, hne]
    rw [hdigits, List.cons_append, skipBlanks_cons hblank]
  · intro rest
    have hread := readNumeric?_toDigits n rest hn
    rw [hdigits, List.cons_append] at hread ⊢
    rw [readItem?_cons (hne _ (by decide)) (hne _ (by decide))]
    rw [readScalar?.eq_3 c _ (by simp [hne]) (by simp [hne])]
    rw [if_neg (by simp [hne]), hread]

/-- A text begins with one of its marks. -/
theorem exists_writeText_eq_cons (s : List Char) :
    ∃ c t, writeText s = c :: t ∧ (c = '"' ∨ c = '\'') := by
  unfold writeText
  cases Form.choose s with
  | basic => exact ⟨'"', _, rfl, .inl rfl⟩
  | literal => exact ⟨'\'', _, rfl, .inr rfl⟩
  | multilineBasic => exact ⟨'"', _, rfl, .inl rfl⟩
  | multilineLiteral => exact ⟨'\'', _, rfl, .inr rfl⟩

theorem isWritten_writeText (s : List Char) :
    IsWritten (writeText s) (.text (String.ofList s)) := by
  obtain ⟨c, t, hwritten, hc⟩ := exists_writeText_eq_cons s
  have hne : ∀ d : Char, d ≠ '"' → d ≠ '\'' → c ≠ d := by
    rintro d hquote hapostrophe rfl
    exact hc.elim hquote hapostrophe
  constructor
  · intro rest
    have hblank : isBlank c = false := by simp [isBlank, hne]
    rw [hwritten, List.cons_append, skipBlanks_cons hblank]
  · intro rest
    have hread : readText? (writeText s ++ '\n' :: rest) = some (s, '\n' :: rest) :=
      readText?_writeText s (by simp) (by simp)
    rw [hwritten, List.cons_append] at hread ⊢
    rw [readItem?_cons (hne _ (by decide) (by decide)) (hne _ (by decide) (by decide))]
    rw [readScalar?.eq_3 c _ (by simp [hne]) (by simp [hne])]
    rw [if_pos hc, hread]
    rfl

/-! ## Entries -/

/-- A key that is written bare. -/
def IsBareKey (key : String) : Prop :=
  key.toList ≠ [] ∧ ∀ c ∈ key.toList, isBare c = true

/-- A bare key with an item, and the characters that are written for the item. -/
structure EntryLine where
  key : String
  item : Item
  value : List Char
  isBareKey : IsBareKey key
  isWritten : IsWritten value item

namespace EntryLine

/-- The line as it is written. -/
def written (l : EntryLine) : List Char :=
  l.key.toList ++ ' ' :: '=' :: ' ' :: (l.value ++ ['\n'])

/-- The entry that the line gives. -/
def entry (l : EntryLine) : String × Item :=
  (l.key, l.item)

/-- The lines of a document. -/
def document (ls : List EntryLine) : List Char :=
  ls.flatMap written

/-! ## One line -/

section Line

variable {c : Char}

/-- A character of a bare name is neither a mark nor a blank nor a line end. -/
theorem ne_of_isBare {d : Char} (hc : isBare c = true) (hd : isBare d = false) : c ≠ d := by
  rintro rfl
  rw [hc] at hd
  cases hd

theorem isBlank_of_isBare (hc : isBare c = true) : isBlank c = false := by
  have hspace := ne_of_isBare hc (d := ' ') (by decide)
  have htab := ne_of_isBare hc (d := '\t') (by decide)
  simp [isBlank, hspace, htab]

theorem endLine?_cons_of_isBare (hc : isBare c = true) (s : List Char) :
    endLine? (c :: s) = none := by
  have hcomment := ne_of_isBare hc (d := '#') (by decide)
  have hnewline := ne_of_isBare hc (d := '\n') (by decide)
  have hreturn := ne_of_isBare hc (d := '\r') (by decide)
  unfold endLine?
  rw [skipBlanks_cons (isBlank_of_isBare hc)]
  simp [newline?, hcomment, hnewline, hreturn]

variable (l : EntryLine) (rest : List Char)

theorem exists_key_eq_cons : ∃ c t, l.key.toList = c :: t ∧ isBare c = true := by
  obtain ⟨c, t, hkey⟩ := List.exists_cons_of_ne_nil l.isBareKey.1
  exact ⟨c, t, hkey, l.isBareKey.2 c (by simp [hkey])⟩

theorem readName?_key :
    readName? (l.key.toList ++ ' ' :: rest) = some (l.key.toList, ' ' :: rest) := by
  obtain ⟨c, t, hkey, hc⟩ := exists_key_eq_cons l
  have hquote := ne_of_isBare hc (d := '"') (by decide)
  have hapostrophe := ne_of_isBare hc (d := '\'') (by decide)
  have htake : (l.key.toList ++ ' ' :: rest).takeWhile isBare = l.key.toList := by
    rw [List.takeWhile_append_of_pos l.isBareKey.2]
    simp [isBare]
  have hdrop : (l.key.toList ++ ' ' :: rest).dropWhile isBare = ' ' :: rest := by
    rw [List.dropWhile_append_of_pos l.isBareKey.2]
    simp [isBare]
  rw [readName?.eq_3 _ (by simp [hkey, hquote]) (by simp [hkey, hapostrophe])]
  simp [htake, hdrop, l.isBareKey.1]

theorem readKey?_key :
    readKey? (l.key.toList ++ ' ' :: '=' :: rest) = some ([l.key], '=' :: rest) := by
  have hbefore : skipBlanks (l.key.toList ++ ' ' :: '=' :: rest) =
      l.key.toList ++ ' ' :: '=' :: rest := by
    obtain ⟨c, t, hkey, hc⟩ := exists_key_eq_cons l
    rw [hkey, List.cons_append, skipBlanks_cons (isBlank_of_isBare hc)]
  have hbehind : skipBlanks (' ' :: '=' :: rest) = '=' :: rest := rfl
  unfold readKey? maxDepth
  rw [readNames?, hbefore, readName?_key]
  simp [hbehind]

theorem readEntry?_written :
    readEntry? (l.written ++ rest) = some (.entry [l.key] l.item, rest) := by
  have hend : endLine? ('\n' :: rest) = some rest := rfl
  have hwritten : l.written ++ rest =
      l.key.toList ++ ' ' :: '=' :: ' ' :: (l.value ++ '\n' :: rest) := by
    simp [written]
  have hvalue : skipBlanks (' ' :: (l.value ++ '\n' :: rest)) = l.value ++ '\n' :: rest :=
    l.isWritten.skipBlanks_append ('\n' :: rest)
  unfold readEntry?
  rw [hwritten, readKey?_key]
  simp only [Option.bind_eq_bind, Option.bind_some, Option.pure_def, hvalue,
    l.isWritten.readItem?_append, hend]

/-- **A line is read as the entry that was written**, whatever follows it. -/
theorem readLine?_written :
    readLine? (l.written ++ rest) = some (.entry [l.key] l.item, rest) := by
  have hentry := readEntry?_written l rest
  obtain ⟨c, t, hkey, hc⟩ := exists_key_eq_cons l
  have hbracket := ne_of_isBare hc (d := '[') (by decide)
  rw [written, hkey, List.cons_append, List.cons_append] at hentry ⊢
  unfold readLine?
  rw [endLine?_cons_of_isBare hc, skipBlanks_cons (isBlank_of_isBare hc)]
  simpa [hbracket] using hentry

end Line

/-! ## All lines -/

section Lines

variable {ls : List EntryLine}

theorem document_cons (l : EntryLine) : document (l :: ls) = l.written ++ document ls :=
  List.flatMap_cons

theorem readLines?_document {fuel : Nat} (hfuel : (document ls).length ≤ fuel) :
    readLines? fuel (document ls) = some (ls.map fun l => .entry [l.key] l.item) := by
  induction ls generalizing fuel with
  | nil => exact readLines?.eq_1 fuel
  | cons l ls ih =>
    obtain ⟨c, t, hkey, -⟩ := exists_key_eq_cons l
    have hlength : l.written.length = t.length + l.value.length + 5 := by
      simp [written, hkey]
      omega
    rw [document_cons, List.length_append, hlength] at hfuel
    obtain ⟨fuel, rfl⟩ : ∃ n, fuel = n + 1 := ⟨fuel - 1, by omega⟩
    have hrest : readLines? fuel (document ls) = _ := ih (by omega)
    rw [document_cons, readLines?.eq_3 _ _ (by simp [written]), readLine?_written]
    simp [hrest]

/-- An entry with a key that is not in use is put at the end. -/
theorem add?_entry {d : Document} (hcurrent : d.current = []) {l : EntryLine}
    (hnew : l.key ∉ d.entries.map Prod.fst) :
    d.add? (.entry [l.key] l.item) = some ⟨d.entries ++ [l.entry], []⟩ := by
  have hget : d.entries.get? l.key = none := by
    unfold Entries.get?
    rw [List.lookup_eq_none_iff]
    intro old hold
    have hne : l.key ≠ old.1 := fun heq => hnew (heq ▸ List.mem_map_of_mem hold)
    simp [hne]
  simp [Document.add?, within?, insert?, Entries.insertNew?, hcurrent, hget, entry]

theorem foldlM_add? {d : Document} (hcurrent : d.current = [])
    (hkeys : (d.entries.map Prod.fst ++ ls.map key).Nodup) :
    (ls.map fun l => Line.entry [l.key] l.item).foldlM Document.add? d =
      some ⟨d.entries ++ ls.map entry, []⟩ := by
  induction ls generalizing d with
  | nil =>
    obtain ⟨entries, current⟩ := d
    obtain rfl : current = [] := hcurrent
    simp
  | cons l ls ih =>
    have hnew : l.key ∉ d.entries.map Prod.fst := by
      have hdisjoint := (List.nodup_append.mp hkeys).2.2
      intro hmem
      exact hdisjoint l.key hmem l.key (by simp) rfl
    have hrest := ih (d := ⟨d.entries ++ [l.entry], []⟩) rfl (by simpa [entry] using hkeys)
    rw [List.map_cons, List.foldlM_cons, add?_entry hcurrent hnew]
    simp [hrest]

theorem skipMark_document : skipMark (document ls) = document ls := by
  cases ls with
  | nil => rfl
  | cons l ls =>
    obtain ⟨c, t, hkey, hc⟩ := exists_key_eq_cons l
    have hmark := ne_of_isBare hc (d := '\ufeff') (by decide)
    rw [document_cons, written, hkey]
    exact skipMark.eq_2 _ (by simp [hmark])

/-- **A document whose keys are different is read as its entries.** -/
theorem read?_document (hkeys : (ls.map key).Nodup) :
    read? (String.ofList (document ls)) = some (ls.map entry) := by
  have hfold : (ls.map fun l => Line.entry [l.key] l.item).foldlM Document.add? .empty = _ :=
    foldlM_add? rfl hkeys
  unfold read?
  rw [String.toList_ofList]
  dsimp only
  rw [skipMark_document, readLines?_document (Nat.le_refl _)]
  simp only [Option.bind_eq_bind, Option.bind_some, Option.pure_def, hfold]
  simp [Document.empty]

end Lines

end EntryLine

end SchemaGraph.Toml
