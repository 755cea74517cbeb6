import Mathlib
import SchemaGraph.Acceptance

/-!
# Texts that are read as values

Two types take texts of a certain form: an integer of any size as its decimal digits, and a UUID as
groups of hexadecimal digits. Here the forms are given without a procedure, and the procedures are
shown to find exactly them. Both forms use ASCII only, so it makes no difference whether a text is
looked at character by character or byte by byte in its UTF-8 form: every byte of a character
outside ASCII is outside ASCII itself. Positions and lengths are other ones in bytes than in
characters, but only in texts that have such a character and are refused either way.

* `IntegerText`, `UuidText`: the forms.
* `isIntegerText_iff`, `isUuidText_iff`: what the procedures find.
* `isIntegerText_eq_utf8`, `isUuidText_eq_utf8`: the same on the UTF-8 form.
-/

namespace SchemaGraph

/-! ## The forms -/

def IsDecimalDigit (c : Char) : Prop :=
  '0' ≤ c ∧ c ≤ '9'

instance : DecidablePred IsDecimalDigit :=
  fun _ => inferInstanceAs (Decidable (_ ∧ _))

def IsHexadecimalDigit (c : Char) : Prop :=
  '0' ≤ c ∧ c ≤ '9' ∨ 'a' ≤ c ∧ c ≤ 'f' ∨ 'A' ≤ c ∧ c ≤ 'F'

/-- One or more decimal digits, after a minus sign or not. -/
def IntegerText (s : List Char) : Prop :=
  ∃ sign digits, s = sign ++ digits ∧ (sign = [] ∨ sign = ['-']) ∧ digits ≠ [] ∧
    ∀ c ∈ digits, IsDecimalDigit c

/-- Hexadecimal digits in groups of 8, 4, 4, 4 and 12, with a hyphen between two groups. -/
def UuidText (s : List Char) : Prop :=
  ∃ groups : List (List Char), s = ['-'].intercalate groups ∧
    groups.map List.length = [8, 4, 4, 4, 12] ∧ ∀ g ∈ groups, ∀ c ∈ g, IsHexadecimalDigit c

theorem isDigit_iff {c : Char} : c.isDigit = true ↔ IsDecimalDigit c := by
  simp [Char.isDigit, IsDecimalDigit, Char.le_def]

theorem isHexDigit_iff {c : Char} : isHexDigit c = true ↔ IsHexadecimalDigit c := by
  simp only [isHexDigit, IsHexadecimalDigit, Bool.or_eq_true, Bool.and_eq_true, decide_eq_true_eq,
    isDigit_iff, IsDecimalDigit, or_assoc]

/-! ## Integers -/

theorem isIntegerText_iff (s : String) : isIntegerText s = true ↔ IntegerText s.toList := by
  have hdigits : ∀ digits : List Char, (!digits.isEmpty && digits.all Char.isDigit) = true ↔
      digits ≠ [] ∧ ∀ c ∈ digits, IsDecimalDigit c := by
    intro digits
    simp [List.all_eq_true, isDigit_iff]
  unfold isIntegerText IntegerText
  dsimp only
  rw [hdigits]
  split
  next rest hsign =>
    constructor
    · intro hrest
      exact ⟨['-'], rest, hsign, .inr rfl, hrest⟩
    · rintro ⟨sign, digits, hs, rfl | rfl, hall⟩
      · -- A minus sign is no digit.
        obtain rfl : '-' :: rest = digits := hsign.symm.trans hs
        have hminus := hall.2 '-' List.mem_cons_self
        exact absurd hminus (by decide)
      · obtain rfl : rest = digits := (List.cons.inj (hsign.symm.trans hs)).2
        exact hall
  next hsign =>
    constructor
    · intro hall
      exact ⟨[], s.toList, rfl, .inl rfl, hall⟩
    · rintro ⟨sign, digits, hs, rfl | rfl, hall⟩
      · rw [hs]
        exact hall
      · exact absurd hs (hsign digits)

/-! ## UUIDs -/

theorem isUuidText_eq (s : String) :
    isUuidText s = (s.toList.length == 36 && s.toList.zipIdx.all isUuidChar) := rfl

/-- Between hyphens there are hexadecimal digits. -/
theorem all_isUuidChar_group {g : List Char} {k : Nat}
    (hk : ∀ n < g.length, [8, 13, 18, 23].contains (k + n) = false) :
    (g.zipIdx k).all isUuidChar = g.all isHexDigit := by
  induction g generalizing k with
  | nil => rfl
  | cons c g ih =>
    have hhere : isUuidChar (c, k) = isHexDigit c := by
      have hplace : [8, 13, 18, 23].contains k = false := hk 0 (Nat.succ_pos _)
      unfold isUuidChar
      dsimp only
      rw [hplace]
      rfl
    rw [List.zipIdx_cons, List.all_cons, List.all_cons, hhere, ih]
    intro n hn
    rw [Nat.add_right_comm, Nat.add_assoc]
    exact hk (n + 1) (Nat.succ_lt_succ hn)

theorem exists_append_cons {s : List Char} {n : Nat} (hn : n < s.length) :
    ∃ g c rest, s = g ++ c :: rest ∧ g.length = n ∧ rest.length = s.length - (n + 1) := by
  refine ⟨s.take n, s[n], s.drop (n + 1), ?_, ?_, ?_⟩
  · rw [List.getElem_cons_drop, List.take_append_drop]
  · rw [List.length_take]
    omega
  · rw [List.length_drop]

section Groups

variable {a b c d e : List Char} {w x y z : Char}

/-- The groups of a UUID, with some character between two of them. -/
theorem all_isUuidChar_iff (ha : a.length = 8) (hb : b.length = 4) (hc : c.length = 4)
    (hd : d.length = 4) (he : e.length = 12) :
    (a ++ w :: (b ++ x :: (c ++ y :: (d ++ z :: e)))).zipIdx.all isUuidChar = true ↔
      (w = '-' ∧ x = '-' ∧ y = '-' ∧ z = '-') ∧
        ∀ g ∈ [a, b, c, d, e], ∀ c ∈ g, IsHexadecimalDigit c := by
  have hhyphen : ∀ c : Char, ∀ k ∈ [8, 13, 18, 23], isUuidChar (c, k) = (c == '-') := by
    intro c k hk
    exact if_pos (List.contains_iff_mem.mpr hk)
  simp only [List.zipIdx_append, List.zipIdx_cons, List.all_append, List.all_cons, ha, hb, hc, hd,
    Nat.reduceAdd]
  rw [all_isUuidChar_group (by rw [ha]; decide), all_isUuidChar_group (by rw [hb]; decide),
    all_isUuidChar_group (by rw [hc]; decide), all_isUuidChar_group (by rw [hd]; decide),
    all_isUuidChar_group (by rw [he]; decide), hhyphen w 8 (by decide), hhyphen x 13 (by decide),
    hhyphen y 18 (by decide), hhyphen z 23 (by decide)]
  simp only [Bool.and_eq_true, beq_iff_eq, List.all_eq_true, isHexDigit_iff, List.forall_mem_cons,
    List.not_mem_nil, false_implies, implies_true, and_true]
  constructor
  · rintro ⟨hexa, hw, hexb, hx, hexc, hy, hexd, hz, hexe⟩
    exact ⟨⟨hw, hx, hy, hz⟩, hexa, hexb, hexc, hexd, hexe⟩
  · rintro ⟨⟨hw, hx, hy, hz⟩, hexa, hexb, hexc, hexd, hexe⟩
    exact ⟨hexa, hw, hexb, hx, hexc, hy, hexd, hz, hexe⟩

theorem intercalate_groups : ['-'].intercalate [a, b, c, d, e] =
    a ++ '-' :: (b ++ '-' :: (c ++ '-' :: (d ++ '-' :: e))) := by
  simp only [List.intercalate, List.intersperse, List.flatten_cons, List.flatten_nil,
    List.append_nil, List.singleton_append]

end Groups

theorem isUuidText_iff (s : String) : isUuidText s = true ↔ UuidText s.toList := by
  rw [isUuidText_eq, Bool.and_eq_true, beq_iff_eq]
  generalize s.toList = s
  constructor
  · rintro ⟨hlength, hall⟩
    obtain ⟨a, w, s₁, rfl, ha, h₁⟩ := exists_append_cons (s := s) (n := 8) (by omega)
    obtain ⟨b, x, s₂, rfl, hb, h₂⟩ := exists_append_cons (s := s₁) (n := 4) (by omega)
    obtain ⟨c, y, s₃, rfl, hc, h₃⟩ := exists_append_cons (s := s₂) (n := 4) (by omega)
    obtain ⟨d, z, e, rfl, hd, h₄⟩ := exists_append_cons (s := s₃) (n := 4) (by omega)
    have he : e.length = 12 := by omega
    obtain ⟨⟨rfl, rfl, rfl, rfl⟩, hgroups⟩ := (all_isUuidChar_iff ha hb hc hd he).mp hall
    refine ⟨[a, b, c, d, e], ?_, ?_, hgroups⟩
    · exact intercalate_groups.symm
    · simp only [List.map_cons, List.map_nil, ha, hb, hc, hd, he]
  · rintro ⟨groups, rfl, hlengths, hgroups⟩
    obtain ⟨a, b, c, d, e, rfl⟩ : ∃ a b c d e, groups = [a, b, c, d, e] := by
      have hlength := congrArg List.length hlengths
      rw [List.length_map] at hlength
      match groups, hlength with
      | [a, b, c, d, e], _ => exact ⟨a, b, c, d, e, rfl⟩
    have hlengths : a.length = 8 ∧ b.length = 4 ∧ c.length = 4 ∧ d.length = 4 ∧ e.length = 12 := by
      simpa using hlengths
    obtain ⟨ha, hb, hc, hd, he⟩ := hlengths
    rw [intercalate_groups]
    refine ⟨?_, ?_⟩
    · simp only [List.length_append, List.length_cons, ha, hb, hc, hd, he]
    · exact (all_isUuidChar_iff ha hb hc hd he).mpr ⟨⟨rfl, rfl, rfl, rfl⟩, hgroups⟩

/-! ## In bytes -/

/-- The UTF-8 form of characters. -/
def utf8 (s : List Char) : List UInt8 :=
  s.flatMap String.utf8EncodeChar

theorem toUTF8_toList (s : String) : s.toUTF8.data.toList = utf8 s.toList := by
  rw [String.toUTF8_eq_toByteArray, ← String.utf8Encode_toList]
  exact congrArg Array.toList List.data_toByteArray

theorem toNat_byteChar (b : UInt8) : (byteChar b).toNat = b.toNat := by
  have hvalid : b.toNat.isValidChar := .inl (Nat.lt_trans b.toNat_lt (by decide))
  unfold byteChar Char.ofNat
  rw [dif_pos hvalid]
  rfl

/-- A character of ASCII is one byte, which has its number. -/
theorem exists_of_ascii {c : Char} (hc : c.toNat < 0x80) :
    ∃ b, String.utf8EncodeChar c = [b] ∧ byteChar b = c := by
  have hle : c.val.toNat ≤ 0x7f := Nat.le_of_lt_succ hc
  refine ⟨UInt8.ofNat c.toNat, if_pos hle, ?_⟩
  have hnat : (UInt8.ofNat c.toNat).toNat = c.toNat := by
    rw [UInt8.toNat_ofNat']
    omega
  rw [byteChar, hnat, Char.ofNat_toNat]

/-- A character outside ASCII starts with a byte outside ASCII. -/
theorem exists_of_not_ascii {c : Char} (hc : ¬ c.toNat < 0x80) :
    ∃ b rest, String.utf8EncodeChar c = b :: rest ∧ ¬ (byteChar b).toNat < 0x80 := by
  have hlt : ¬ c.val.toNat ≤ 0x7f := fun hle => hc (Nat.lt_succ_of_le hle)
  have hhigh : ∀ n, ¬ (byteChar (UInt8.ofNat (n % 0x20 + 0xc0))).toNat < 0x80 := by
    intro n
    rw [toNat_byteChar, UInt8.toNat_ofNat']
    omega
  unfold String.utf8EncodeChar
  rw [if_neg hlt]
  split
  · exact ⟨_, _, rfl, hhigh _⟩
  · split
    · refine ⟨_, _, rfl, ?_⟩
      rw [toNat_byteChar, UInt8.toNat_ofNat']
      omega
    · refine ⟨_, _, rfl, ?_⟩
      rw [toNat_byteChar, UInt8.toNat_ofNat']
      omega

section Places

variable {p : Char × Nat → Bool}

/-- What is asked of every place can be asked of bytes, if it refuses all that is outside ASCII. -/
theorem all_zipIdx_utf8 (hp : ∀ (c : Char) (k : Nat), ¬ c.toNat < 0x80 → p (c, k) = false)
    (s : List Char) (k : Nat) :
    ((utf8 s).zipIdx k).all (fun place => p (byteChar place.1, place.2)) =
      (s.zipIdx k).all p := by
  induction s generalizing k with
  | nil => rfl
  | cons c s ih =>
    unfold utf8 at ih ⊢
    rw [List.flatMap_cons, List.zipIdx_cons, List.all_cons]
    by_cases hc : c.toNat < 0x80
    · obtain ⟨b, hb, hbyte⟩ := exists_of_ascii hc
      rw [hb, List.singleton_append, List.zipIdx_cons, List.all_cons, ih]
      dsimp only
      rw [hbyte]
    · obtain ⟨b, rest, hb, hbyte⟩ := exists_of_not_ascii hc
      rw [hb, List.cons_append, List.zipIdx_cons, List.all_cons]
      dsimp only
      rw [hp c k hc, hp _ k hbyte, Bool.false_and, Bool.false_and]

/-- Then the bytes are as many as the characters. -/
theorem length_utf8 (hp : ∀ (c : Char) (k : Nat), ¬ c.toNat < 0x80 → p (c, k) = false)
    {s : List Char} {k : Nat} (hall : (s.zipIdx k).all p = true) : (utf8 s).length = s.length := by
  induction s generalizing k with
  | nil => rfl
  | cons c s ih =>
    rw [List.zipIdx_cons, List.all_cons, Bool.and_eq_true] at hall
    have hc : c.toNat < 0x80 := by
      by_contra hc
      rw [hp c k hc] at hall
      exact Bool.false_ne_true hall.1
    obtain ⟨b, hb, -⟩ := exists_of_ascii hc
    unfold utf8 at ih ⊢
    rw [List.flatMap_cons, hb, List.length_append, ih hall.2, List.length_singleton,
      List.length_cons, Nat.add_comm]

end Places

theorem isHexDigit_of_not_ascii {c : Char} (hc : ¬ c.toNat < 0x80) : isHexDigit c = false := by
  rw [Bool.eq_false_iff, Ne, isHexDigit_iff]
  have hle : ∀ {d : Char}, d.toNat < 0x80 → ¬ c ≤ d := by
    intro d hd hcd
    have hcd : c.toNat ≤ d.toNat := hcd
    omega
  rintro (⟨-, hcd⟩ | ⟨-, hcd⟩ | ⟨-, hcd⟩)
  · exact hle (by decide) hcd
  · exact hle (by decide) hcd
  · exact hle (by decide) hcd

theorem isUuidChar_of_not_ascii (c : Char) (k : Nat) (hc : ¬ c.toNat < 0x80) :
    isUuidChar (c, k) = false := by
  unfold isUuidChar
  split
  · rw [beq_eq_false_iff_ne]
    rintro rfl
    exact hc (by decide)
  · exact isHexDigit_of_not_ascii hc

theorem isUuidText_eq_utf8 (s : String) : isUuidText s = isUuidUtf8 s.toUTF8.data.toList := by
  rw [isUuidText_eq, toUTF8_toList, isUuidUtf8, all_zipIdx_utf8 isUuidChar_of_not_ascii]
  cases hall : s.toList.zipIdx.all isUuidChar with
  | false => rw [Bool.and_false, Bool.and_false]
  | true => rw [length_utf8 isUuidChar_of_not_ascii hall]

/-- No byte of another character is taken for a minus sign. -/
theorem unsigned_utf8 {s : List Char} (hsign : ∀ rest, s ≠ '-' :: rest) :
    unsigned (utf8 s) = utf8 s := by
  cases s with
  | nil => rfl
  | cons c s =>
    have hbyte : ∃ b rest, utf8 (c :: s) = b :: rest ∧ byteChar b ≠ '-' := by
      unfold utf8
      rw [List.flatMap_cons]
      by_cases hc : c.toNat < 0x80
      · obtain ⟨b, hb, rfl⟩ := exists_of_ascii hc
        rw [hb]
        exact ⟨b, _, rfl, fun hminus => hsign s (hminus ▸ rfl)⟩
      · obtain ⟨b, rest, hb, hhigh⟩ := exists_of_not_ascii hc
        rw [hb]
        refine ⟨b, _, rfl, fun hminus => ?_⟩
        rw [hminus] at hhigh
        exact hhigh (by decide)
    obtain ⟨b, rest, hb, hne⟩ := hbyte
    rw [hb]
    unfold unsigned
    split
    next hminus =>
      obtain ⟨rfl, -⟩ := List.cons.inj hminus
      exact absurd rfl hne
    next => rfl

theorem all_isDigit_utf8 (s : List Char) :
    ((utf8 s).all fun b => (byteChar b).isDigit) = s.all Char.isDigit := by
  have hdigit : ∀ (c : Char) (k : Nat), ¬ c.toNat < 0x80 → (c, k).1.isDigit = false := by
    intro c k hc
    have hhex := isHexDigit_of_not_ascii hc
    rw [isHexDigit, Bool.or_eq_false_iff, Bool.or_eq_false_iff] at hhex
    exact hhex.1.1
  have hplaces := all_zipIdx_utf8 (p := fun place => place.1.isDigit) hdigit s 0
  have hbytes : (utf8 s).zipIdx.map Prod.fst = utf8 s := List.zipIdx_map_fst ..
  have hchars : s.zipIdx.map Prod.fst = s := List.zipIdx_map_fst ..
  rw [← hbytes, List.all_map]
  conv_rhs => rw [← hchars, List.all_map]
  exact hplaces

theorem isEmpty_utf8 (s : List Char) : (utf8 s).isEmpty = s.isEmpty := by
  cases s with
  | nil => rfl
  | cons c s =>
    have hne : utf8 (c :: s) ≠ [] := by
      unfold utf8
      rw [List.flatMap_cons]
      exact List.append_ne_nil_of_left_ne_nil String.utf8EncodeChar_ne_nil _
    rw [List.isEmpty_eq_false_iff.mpr hne]
    rfl

theorem isIntegerText_eq_utf8 (s : String) :
    isIntegerText s = isIntegerUtf8 s.toUTF8.data.toList := by
  have hdigits : ∀ digits : List Char, (!digits.isEmpty && digits.all Char.isDigit) =
      (!(utf8 digits).isEmpty && (utf8 digits).all fun b => (byteChar b).isDigit) := by
    intro digits
    rw [isEmpty_utf8, all_isDigit_utf8]
  rw [toUTF8_toList]
  unfold isIntegerText isIntegerUtf8
  dsimp only
  rw [hdigits]
  split
  next rest hsign =>
    rw [hsign]
    rfl
  next hsign => rw [unsigned_utf8 hsign]

end SchemaGraph
