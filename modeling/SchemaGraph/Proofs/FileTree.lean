import Mathlib
import SchemaGraph.FileTree

/-!
# Files stay as they were written

What is put at a path is found there, since the directories on the way are kept or made; and
putting there once more what is there already leaves the whole tree as it is.

* `FileTree.get?_of_update?`: after a change at a path, what the change made is found there.
* `FileTree.update?_eq_self`: a change of what it leaves as it is changes nothing.
* `FileTree.text?_of_write?`, `FileTree.write?_of_write?`: both for a file.
* `FileTree.content?_of_write?_of_ne`: all other files stay as they are.
* `FileTree.write?_concat`, `FileTree.eq_of_put?_eq_none`: writing a file is making the directories
  above it and then putting it there; if it cannot be put there, then none was missing.
-/

namespace SchemaGraph.FileTree

/-! ## Entries of a directory -/

section Entries

variable {name : String} {tree : FileTree}

theorem lookup_replace (entries : List (String × FileTree)) :
    (replace name tree entries).lookup name = some tree := by
  induction entries with
  | nil => simp [replace]
  | cons entry entries ih =>
    obtain ⟨other, old⟩ := entry
    rw [replace]
    split_ifs with hname
    · simp
    · have hne : (name == other) = false := beq_eq_false_iff_ne.mpr (Ne.symm hname)
      rw [List.lookup_cons, hne]
      exact ih

/-- Of two trees that are put in one place the last one stays. -/
theorem replace_replace (first : FileTree) (entries : List (String × FileTree)) :
    replace name tree (replace name first entries) = replace name tree entries := by
  induction entries with
  | nil => simp [replace]
  | cons entry entries ih =>
    obtain ⟨other, old⟩ := entry
    by_cases hname : other = name
    · simp [replace, hname]
    · simp [replace, hname, ih]

theorem lookup_replace_of_ne {other : String} (hne : other ≠ name)
    (entries : List (String × FileTree)) :
    (replace name tree entries).lookup other = entries.lookup other := by
  induction entries with
  | nil => simp [replace, hne]
  | cons entry entries ih =>
    obtain ⟨first, old⟩ := entry
    by_cases hname : first = name
    · have hother : (other == name) = false := beq_eq_false_iff_ne.mpr hne
      simp [replace, hname, List.lookup_cons, hother]
    · simp [replace, hname, List.lookup_cons, ih]

theorem replace_eq_self {entries : List (String × FileTree)}
    (h : entries.lookup name = some tree) : replace name tree entries = entries := by
  induction entries with
  | nil => cases h
  | cons entry entries ih =>
    obtain ⟨other, old⟩ := entry
    rw [replace]
    split_ifs with hname
    · subst hname
      have heq : old = tree := by simpa using h
      rw [heq]
    · have hne : (name == other) = false := beq_eq_false_iff_ne.mpr (Ne.symm hname)
      rw [List.lookup_cons, hne] at h
      rw [ih h]

end Entries

/-! ## Changes at a path -/

section Changes

variable {change : Option FileTree → Option FileTree}

/-- What was there is given to the change, and what the change makes of it is there afterwards. -/
theorem get?_of_update? {path : Path} {there : Option FileTree} {next : FileTree}
    (h : update? change path there = some next) :
    ∃ made, change (there.bind (get? path)) = some made ∧ next.get? path = some made := by
  induction path generalizing there next with
  | nil =>
    refine ⟨next, ?_, by rw [get?]⟩
    cases there <;> simpa [update?, get?] using h
  | cons name path ih =>
    match there with
    | some (.file content) => simp [update?] at h
    | some (.directory entries) =>
      obtain ⟨tree, htree, rfl⟩ := Option.map_eq_some_iff.mp h
      obtain ⟨made, hchange, hget⟩ := ih htree
      refine ⟨made, ?_, ?_⟩
      · simpa [get?] using hchange
      · simp [get?, lookup_replace, hget]
    | none =>
      obtain ⟨tree, htree, rfl⟩ := Option.map_eq_some_iff.mp h
      obtain ⟨made, hchange, hget⟩ := ih htree
      refine ⟨made, ?_, ?_⟩
      · simpa [get?] using hchange
      · simp [get?, hget]

theorem update?_eq_self {path : Path} {tree found : FileTree} (hfound : tree.get? path = some found)
    (hchange : change (some found) = some found) :
    update? change path (some tree) = some tree := by
  induction path generalizing tree with
  | nil =>
    obtain rfl : tree = found := by simpa [get?] using hfound
    exact hchange
  | cons name path ih =>
    match tree with
    | .file content => simp [get?] at hfound
    | .directory entries =>
      rw [get?] at hfound
      obtain ⟨below, hbelow, hget⟩ := Option.bind_eq_some_iff.mp hfound
      rw [update?, hbelow, ih hget]
      simp [replace_eq_self hbelow]

/-- A change that takes no directory away keeps all files but the one at its path. -/
theorem get?_of_update?_of_ne (hchange : ∀ entries, change (some (.directory entries)) = none)
    {path other : Path} {tree next : FileTree} {content : ByteArray} (hne : other ≠ path)
    (h : update? change path (some tree) = some next)
    (hother : tree.get? other = some (.file content)) :
    next.get? other = some (.file content) := by
  induction path generalizing tree next other with
  | nil =>
    match tree with
    | .directory entries =>
      rw [update?, hchange] at h
      cases h
    | .file _ =>
      obtain ⟨name, rest, rfl⟩ := List.exists_cons_of_ne_nil hne
      cases hother
  | cons name path ih =>
    match tree, other with
    | .directory entries, first :: rest =>
      obtain ⟨made, hmade, rfl⟩ := Option.map_eq_some_iff.mp h
      rw [get?] at hother ⊢
      by_cases hname : first = name
      · subst hname
        obtain ⟨below, hbelow, hfile⟩ := Option.bind_eq_some_iff.mp hother
        rw [hbelow] at hmade
        have hrest : rest ≠ path := fun heq => hne (congrArg (List.cons first) heq)
        rw [lookup_replace]
        exact ih hrest hmade hfile
      · rw [lookup_replace_of_ne hname]
        exact hother

end Changes

/-! ## Files -/

section Files

variable {path : Path} {content : ByteArray} {tree next : FileTree}

theorem get?_of_write? (h : tree.write? path content = some next) :
    next.get? path = some (.file content) := by
  obtain ⟨made, hchange, hget⟩ := get?_of_update? h
  rw [hget]
  split at hchange
  · cases hchange
  · exact hchange.symm

/-- Writing a file once more changes nothing. -/
theorem write?_of_write? (h : tree.write? path content = some next) :
    next.write? path content = some next :=
  update?_eq_self (get?_of_write? h) rfl

theorem text?_of_get? {text : String} (h : tree.get? path = some (.file text.toUTF8)) :
    tree.text? path = some text := by
  have hread : String.fromUTF8? text.toUTF8 = some text := dif_pos text.isValidUTF8
  unfold text? content?
  rw [h]
  exact hread

theorem text?_of_write? {text : String} (h : tree.write? path text.toUTF8 = some next) :
    next.text? path = some text :=
  text?_of_get? (get?_of_write? h)

theorem content?_eq_some_iff :
    tree.content? path = some content ↔ tree.get? path = some (.file content) := by
  unfold content?
  split
  next found hfound => simp [hfound]
  next hnone =>
    constructor
    · intro h
      cases h
    · intro h
      exact absurd h (hnone content)

theorem content?_of_write?_of_ne {other : Path} {written : ByteArray} (hne : other ≠ path)
    (h : tree.write? path written = some next) (hother : tree.content? other = some content) :
    next.content? other = some content := by
  rw [content?_eq_some_iff] at hother ⊢
  exact get?_of_update?_of_ne (fun _ => rfl) hne h hother

end Files

/-! ## Directories on the way

Files are put into directories that are there; where one is missing, it is made before. -/

theorem put?_nil (content : ByteArray) (tree : FileTree) :
    tree.put? [] content = tree.write? [] content := rfl

/-- A directory stays one, and one is made where there is nothing. -/
def asDirectory : Option FileTree → Option FileTree
  | none => some (.directory [])
  | some (.directory entries) => some (.directory entries)
  | some (.file _) => none

theorem makeDirectory?_eq_update? (path : Path) (tree : FileTree) :
    tree.makeDirectory? path = update? asDirectory path (some tree) := rfl

section Concat

variable {parent : Path} {name : String} {change : Option FileTree → Option FileTree}

/-- A change at a path finds the directory above it, or makes it. -/
theorem update?_concat (there : Option FileTree) :
    update? change (parent ++ [name]) there =
      (update? asDirectory parent there).bind fun tree =>
        update? change (parent ++ [name]) (some tree) := by
  induction parent generalizing there with
  | nil =>
    match there with
    | none => simp [update?, asDirectory, replace]
    | some (.directory entries) => rfl
    | some (.file content) => rfl
  | cons first parent ih =>
    match there with
    | none =>
      rw [List.cons_append, update?, update?, ih none, Option.map_bind, Option.bind_map]
      congr 1
      funext tree
      simp [update?, replace]
    | some (.directory entries) =>
      rw [List.cons_append, update?, update?, ih (entries.lookup first), Option.map_bind,
        Option.bind_map]
      congr 1
      funext tree
      simp [update?, lookup_replace, replace_replace]
    | some (.file content) => rfl

/-- Where something lies below a directory that was to be made, the directory was there before. -/
theorem eq_of_update?_asDirectory {there : Option FileTree} {next found : FileTree}
    (h : update? asDirectory parent there = some next)
    (hfound : next.get? (parent ++ [name]) = some found) : there = some next := by
  induction parent generalizing there next with
  | nil =>
    match there with
    | none =>
      obtain rfl : FileTree.directory [] = next := Option.some.inj h
      cases hfound
    | some (.directory entries) => exact h
    | some (.file content) => cases h
  | cons first parent ih =>
    match there with
    | none =>
      obtain ⟨tree, htree, rfl⟩ := Option.map_eq_some_iff.mp h
      have hbelow : tree.get? (parent ++ [name]) = some found := by simpa [get?] using hfound
      cases ih htree hbelow
    | some (.directory entries) =>
      obtain ⟨tree, htree, rfl⟩ := Option.map_eq_some_iff.mp h
      have hbelow : tree.get? (parent ++ [name]) = some found := by
        simpa [get?, lookup_replace] using hfound
      rw [replace_eq_self (ih htree hbelow)]
    | some (.file content) => cases h

/-- In a directory that is there a change is refused only for what is at the name. -/
theorem change_eq_none_of_update? {tree : FileTree} (hparent : tree.isDirectory parent = true)
    (h : update? change (parent ++ [name]) (some tree) = none) :
    change (tree.get? (parent ++ [name])) = none := by
  induction parent generalizing tree with
  | nil =>
    match tree with
    | .file content => cases hparent
    | .directory entries =>
      have hchange : change (entries.lookup name) = none := by simpa [update?] using h
      cases hlookup : entries.lookup name with
      | none => simpa [get?, hlookup] using hchange
      | some found => simpa [get?, hlookup] using hchange
  | cons first parent ih =>
    match tree with
    | .file content => cases hparent
    | .directory entries =>
      cases hlookup : entries.lookup first with
      | none => simp [isDirectory, get?, hlookup] at hparent
      | some below =>
        have hbelow : below.isDirectory parent = true := by
          simpa [isDirectory, get?, hlookup] using hparent
        have hnone : update? change (parent ++ [name]) (some below) = none := by
          simpa [update?, hlookup] using h
        simpa [get?, hlookup] using ih hbelow hnone

end Concat

section Put

variable {parent : Path} {name : String} {content : ByteArray} {tree made : FileTree}

theorem exists_of_asDirectory {there : Option FileTree} (h : asDirectory there = some made) :
    ∃ entries, made = .directory entries := by
  match there with
  | none => exact ⟨[], (Option.some.inj h).symm⟩
  | some (.directory entries) => exact ⟨entries, (Option.some.inj h).symm⟩
  | some (.file content) => cases h

theorem isDirectory_of_makeDirectory? (h : tree.makeDirectory? parent = some made) :
    made.isDirectory parent = true := by
  rw [makeDirectory?_eq_update?] at h
  obtain ⟨found, hfound, hget⟩ := get?_of_update? h
  obtain ⟨entries, rfl⟩ := exists_of_asDirectory hfound
  rw [isDirectory, hget]

theorem put?_eq_write? (hparent : tree.isDirectory parent = true) :
    tree.put? (parent ++ [name]) content = tree.write? (parent ++ [name]) content := by
  unfold put?
  rw [List.dropLast_concat, hparent, Bool.or_true, if_pos rfl]

/-- Writing a file is making the directories above it and then putting it there. -/
theorem write?_concat (parent : Path) (name : String) (content : ByteArray) (tree : FileTree) :
    tree.write? (parent ++ [name]) content =
      (tree.makeDirectory? parent).bind (put? (parent ++ [name]) content) := by
  rw [write?, update?_concat, makeDirectory?_eq_update?]
  cases hmade : update? asDirectory parent (some tree) with
  | none => rfl
  | some made =>
    have hparent : made.isDirectory parent = true := isDirectory_of_makeDirectory? hmade
    exact (put?_eq_write? hparent).symm

/-- Directories are made only where the file can be put next: it is refused for a directory of its
name, and then nothing was missing. -/
theorem eq_of_put?_eq_none (hmade : tree.makeDirectory? parent = some made)
    (hput : made.put? (parent ++ [name]) content = none) : made = tree := by
  have hparent : made.isDirectory parent = true := isDirectory_of_makeDirectory? hmade
  rw [put?_eq_write? hparent] at hput
  have hrefused := change_eq_none_of_update? hparent hput
  split at hrefused
  next entries hfound => exact (Option.some.inj (eq_of_update?_asDirectory hmade hfound)).symm
  next => cases hrefused

end Put

end SchemaGraph.FileTree
