import Mathlib
import SchemaGraph.Proofs.Settings

/-!
# Loading again

The requests of a session are programs of several operations on the files. They lead to what the
session says as a whole; in particular, directories are made only where the file can be written
next.

A load finds settings or writes the standard ones. In both cases there are settings at the path
afterwards, the same that were returned, so every later load finds them and writes nothing.

* `Settings.Missing`: why there are no settings at a path.
* `Session.start_loadInto`, `Session.start_reloadFrom`, `Session.start_saveTo`: the programs do what
  the session says.
* `Session.start_loadFrom_cases`: what a load can do.
* `Session.files_run`: where there are settings, no sequence of requests changes a file.
* `Session.start_run_of_start_loadFrom`: every later load gives what the first one gave.
* `Session.loads_agree`: all this together.
-/

namespace SchemaGraph

/-! ## Settings in a file -/

namespace Settings

/-- Why there are no settings at a path. -/
inductive Missing (files : FileTree) (path : Path) : SettingsError → Prop
  | nothing (found : files.get? path = none) : Missing files path .inaccessible
  | directory {entries : List (String × FileTree)}
      (found : files.get? path = some (.directory entries)) : Missing files path .inaccessible
  /-- The content of the file is no text. -/
  | bytes {content : ByteArray} (found : files.content? path = some content)
      (undecodable : String.fromUTF8? content = none) : Missing files path .inaccessible
  | malformed {text : String} (found : files.text? path = some text)
      (refused : Settings.parse? text = none) : Missing files path .malformed

variable {files next : FileTree} {path : Path} {c : Settings} {e : SettingsError}

theorem ofFile_eq_bind (files : FileTree) (path : Path) :
    ofFile files path = textAt files path >>= ofText := by
  unfold ofFile textAt
  cases files.text? path with
  | none => rfl
  | some text => rfl

theorem ofFile_eq_ok_iff :
    ofFile files path = .ok c ↔ ∃ text, files.text? path = some text ∧ parse? text = some c := by
  unfold ofFile
  cases htext : files.text? path with
  | none => simp
  | some text => cases hparse : parse? text <;> simp [hparse]

theorem missing_of_text?_eq_none (hnone : files.text? path = none) :
    Missing files path .inaccessible := by
  cases hfound : files.get? path with
  | none => exact .nothing hfound
  | some found =>
    match found with
    | .directory entries => exact .directory hfound
    | .file content =>
      have hcontent := FileTree.content?_eq_some_iff.mpr hfound
      unfold FileTree.text? at hnone
      rw [hcontent] at hnone
      exact .bytes hcontent hnone

theorem ofFile_eq_error_iff : ofFile files path = .error e ↔ Missing files path e := by
  constructor
  · intro h
    unfold ofFile at h
    split at h
    next hnone =>
      obtain rfl := Except.error.inj h
      exact missing_of_text?_eq_none hnone
    next text htext =>
      split at h
      next hparse =>
        obtain rfl := Except.error.inj h
        exact .malformed htext hparse
      next => cases h
  · intro h
    unfold ofFile
    cases h with
    | nothing found => simp [FileTree.text?, FileTree.content?, found]
    | directory found => simp [FileTree.text?, FileTree.content?, found]
    | bytes found undecodable => simp [FileTree.text?, found, undecodable]
    | malformed found refused => simp [found, refused]

theorem toFile_eq_ok_iff {settings : Settings} :
    toFile files path settings = .ok next ↔
      files.write? path settings.render.toUTF8 = some next := by
  unfold toFile
  cases files.write? path settings.render.toUTF8 <;> simp

/-- What was written stands for the settings. -/
theorem ofFile_toFile {settings : Settings} (h : toFile files path settings = .ok next) :
    ofFile next path = .ok settings := by
  have htext := FileTree.text?_of_write? (toFile_eq_ok_iff.mp h)
  exact ofFile_eq_ok_iff.mpr ⟨_, htext, parse?_render settings⟩

end Settings

/-! ## What the programs do -/

namespace Session

open Script

variable {s next : Session} {path : Path} {c : Settings}

theorem start_inspect {α : Type} (read : FileTree → Except SettingsError α) (s : Session) :
    (inspect read).start s = (read s.files, s) := rfl

theorem start_alter (change : FileTree → Option FileTree) (s : Session) :
    (alter change).start s =
      match change s.files with
      | some files => (.ok (), { s with files })
      | none => (.error .inaccessible, s) := by
  unfold alter
  rw [start_update]
  cases change s.files <;> rfl

/-- There is no directory above the root. -/
theorem start_makeParent_nil (s : Session) : (makeParent []).start s = (.ok (), s) := rfl

theorem makeParent_concat (parent : Path) (name : String) :
    makeParent (parent ++ [name]) = alter (FileTree.makeDirectory? parent) := by
  unfold makeParent
  rw [List.dropLast_concat, if_neg (by simp)]

theorem start_readFrom (path : Path) (s : Session) :
    (readFrom path).start s = (Settings.ofFile s.files path, s) := by
  unfold readFrom
  rw [Settings.ofFile_eq_bind, start_bind, start_inspect]
  cases Settings.textAt s.files path <;> rfl

theorem start_reloadFrom (path : Path) (s : Session) :
    (reloadFrom path).start s = s.reload path := by
  unfold reloadFrom reload
  rw [start_bind, start_readFrom]
  cases Settings.ofFile s.files path <;> rfl

/-- The session stays as it was if one of the operations fails. -/
theorem start_saveTo (settings : Settings) (path : Path) (s : Session) :
    (saveTo settings path).start s =
      s.orStay do return { s with files := ← Settings.toFile s.files path settings } := by
  unfold saveTo Settings.toFile
  rcases List.eq_nil_or_concat' path with rfl | ⟨parent, name, rfl⟩
  · rw [start_bind, start_makeParent_nil]
    dsimp only
    rw [start_alter, FileTree.put?_nil]
    cases s.files.write? [] settings.render.toUTF8 <;> rfl
  · rw [start_bind, makeParent_concat, start_alter, FileTree.write?_concat]
    cases hmade : s.files.makeDirectory? parent with
    | none => rfl
    | some made =>
      dsimp only
      rw [start_alter, Option.bind_some]
      cases hput : made.put? (parent ++ [name]) settings.render.toUTF8 with
      | some files => rfl
      | none =>
        rw [FileTree.eq_of_put?_eq_none hmade hput]
        rfl

theorem start_saveCurrent (path : Path) (s : Session) :
    (saveCurrent path).start s = s.save path := by
  unfold saveCurrent save
  rw [start_bind]
  exact start_saveTo s.current path s

/-- A load reads what is there, or it writes the standard settings or is refused to do so. -/
theorem start_loadFrom_cases (path : Path) (s : Session) :
    (∃ found, s.files.get? path = some found ∧
      (loadFrom path).start s = (Settings.ofFile s.files path, s)) ∨
    s.files.get? path = none ∧
      ((∃ files, Settings.toFile s.files path .standard = .ok files ∧
        (loadFrom path).start s = (.ok .standard, { s with files })) ∨
      ∃ e, Settings.toFile s.files path .standard = .error e ∧
        (loadFrom path).start s = (.error e, s)) := by
  unfold loadFrom
  rw [start_bind, start_inspect]
  cases hfound : s.files.get? path with
  | some found => exact .inl ⟨found, rfl, start_readFrom path s⟩
  | none =>
    have hwrite : (saveTo .standard path >>= fun _ => pure Settings.standard).start s =
        match Settings.toFile s.files path .standard with
        | .ok files => (.ok .standard, { s with files })
        | .error e => (.error e, s) := by
      rw [start_bind, start_saveTo]
      cases Settings.toFile s.files path .standard <;> rfl
    refine .inr ⟨rfl, ?_⟩
    cases hfiles : Settings.toFile s.files path .standard with
    | ok files =>
      rw [hfiles] at hwrite
      exact .inl ⟨files, rfl, hwrite⟩
    | error e =>
      rw [hfiles] at hwrite
      exact .inr ⟨e, rfl, hwrite⟩

theorem start_loadInto (path : Path) (s : Session) : (loadInto path).start s = s.load path := by
  unfold loadInto load
  rw [start_bind]
  rcases start_loadFrom_cases path s with ⟨found, hfound, hstart⟩ |
    ⟨hnone, ⟨files, hfiles, hstart⟩ | ⟨e, hfiles, hstart⟩⟩
  · rw [hstart, hfound, reload]
    cases Settings.ofFile s.files path <;> rfl
  · rw [hstart, hnone, hfiles]
    rfl
  · rw [hstart, hnone, hfiles]
    rfl

/-! ## Sequences of requests -/

/-- Where there are settings, they are loaded and nothing else happens. -/
theorem start_loadFrom_of_ofFile (h : Settings.ofFile s.files path = .ok c) :
    (loadFrom path).start s = (.ok c, s) := by
  rcases start_loadFrom_cases path s with ⟨-, -, hstart⟩ | ⟨hnone, -⟩
  · rw [hstart, h]
  · have hmissing := Settings.ofFile_eq_error_iff.mpr (.nothing hnone)
    rw [h] at hmissing
    cases hmissing

theorem start_reloadFrom_of_ofFile (h : Settings.ofFile s.files path = .ok c) :
    (reloadFrom path).start s = (.ok (), { s with current := c }) := by
  rw [start_reloadFrom, reload, h]
  rfl

/-- Whether it found the settings or wrote them, a load leaves them at the path. -/
theorem ofFile_of_start_loadFrom (h : (loadFrom path).start s = (.ok c, next)) :
    Settings.ofFile next.files path = .ok c ∧ next.current = s.current := by
  rcases start_loadFrom_cases path s with ⟨-, -, hstart⟩ |
    ⟨-, ⟨files, hfiles, hstart⟩ | ⟨e, -, hstart⟩⟩
  · obtain ⟨hc, rfl⟩ := Prod.mk.inj (hstart.symm.trans h)
    exact ⟨hc, rfl⟩
  · obtain ⟨hc, rfl⟩ := Prod.mk.inj (hstart.symm.trans h)
    obtain rfl := Except.ok.inj hc
    exact ⟨Settings.ofFile_toFile hfiles, rfl⟩
  · cases (Prod.mk.inj (hstart.symm.trans h)).1

theorem files_answer (h : Settings.ofFile s.files path = .ok c) (r : Request) :
    ((answer path r).start s).2.files = s.files := by
  cases r with
  | load =>
    unfold answer
    rw [start_loadFrom_of_ofFile h]
  | reload =>
    unfold answer
    rw [start_bind, start_reloadFrom_of_ofFile h]
    rfl
  | edit settings => rfl

theorem files_run (h : Settings.ofFile s.files path = .ok c) (requests : List Request) :
    (run path s requests).files = s.files := by
  induction requests generalizing s with
  | nil => rfl
  | cons r requests ih =>
    have hfiles := files_answer h r
    have hnext : Settings.ofFile ((answer path r).start s).2.files path = .ok c := by
      rw [hfiles]
      exact h
    exact (ih hnext).trans hfiles

/-- What a load gives, every later load and reload gives, whatever was asked for in between. -/
theorem start_run_of_start_loadFrom (h : (loadFrom path).start s = (.ok c, next))
    (requests : List Request) :
    (run path next requests).files = next.files ∧
      (loadFrom path).start (run path next requests) = (.ok c, run path next requests) ∧
      (reloadFrom path).start (run path next requests) = (.ok (), ⟨next.files, c⟩) := by
  obtain ⟨hnext, -⟩ := ofFile_of_start_loadFrom h
  have hfiles : (run path next requests).files = next.files := files_run hnext requests
  have hlater : Settings.ofFile (run path next requests).files path = .ok c := by
    rw [hfiles]
    exact hnext
  refine ⟨hfiles, start_loadFrom_of_ofFile hlater, ?_⟩
  rw [start_reloadFrom_of_ofFile hlater, hfiles]

/-! ## What stays as it was -/

/-- Where nothing was, the standard settings are written and given. -/
theorem standard_of_start_loadFrom (hnone : s.files.get? path = none)
    (h : (loadFrom path).start s = (.ok c, next)) :
    c = .standard ∧ s.files.write? path Settings.standard.render.toUTF8 = some next.files := by
  rcases start_loadFrom_cases path s with ⟨found, hfound, -⟩ |
    ⟨-, ⟨files, hfiles, hstart⟩ | ⟨e, -, hstart⟩⟩
  · rw [hnone] at hfound
    cases hfound
  · obtain ⟨hc, rfl⟩ := Prod.mk.inj (hstart.symm.trans h)
    exact ⟨(Except.ok.inj hc).symm, Settings.toFile_eq_ok_iff.mp hfiles⟩
  · cases (Prod.mk.inj (hstart.symm.trans h)).1

theorem start_loadFrom_of_get? {found : FileTree} (hfound : s.files.get? path = some found) :
    ((loadFrom path).start s).2 = s := by
  rcases start_loadFrom_cases path s with ⟨-, -, hstart⟩ | ⟨hnone, -⟩
  · rw [hstart]
  · rw [hfound] at hnone
    cases hnone

theorem content?_start_loadFrom {other : Path} {content : ByteArray}
    (hother : s.files.content? other = some content) :
    ((loadFrom path).start s).2.files.content? other = some content := by
  rcases start_loadFrom_cases path s with ⟨-, -, hstart⟩ |
    ⟨hnone, ⟨files, hfiles, hstart⟩ | ⟨e, -, hstart⟩⟩
  · rw [hstart]
    exact hother
  · have hne : other ≠ path := by
      rintro rfl
      rw [FileTree.content?_eq_some_iff, hnone] at hother
      cases hother
    rw [hstart]
    exact FileTree.content?_of_write?_of_ne hne (Settings.toFile_eq_ok_iff.mp hfiles) hother
  · rw [hstart]
    exact hother

theorem eq_of_start_loadFrom_error {e : SettingsError}
    (h : (loadFrom path).start s = (.error e, next)) : next = s := by
  rcases start_loadFrom_cases path s with ⟨-, -, hstart⟩ |
    ⟨-, ⟨files, -, hstart⟩ | ⟨e', -, hstart⟩⟩
  · exact (Prod.mk.inj (hstart.symm.trans h)).2.symm
  · cases (Prod.mk.inj (hstart.symm.trans h)).1
  · exact (Prod.mk.inj (hstart.symm.trans h)).2.symm

theorem start_reloadFrom_eq_error_iff {e : SettingsError} :
    (reloadFrom path).start s = (.error e, next) ↔
      next = s ∧ Settings.Missing s.files path e := by
  rw [← Settings.ofFile_eq_error_iff, start_reloadFrom, reload]
  cases Settings.ofFile s.files path with
  | error refused =>
    constructor
    · intro h
      obtain ⟨he, rfl⟩ := Prod.mk.inj h
      exact ⟨rfl, congrArg Except.error (Except.error.inj he)⟩
    · rintro ⟨rfl, he⟩
      obtain rfl := Except.error.inj he
      rfl
  | ok settings =>
    constructor
    · intro h
      cases (Prod.mk.inj h).1
    · rintro ⟨-, he⟩
      cases he

/-- **Later loads agree with the first.** The programs do what a session says. If a load gives
settings, found or just written, then after any number of loads, of reloads and of changes of the
current settings a load and a reload give the same, and no file has changed. A load at a path where
something is changes nothing, whatever it is; where nothing is, it keeps all files that there are. A
load or a reload that fails leaves everything as it was, and a reload fails exactly if nothing, a
directory, no text or no settings are at the path. -/
theorem loads_agree (path : Path) (s : Session) :
    ((loadInto path).start s = s.load path ∧ (reloadFrom path).start s = s.reload path ∧
      (saveCurrent path).start s = s.save path) ∧
    (∀ c next, (loadFrom path).start s = (.ok c, next) → next.current = s.current ∧
      ∀ requests, (run path next requests).files = next.files ∧
        (loadFrom path).start (run path next requests) = (.ok c, run path next requests) ∧
        (reloadFrom path).start (run path next requests) = (.ok (), ⟨next.files, c⟩)) ∧
    (s.files.get? path = none → ∀ c next, (loadFrom path).start s = (.ok c, next) →
      c = .standard ∧ s.files.write? path Settings.standard.render.toUTF8 = some next.files) ∧
    (∀ found, s.files.get? path = some found → ((loadFrom path).start s).2 = s) ∧
    (∀ other content, s.files.content? other = some content →
      ((loadFrom path).start s).2.files.content? other = some content) ∧
    (∀ e next, (loadFrom path).start s = (.error e, next) → next = s) ∧
    ∀ e next, (reloadFrom path).start s = (.error e, next) ↔
      next = s ∧ Settings.Missing s.files path e := by
  refine ⟨⟨start_loadInto path s, start_reloadFrom path s, start_saveCurrent path s⟩, ?_,
    fun hnone _ _ => standard_of_start_loadFrom hnone, fun _ => start_loadFrom_of_get?,
    fun _ _ => content?_start_loadFrom, fun _ _ => eq_of_start_loadFrom_error,
    fun _ _ => start_reloadFrom_eq_error_iff⟩
  intro c next h
  exact ⟨(ofFile_of_start_loadFrom h).2, start_run_of_start_loadFrom h⟩

/-- A file of notes, and a directory that settings could be kept in. -/
def notes : FileTree :=
  .directory [("home", .directory [("notes", .file "version = \"two\"".toUTF8)])]

/-- The standard settings next to the notes, and the directory for them. -/
def installed : FileTree :=
  .directory [("home", .directory [("notes", .file "version = \"two\"".toUTF8),
    ("configs", .directory [("core.toml", .file Settings.standard.render.toUTF8)])])]

/-- Settings are found where they were missing; in a directory and in the notes there are none. -/
theorem loads_agree_installed :
    let path := Settings.defaultPath ["home"]
    (loadFrom path).start ⟨notes, quoted⟩ = (.ok .standard, ⟨installed, quoted⟩) ∧
    notes.write? path Settings.standard.render.toUTF8 = some installed ∧
    (loadFrom path).start (run path ⟨installed, quoted⟩ [.load, .edit quoted, .reload]) =
      (.ok .standard, run path ⟨installed, quoted⟩ [.load, .edit quoted, .reload]) ∧
    installed.content? ["home", "notes"] = some "version = \"two\"".toUTF8 ∧
    ((loadFrom ["home", "notes"]).start ⟨installed, quoted⟩).2 = ⟨installed, quoted⟩ ∧
    (reloadFrom ["home", "configs"]).start ⟨installed, quoted⟩ =
      (.error .inaccessible, ⟨installed, quoted⟩) ∧
    (reloadFrom ["home", "notes"]).start ⟨installed, quoted⟩ =
      (.error .malformed, ⟨installed, quoted⟩) := by
  intro path
  have hload : (loadFrom path).start ⟨notes, quoted⟩ = (.ok .standard, ⟨installed, quoted⟩) := rfl
  obtain ⟨-, hagree, hwritten, -, hkeeps, -, -⟩ := loads_agree path ⟨notes, quoted⟩
  obtain ⟨-, hlater⟩ := hagree _ _ hload
  refine ⟨hload, (hwritten rfl _ _ hload).2, (hlater _).2.1, ?_, ?_, ?_, ?_⟩
  · have hnotes := hkeeps ["home", "notes"] _ rfl
    rw [hload] at hnotes
    exact hnotes
  · exact (loads_agree ["home", "notes"] ⟨installed, quoted⟩).2.2.2.1 _ rfl
  · exact ((loads_agree ["home", "configs"] ⟨installed, quoted⟩).2.2.2.2.2.2 _ _).mpr
      ⟨rfl, .directory rfl⟩
  · have htext : installed.text? ["home", "notes"] = some "version = \"two\"" :=
      FileTree.text?_of_get? rfl
    exact ((loads_agree ["home", "notes"] ⟨installed, quoted⟩).2.2.2.2.2.2 _ _).mpr
      ⟨rfl, .malformed htext (by decide +kernel)⟩

end Session

end SchemaGraph
