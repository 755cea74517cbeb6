import Mathlib
import SchemaGraph.Proofs.FileTree
import SchemaGraph.Proofs.Toml.Document
import SchemaGraph.Settings.Session

/-!
# Settings are read as they were saved

Settings are written as a document with one line for each of them, and no key twice. So the document
is read as its entries, and every entry is of the kind that is asked for under its key.

* `Settings.lines`: the lines of settings.
* `Settings.parse?_render`: the text of settings stands for the settings.
* `Session.save_then_load`: what was saved at a path is loaded from it.
-/

namespace SchemaGraph

open Toml

/-! ## Settings as text -/

namespace Settings

/-- The version is a number of 32 bits. -/
theorem isWritten_version (version : UInt32) :
    IsWritten (Nat.toDigits 10 version.toNat) (.integer version.toNat) := by
  have hsize := version.toNat_lt
  have hpow : Nat.pow 2 63 = 9223372036854775808 := by decide
  exact isWritten_toDigits (by omega)

def versionLine (version : UInt32) : EntryLine where
  key := "version"
  item := .integer version.toNat
  value := Nat.toDigits 10 version.toNat
  isBareKey := by simp [IsBareKey, isBare]
  isWritten := isWritten_version version

def debugLine (debug : Bool) : EntryLine where
  key := "debug"
  item := .boolean debug
  value := if debug then ['t', 'r', 'u', 'e'] else ['f', 'a', 'l', 's', 'e']
  isBareKey := by simp [IsBareKey, isBare]
  isWritten := by
    cases debug
    · exact isWritten_false
    · exact isWritten_true

def filterLine (filter : String) : EntryLine where
  key := "log_filter"
  item := .text filter
  value := writeText filter.toList
  isBareKey := by simp [IsBareKey, isBare]
  isWritten := by
    have hwritten := isWritten_writeText filter.toList
    rwa [String.ofList_toList] at hwritten

/-- The lines of settings. -/
def lines (s : Settings) : List EntryLine :=
  versionLine s.version :: debugLine s.debug :: (s.logFilter.map filterLine).toList

theorem render_eq_document (s : Settings) :
    s.render = String.ofList (EntryLine.document s.lines) := by
  apply String.toList_injective
  rw [String.toList_ofList]
  unfold render lines
  cases s.debug <;> cases s.logFilter <;>
    simp [EntryLine.document, EntryLine.written, versionLine, debugLine, filterLine]

theorem nodup_lines (s : Settings) : (s.lines.map EntryLine.key).Nodup := by
  unfold lines
  cases s.logFilter <;> simp [versionLine, debugLine, filterLine]

theorem version?_integer (version : UInt32) :
    version? (some (.integer version.toNat)) = some version := by
  have hsize : version.toNat < UInt32.size := version.toNat_lt
  simp [version?, hsize]

/-- **The text of settings stands for the settings**, whatever the filter is. -/
theorem parse?_render (s : Settings) : parse? s.render = some s := by
  have hread : Toml.read? s.render = some (s.lines.map EntryLine.entry) := by
    rw [render_eq_document]
    exact EntryLine.read?_document s.nodup_lines
  have hversion : Entries.get? (s.lines.map EntryLine.entry) "version" =
      some (.integer s.version.toNat) := by
    simp [Entries.get?, lines, EntryLine.entry, versionLine]
  have hdebug : Entries.get? (s.lines.map EntryLine.entry) "debug" = some (.boolean s.debug) := by
    simp [Entries.get?, lines, EntryLine.entry, versionLine, debugLine, List.lookup_cons]
  have hfilter : logFilter? (Entries.get? (s.lines.map EntryLine.entry) "log_filter") =
      some s.logFilter := by
    cases hfilter : s.logFilter <;>
      simp [Entries.get?, lines, EntryLine.entry, versionLine, debugLine, filterLine, hfilter,
        List.lookup_cons, logFilter?, standard]
  unfold parse? ofEntries?
  simp [hread, hversion, hdebug, hfilter, version?_integer, debug?]

end Settings

/-! ## Saving and loading -/

namespace Session

theorem save_eq_ok_iff {s saved : Session} {path : Path} :
    s.save path = (.ok (), saved) ↔ ∃ files,
      s.files.write? path s.current.render.toUTF8 = some files ∧ saved = ⟨files, s.current⟩ := by
  unfold save Settings.toFile
  cases s.files.write? path s.current.render.toUTF8 with
  | none => simp [orStay]
  | some files => simp [orStay, eq_comm]

/-- Where the text of settings is, the settings are loaded. -/
theorem reload_eq {s : Session} {path : Path} {settings : Settings}
    (h : s.files.text? path = some settings.render) :
    s.reload path = (.ok (), ⟨s.files, settings⟩) := by
  unfold reload Settings.ofFile
  rw [h]
  dsimp only
  rw [Settings.parse?_render]
  rfl

theorem load_eq_reload {s : Session} {path : Path} {tree : FileTree}
    (h : s.files.get? path = some tree) : s.load path = s.reload path := by
  unfold load
  rw [h]

/-- **What was saved at a path is loaded from it**, whatever the current settings are by then, and
saving it again leaves all files as they are. -/
theorem save_then_load {s saved : Session} {path : Path} (h : s.save path = (.ok (), saved)) :
    saved.current = s.current ∧ saved.files.text? path = some s.current.render ∧
      (∀ current, Session.load ⟨saved.files, current⟩ path = (.ok (), saved) ∧
        Session.reload ⟨saved.files, current⟩ path = (.ok (), saved)) ∧
      saved.save path = (.ok (), saved) := by
  obtain ⟨files, hwrite, rfl⟩ := save_eq_ok_iff.mp h
  have htext := FileTree.text?_of_write? hwrite
  have hget := FileTree.get?_of_write? hwrite
  have hreload : ∀ current, Session.reload ⟨files, current⟩ path = (.ok (), ⟨files, s.current⟩) :=
    fun _ => reload_eq htext
  refine ⟨rfl, htext, fun current => ⟨?_, hreload current⟩, ?_⟩
  · rw [load_eq_reload hget]
    exact hreload current
  · exact save_eq_ok_iff.mpr ⟨files, FileTree.write?_of_write? hwrite, rfl⟩

/-- Settings with a filter that is written on several lines, with escapes, and that ends in the mark
that encloses it. -/
def quoted : Settings := ⟨7, true, some "\'\'\'\\\n\x01\"\"\"\"\""⟩

def quotedText : String :=
  "version = 7\ndebug = true\nlog_filter = \"\"\"\n\'\'\'\\\\\n\\u0001\"\"\\\"\"\"\"\"\"\n"

/-- Where nothing was before, the directories are made. -/
theorem save_then_load_quoted :
    let path := Settings.defaultPath ["home"]
    let saved : Session := ⟨.directory [("home", .directory [("configs", .directory
      [("core.toml", .file quotedText.toUTF8)])])], quoted⟩
    Session.save ⟨.empty, quoted⟩ path = (.ok (), saved) ∧
      Session.load ⟨saved.files, .standard⟩ path = (.ok (), saved) := by
  have hrender : quoted.render = quotedText := by decide +kernel
  rw [← hrender]
  have hsave : Session.save ⟨.empty, quoted⟩ (Settings.defaultPath ["home"]) = (.ok (), _) := rfl
  obtain ⟨-, -, hload, -⟩ := save_then_load hsave
  exact ⟨hsave, (hload .standard).1⟩

end Session

end SchemaGraph
