import SchemaGraph.FileTree
import SchemaGraph.Script
import SchemaGraph.Settings.Format

/-!
# Sessions

A session has current settings and the files that settings are kept in.

* `Session.load`: take the settings from a file. Where there is nothing, the standard settings are
  written there first.
* `Session.reload`: take the settings from a file that must be there.
* `Session.save`: write the current settings to a file.

A request that fails leaves the session as it was.

A session says what a request leads to as a whole. A program has to do it in several operations on
the files, each of which may fail after the ones before it have had their effect: it asks whether
there is something at the path, reads or makes the directories above it, writes a file into a
directory that is there.

* `Session.loadInto`, `Session.reloadFrom`, `Session.saveCurrent`: the requests as programs.
* `Session.loadFrom`, `Session.readFrom`, `Session.saveTo`: the parts that they are made of.
* `Session.run`: a sequence of requests.
-/

namespace SchemaGraph

/-- Why settings cannot be read or written. -/
inductive SettingsError where
  /-- There is no file of text at the path, or none can be written there. -/
  | inaccessible
  /-- The text is no TOML document, or its values are of other kinds. -/
  | malformed
deriving DecidableEq

/-- The current settings, and the files that settings are kept in. -/
structure Session where
  files : FileTree
  current : Settings

namespace Settings

/-- The directory of settings files below a base directory. -/
def directoryPath (base : Path) : Path :=
  base ++ ["configs"]

/-- The settings file below a base directory. -/
def defaultPath (base : Path) : Path :=
  directoryPath base ++ ["core.toml"]

/-- The settings in the file at a path. -/
def ofFile (files : FileTree) (path : Path) : Except SettingsError Settings :=
  match files.text? path with
  | none => .error .inaccessible
  | some text =>
    match parse? text with
    | none => .error .malformed
    | some settings => .ok settings

/-- The text at a path. -/
def textAt (files : FileTree) (path : Path) : Except SettingsError String :=
  match files.text? path with
  | none => .error .inaccessible
  | some text => .ok text

/-- The settings that a text stands for. -/
def ofText (text : String) : Except SettingsError Settings :=
  match parse? text with
  | none => .error .malformed
  | some settings => .ok settings

/-- The files with settings written at a path. -/
def toFile (files : FileTree) (path : Path) (s : Settings) : Except SettingsError FileTree :=
  match files.write? path s.render.toUTF8 with
  | none => .error .inaccessible
  | some files => .ok files

end Settings

namespace Session

/-- No files, and the standard settings. -/
def start : Session := ⟨.empty, .standard⟩

/-- The outcome of a request, and the session after it. -/
abbrev Outcome := Except SettingsError Unit × Session

/-- Go on with another session, or stay if there is none. -/
def orStay (s : Session) : Except SettingsError Session → Outcome
  | .ok next => (.ok (), next)
  | .error e => (.error e, s)

/-- Take the settings from a file that must be there. -/
def reload (s : Session) (path : Path) : Outcome :=
  s.orStay do
    return { s with current := ← Settings.ofFile s.files path }

/-- Take the settings from a file; where there is nothing, write the standard ones first. -/
def load (s : Session) (path : Path) : Outcome :=
  match s.files.get? path with
  | some _ => s.reload path
  | none =>
    s.orStay do
      return ⟨← Settings.toFile s.files path .standard, .standard⟩

/-- Write the current settings to a file. -/
def save (s : Session) (path : Path) : Outcome :=
  s.orStay do
    return { s with files := ← Settings.toFile s.files path s.current }

/-! ## Requests as programs -/

section Programs

variable {α : Type}

/-- An operation that only reads files. -/
def inspect (read : FileTree → Except SettingsError α) : Script SettingsError Session α :=
  .look fun s => read s.files

/-- An operation that changes files, or leaves them as they are if it cannot. -/
def alter (change : FileTree → Option FileTree) : Script SettingsError Session Unit :=
  .update fun s =>
    match change s.files with
    | some files => .ok { s with files }
    | none => .error .inaccessible

def assign (current : Settings) : Script SettingsError Session Unit :=
  .write fun s => { s with current }

/-- Make the directories above a path. -/
def makeParent (path : Path) : Script SettingsError Session Unit :=
  if path.isEmpty then return () else alter (FileTree.makeDirectory? path.dropLast)

/-- Read settings from a file. -/
def readFrom (path : Path) : Script SettingsError Session Settings := do
  let text ← inspect fun files => Settings.textAt files path
  inspect fun _ => Settings.ofText text

def saveTo (settings : Settings) (path : Path) : Script SettingsError Session Unit := do
  makeParent path
  alter (FileTree.put? path settings.render.toUTF8)

/-- Read settings from a file, or write the standard ones if nothing is there. -/
def loadFrom (path : Path) : Script SettingsError Session Settings := do
  let found ← inspect fun files => .ok (files.get? path).isSome
  if found then readFrom path
  else
    saveTo .standard path
    return .standard

/-- Load settings and make them the current ones. -/
def loadInto (path : Path) : Script SettingsError Session Unit := do
  let settings ← loadFrom path
  assign settings

def reloadFrom (path : Path) : Script SettingsError Session Unit := do
  let settings ← readFrom path
  assign settings

def saveCurrent (path : Path) : Script SettingsError Session Unit := do
  saveTo (← get).current path

end Programs

/-! ## Sequences of requests -/

/-- What can be asked for again and again. -/
inductive Request where
  | load
  | reload
  /-- Other settings become the current ones. -/
  | edit (settings : Settings)

/-- The settings that a request at a path gives. -/
def answer (path : Path) : Request → Script SettingsError Session Settings
  | .load => loadFrom path
  | .reload => do
    reloadFrom path
    return (← get).current
  | .edit settings => do
    assign settings
    return settings

/-- The session after requests at a path. -/
def run (path : Path) (s : Session) (requests : List Request) : Session :=
  requests.foldl (fun s r => ((answer path r).start s).2) s

end Session

end SchemaGraph
