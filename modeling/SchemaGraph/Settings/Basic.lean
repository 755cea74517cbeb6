/-!
# Settings

What a host process knows of the library, and what it can set: a format version, whether debug
messages are wanted, and possibly a filter directive for messages, which takes precedence.

* `version`: the version of the library.
* `Settings.directive`: the filter directive that the settings ask for.
* `Settings.baseDirectory`: the directory that settings are kept below.
-/

namespace SchemaGraph

/-- The version of the library. -/
def version : String := "0.1.0"

/-- What a host process can set. -/
structure Settings where
  version : UInt32
  debug : Bool
  logFilter : Option String
deriving DecidableEq

namespace Settings

/-- The settings where nothing is set. -/
def standard : Settings := ⟨1, false, none⟩

/-- The filter directive that the settings ask for. -/
def directive (s : Settings) : String :=
  match s.logFilter with
  | some filter => filter
  | none => if s.debug then "debug" else "info"

/-- The environment variable that may name the base directory. -/
def homeVariable : String := "RECSCHEMA_HOME"

/-- The directory that settings are kept below: what the environment variable holds, if it is set
and not empty, or else the working directory. -/
def baseDirectory (home : Option String) (workingDirectory : String) : String :=
  match home with
  | none => workingDirectory
  | some directory => if directory.isEmpty then workingDirectory else directory

end Settings

end SchemaGraph
