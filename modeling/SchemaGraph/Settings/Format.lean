import SchemaGraph.Settings.Basic
import SchemaGraph.Toml.Document
import SchemaGraph.Toml.Text.Writer

/-!
# Settings as text

Settings are kept as a TOML document.

* `Settings.render`: one line for each setting, and none for a filter that is absent.
* `Settings.parse?`: the settings of any TOML document. Keys that mean nothing are passed over, and
  missing ones have their standard values; a value of another kind, or a version outside 32 bits,
  is refused.
-/

namespace SchemaGraph.Settings

/-- The text of settings. -/
def render (s : Settings) : String :=
  "version = " ++ toString s.version.toNat ++ "\n"
    ++ "debug = " ++ (if s.debug then "true" else "false") ++ "\n"
    ++ match s.logFilter with
      | none => ""
      | some filter => "log_filter = " ++ String.ofList (Toml.writeText filter.toList) ++ "\n"

/-- A version, if it is in the range of 32 bits. -/
def version? : Option Toml.Item → Option UInt32
  | none => some standard.version
  | some (.integer i) => if 0 ≤ i ∧ i.toNat < UInt32.size then some i.toNat.toUInt32 else none
  | some _ => none

def debug? : Option Toml.Item → Option Bool
  | none => some standard.debug
  | some (.boolean b) => some b
  | some _ => none

def logFilter? : Option Toml.Item → Option (Option String)
  | none => some standard.logFilter
  | some (.text s) => some (some s)
  | some _ => none

/-- The settings that the entries of a document give. -/
def ofEntries? (entries : Toml.Entries) : Option Settings := do
  let version ← version? (entries.get? "version")
  let debug ← debug? (entries.get? "debug")
  let logFilter ← logFilter? (entries.get? "log_filter")
  return ⟨version, debug, logFilter⟩

/-- The settings of a TOML document. -/
def parse? (text : String) : Option Settings := do
  ofEntries? (← Toml.read? text)

end SchemaGraph.Settings
