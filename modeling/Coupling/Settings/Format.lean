import Coupling.Settings.Basic
import Coupling.Toml.Document

/-!
# The TOML form of settings

Settings stand in the tables `cycles` and `scc`; unknown keys are skipped. In the place of such a
table there may be an array of its values in order, or a date or time, which sets nothing.
-/

namespace Coupling

namespace Toml

/-- The entries of a value that is read as a record with the given keys. -/
def Value.record? (keys : List String) : Value → Option (List (String × Value))
  | .table entries => some entries
  | .array items => some (keys.zip items)
  | .moment _ => some []
  | _ => none

def Value.integer? : Value → Option Int
  | .integer i => some i
  | _ => none

/-- The entry under a key, which may be left out; none if it cannot be read. -/
def field? {α : Type} (read : Value → Option α) (entries : List (String × Value)) (key : String) :
    Option (Option α) :=
  match entries.lookup key with
  | none => some none
  | some v => (read v).map some

end Toml

namespace FileSettings

open Toml (field?)

def maxCyclesKey : String := "max_number_to_detect"

def maxEdgesPerStepKey : String := "max_number_of_dependencies_per_edge"

def maxWorkKey : String := "max_work"

def ofEntries (entries : List (String × Toml.Value)) : Option FileSettings := do
  let cycles ←
    field? (Toml.Value.record? [maxCyclesKey, maxEdgesPerStepKey]) entries "cycles"
  let scc ← field? (Toml.Value.record? [maxWorkKey]) entries "scc"
  return {
    maxCycles := ← field? Toml.Value.integer? (cycles.getD []) maxCyclesKey
    maxEdgesPerStep := ← field? Toml.Value.integer? (cycles.getD []) maxEdgesPerStepKey
    maxWork := ← field? Toml.Value.integer? (scc.getD []) maxWorkKey }

def ofText (text : String) : Option FileSettings := do ofEntries (← Toml.parse text)

end FileSettings

end Coupling
