import Coupling.Failure
import Coupling.Json.Record
import Coupling.Settings.Basic

/-!
# Why a run fails

What the operator is told: a message and at most one cause behind it. Of a file that cannot be read
or parsed it is told which one; the cause is given where it concerns the shape of a snapshot.
-/

namespace Coupling

/-- What a run asks the system for. -/
inductive Unreadable where
  | file (path : String)
  /-- With what the system says about it. -/
  | workingDirectory (complaint : String)

def Unreadable.message : Unreadable → String
  | file path => s!"Failed to read {path}"
  | workingDirectory complaint => complaint

inductive Trouble where
  | unreadable (what : Unreadable)
  | unparsable (path : String)
  | misshapen (path : String) (cause : Json.Mismatch)
  | settings (fault : SettingsFault)
  | failure (cause : Failure)
  | aborted (cause : Failure)
  | denied (cycles : Nat) (truncated : Bool)

namespace Trouble

def message : Trouble → String
  | unreadable what => what.message
  | unparsable path => s!"Failed to parse {path}"
  | misshapen path _ => s!"Failed to parse {path}"
  | settings fault => fault.message
  | failure cause => cause.message
  | aborted _ => "cycle detection aborted"
  | denied cycles truncated =>
    s!"{cycles} dependency cycle(s) found" ++ if truncated then " (truncated)" else ""

def cause? : Trouble → Option String
  | unreadable _ => none
  | unparsable _ => none
  | misshapen _ cause => some cause.message
  | settings fault => some fault.cause
  | failure cause => cause.cause?
  | aborted cause => some cause.message
  | denied .. => none

/-- The lines of the cause stand four columns further in. -/
def text (t : Trouble) : String :=
  match t.cause? with
  | none => "Error: " ++ t.message
  | some cause =>
    "Error: " ++ t.message ++ "\n\nCaused by:\n    " ++ cause.replace "\n" "\n    "

end Trouble

end Coupling
