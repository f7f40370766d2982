import Coupling.Trouble

/-!
# Runs

A run writes its output piece by piece, and trouble ends it. Trouble takes nothing back: what has
been written by then is the output of the run. Steps that compute a result or trouble are steps of a
run that write nothing.
-/

namespace Coupling

/-- The state is what has been written. -/
abbrev Run (α : Type) : Type := ExceptT Trouble (StateM String) α

structure Outcome where
  output : String
  trouble : Option Trouble

namespace Run

def write (text : String) : Run Unit := modify fun written => written ++ text

/-- What has been written at the end of a run, and the trouble that has ended it. -/
def outcome (run : Run Unit) (written : String := "") : Outcome :=
  let ended := (StateT.run (ExceptT.run run) written).run
  { output := ended.2
    trouble :=
      match ended.1 with
      | .ok _ => none
      | .error trouble => some trouble }

variable {α : Type} {written : String}

@[simp] theorem outcome_pure : outcome (pure ()) written = ⟨written, none⟩ := rfl

@[simp] theorem outcome_throw (trouble : Trouble) :
    outcome (throw trouble) written = ⟨written, some trouble⟩ := rfl

@[simp] theorem outcome_write_bind (text : String) (rest : Unit → Run Unit) :
    outcome (write text >>= rest) written = outcome (rest ()) (written ++ text) := rfl

@[simp] theorem outcome_ok_bind (a : α) (rest : α → Run Unit) :
    outcome (liftM (Except.ok (ε := Trouble) a) >>= rest) written = outcome (rest a) written := rfl

@[simp] theorem outcome_error_bind (trouble : Trouble) (rest : α → Run Unit) :
    outcome (liftM (Except.error (α := α) trouble) >>= rest) written = ⟨written, some trouble⟩ :=
  rfl

end Run

end Coupling
