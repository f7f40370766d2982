import Coupling.Limits
import Coupling.Text.Blank
import Coupling.Text.Integer

/-!
# Settings

Each limit on reported cycles is taken from the first source that names it: a flag, a variable of
the environment, the settings file of the project, or else the default. The work budget can be set
in the file only. What a source says is looked at only when it is chosen.
-/

namespace Coupling

/-- What a settings file says. -/
structure FileSettings where
  maxCycles : Option Int := none
  maxEdgesPerStep : Option Int := none
  maxWork : Option Int := none
  deriving DecidableEq, Repr

/-- What the flags of a command line say. -/
structure FlagSettings where
  maxCycles : Option Int := none
  maxEdgesPerStep : Option Int := none
  deriving DecidableEq, Repr

/-- What the environment says. -/
structure VariableSettings where
  maxCycles : Option String := none
  maxEdgesPerStep : Option String := none
  deriving DecidableEq, Repr

structure Configuration where
  limits : CycleLimits
  budget : WorkBudget
  deriving DecidableEq, Repr

inductive SettingsFault where
  | notAnInteger (name value : String) (cause : Text.IntegerFault)
  | limits (cause : Failure)
  | budget (cause : Failure)
  deriving DecidableEq, Repr

def SettingsFault.message : SettingsFault → String
  | notAnInteger name value _ => s!"{name}={value} is not an integer"
  | limits _ => "Invalid cycle limits (check flags, STRATA_* env vars and .strata/config.toml)"
  | budget _ => "Invalid [scc] max_work in .strata/config.toml"

def SettingsFault.cause : SettingsFault → String
  | notAnInteger _ _ cause => cause.message
  | limits cause => cause.message
  | budget cause => cause.message

def maxCyclesVariable : String := "STRATA_MAX_CYCLES"

def maxEdgesPerStepVariable : String := "STRATA_MAX_EDGES_PER_STEP"

/-- White space around the integer is allowed. -/
def readVariable (name value : String) : Except SettingsFault Int :=
  (Text.readInteger (Text.trim value.toList)).mapError (.notAnInteger name value)

def chooseLimit (flag : Option Int) (name : String) (value : Option String) (file : Option Int)
    (default : Nat) : Except SettingsFault Int :=
  match flag, value, file with
  | some i, _, _ => .ok i
  | none, some value, _ => readVariable name value
  | none, none, some i => .ok i
  | none, none, none => .ok default

def FileSettings.budget (file : FileSettings) : Except SettingsFault WorkBudget :=
  match file.maxWork with
  | some maxWork => (WorkBudget.bounded maxWork).mapError .budget
  | none => .ok .unbounded

def FileSettings.resolve (file : FileSettings) (flags : FlagSettings)
    (environment : VariableSettings) : Except SettingsFault Configuration := do
  let maxCycles ←
    chooseLimit flags.maxCycles maxCyclesVariable environment.maxCycles file.maxCycles
      CycleLimits.default.maxCycles
  let maxEdgesPerStep ←
    chooseLimit flags.maxEdgesPerStep maxEdgesPerStepVariable environment.maxEdgesPerStep
      file.maxEdgesPerStep CycleLimits.default.maxEdgesPerStep
  let limits ← (CycleLimits.ofInts maxCycles maxEdgesPerStep).mapError .limits
  return { limits, budget := ← file.budget }

end Coupling
