/-!
# What can go wrong in an analysis

A failure is its cause. The stable code that tools branch on, the message and the advice for the
operator are all functions of the cause.
-/

namespace Coupling

/-- What makes a graph or a set of components unusable. -/
inductive Defect where
  /-- The endpoint is kept as it is quoted in the message. -/
  | unknownNode (edge : Nat) (endpoint : String)
  | blankComponent (position : Nat)
  | repeatedComponent (id : String)
  | unknownComponent (id : String)
  deriving DecidableEq, Repr

/-- The numbers an analysis is configured by. -/
inductive Setting where
  | maxCycles
  | maxEdgesPerStep
  | maxWork
  deriving DecidableEq, Repr

inductive Failure where
  | unusable (defect : Defect)
  | outOfWork (budget : Nat)
  | notPositive (setting : Setting) (value : Int)
  deriving DecidableEq, Repr

inductive FailureKind where
  | unknownNode
  | blankComponent
  | repeatedComponent
  | unknownComponent
  | outOfWork
  | notPositive
  deriving DecidableEq, Repr

def FailureKind.code : FailureKind → String
  | unknownNode => "E1001"
  | blankComponent => "E1002"
  | repeatedComponent => "E1003"
  | unknownComponent => "E1004"
  | outOfWork => "E2001"
  | notPositive => "E3001"

def FailureKind.summary : FailureKind → String
  | unknownNode => "Edge references a node outside the node set"
  | blankComponent => "Component identifier is empty"
  | repeatedComponent => "Component identifier is not unique"
  | unknownComponent => "Dependency references an unknown component"
  | outOfWork => "SCC decomposition exceeded its work budget"
  | notPositive => "Limit must be a positive integer"

def FailureKind.hint : FailureKind → String
  | unknownNode => "Add both endpoints of every edge to the node set."
  | blankComponent => "Give every component a distinct, non-empty identifier."
  | repeatedComponent => "Give every component a distinct, non-empty identifier."
  | unknownComponent => "Declare the component before referencing it in a dependency."
  | outOfWork => "Raise the SCC work budget or analyse a smaller slice of the codebase."
  | notPositive => "Use a value of at least 1."

def Defect.kind : Defect → FailureKind
  | unknownNode .. => .unknownNode
  | blankComponent _ => .blankComponent
  | repeatedComponent _ => .repeatedComponent
  | unknownComponent _ => .unknownComponent

def Failure.kind : Failure → FailureKind
  | unusable defect => defect.kind
  | outOfWork _ => .outOfWork
  | notPositive .. => .notPositive

def Setting.key : Setting → String
  | maxCycles => "max_cycles"
  | maxEdgesPerStep => "max_edges_per_step"
  | maxWork => "max_work"

def Defect.message : Defect → String
  | unknownNode edge endpoint => s!"edge #{edge} references unknown node {endpoint}"
  | blankComponent position => s!"component #{position} has an empty identifier"
  | repeatedComponent id => s!"component identifier '{id}' is used more than once"
  | unknownComponent id => s!"dependency references unknown component '{id}'"

def Failure.message : Failure → String
  | unusable defect => s!"invalid graph: {defect.message}"
  | outOfWork budget => s!"SCC decomposition exhausted its budget of {budget} work units"
  | notPositive setting value =>
    s!"invalid configuration for '{setting.key}': {value} is not positive"

/-- The message of a defect stands alone behind that of the failure. -/
def Failure.cause? : Failure → Option String
  | unusable defect => some defect.message
  | outOfWork _ => none
  | notPositive .. => none

end Coupling
