import Coupling.Failure

/-!
# Limits

`CycleLimits` bound how much is reported, never whether a cycle is found. A `WorkBudget` bounds
the work of the decomposition into strongly connected components.
-/

namespace Coupling

structure CycleLimits where
  maxCycles : Nat
  maxEdgesPerStep : Nat
  maxCycles_pos : 0 < maxCycles := by decide
  maxEdgesPerStep_pos : 0 < maxEdgesPerStep := by decide
  deriving DecidableEq, Repr

def CycleLimits.default : CycleLimits where
  maxCycles := 100
  maxEdgesPerStep := 20

/-- The number of cycles is checked before the number of edges. -/
def CycleLimits.ofInts (maxCycles maxEdgesPerStep : Int) : Except Failure CycleLimits :=
  if hc : 0 < maxCycles then
    if he : 0 < maxEdgesPerStep then
      .ok ⟨maxCycles.toNat, maxEdgesPerStep.toNat, by omega, by omega⟩
    else .error (.notPositive .maxEdgesPerStep maxEdgesPerStep)
  else .error (.notPositive .maxCycles maxCycles)

/-- One unit of work is the visit of a node or the following of an edge. -/
structure WorkBudget where
  limit : Option Nat
  deriving DecidableEq, Repr

def WorkBudget.unbounded : WorkBudget := ⟨none⟩

def WorkBudget.default : WorkBudget := .unbounded

def WorkBudget.bounded (maxWork : Int) : Except Failure WorkBudget :=
  if 0 < maxWork then .ok ⟨some maxWork.toNat⟩ else .error (.notPositive .maxWork maxWork)

/-- Spends one unit on top of those already spent. -/
def WorkBudget.spend (budget : WorkBudget) (spent : Nat) : Except Failure Nat :=
  match budget.limit with
  | none => .ok (spent + 1)
  | some limit => if spent + 1 ≤ limit then .ok (spent + 1) else .error (.outOfWork limit)

@[simp] theorem WorkBudget.spend_unbounded (spent : Nat) :
    unbounded.spend spent = .ok (spent + 1) := rfl

end Coupling
