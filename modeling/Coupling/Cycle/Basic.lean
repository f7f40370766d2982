import Coupling.Circuit.Enumeration
import Coupling.Scc.Basic

/-!
# Dependency cycles of a graph

Cycles are found inside the cyclic strongly connected components, taken in ascending order of
their smallest nodes. The cap on cycles only ends the list early, and the cap on edges only hides
descriptors: every step keeps the true number of its parallel edges.
-/

namespace Coupling

structure CycleStep (ν δ : Type) where
  source : ν
  target : ν
  edges : List δ
  totalEdges : Nat
  deriving DecidableEq, Repr

/-- The last step leads back to the source of the first. -/
structure Cycle (ν δ : Type) where
  steps : List (CycleStep ν δ)
  deriving DecidableEq, Repr

variable {ν δ : Type}

/-- Edges that exist but are not listed. -/
def CycleStep.suppressed (step : CycleStep ν δ) : Nat := step.totalEdges - step.edges.length

namespace Cycle

def nodes (cycle : Cycle ν δ) : List ν := cycle.steps.map CycleStep.source

def length (cycle : Cycle ν δ) : Nat := cycle.steps.length

def isSelfLoop (cycle : Cycle ν δ) : Bool := cycle.length = 1

/-- The nodes in the order of the cycle, the first one again at the end. -/
def text [Label ν] (cycle : Cycle ν δ) : String :=
  " -> ".intercalate ((cycle.nodes ++ cycle.nodes.take 1).map Label.text)

end Cycle

/-- The consecutive pairs of a closed walk, the last leading back to the first node. -/
def closedPairs {α : Type} (walk : List α) : List (α × α) :=
  walk.zip (walk.drop 1 ++ walk.take 1)

namespace Graph

def cycleStep (g : Graph ν δ) (maxEdges : Nat) (v w : Fin g.size) : CycleStep ν δ :=
  let edges := g.edgesBetween v w
  { source := g.node v
    target := g.node w
    edges := (edges.take maxEdges).map fun e => g.edges[e].descriptor
    totalEdges := edges.length }

def cycleOf (g : Graph ν δ) (maxEdges : Nat) (circuit : List (Fin g.size)) : Cycle ν δ where
  steps := (closedPairs circuit).map fun (v, w) => g.cycleStep maxEdges v w

def circuits (g : Graph ν δ) (sccs : List (Scc g.size)) (cap : Nat) :
    Capped (List (Fin g.size)) :=
  let adj := g.adjacency
  Capped.gather (fun scc => adj.circuitsAmong scc.members) (sccs.filter Scc.cyclic) cap

def cycles (g : Graph ν δ) (limits : CycleLimits) (budget : WorkBudget) :
    Except Failure (Capped (Cycle ν δ)) :=
  (g.sccs budget).map fun sccs =>
    (g.circuits sccs limits.maxCycles).map (g.cycleOf limits.maxEdgesPerStep)

end Graph

end Coupling
