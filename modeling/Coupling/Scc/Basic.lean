import Coupling.Scc.Walk

/-!
# Strongly connected components

The members of a component ascend, and the components ascend by their smallest members, whatever
the order in which the walk completes them.
-/

namespace Coupling

structure Scc (n : Nat) where
  members : List (Fin n)
  cyclic : Bool
  deriving DecidableEq, Repr

namespace Adjacency

variable {n : Nat}

/-- The component with these members; one member alone is cyclic if it has an arc to itself. -/
def sccOf (arcs : Adjacency n) (component : List (Fin n)) : Scc n where
  members := component.mergeSort
  cyclic :=
    match component with
    | [v] => v ∈ arcs[v]
    | _ => true

/-- Whether the smallest member of the first component is not above that of the second. -/
def firstLe (a b : Scc n) : Bool :=
  match a.members, b.members with
  | v :: _, w :: _ => v ≤ w
  | [], _ => true
  | _ :: _, [] => false

def sccs (arcs : Adjacency n) (budget : WorkBudget) : Except Failure (List (Scc n)) :=
  (Walk.all arcs budget).map fun walk =>
    (walk.components.map arcs.sccOf).mergeSort firstLe

/-- The components in the order in which the walk completes them: none comes before a component
that it reaches. -/
def completed (arcs : Adjacency n) : List (List (Fin n)) :=
  match Walk.all arcs .unbounded with
  | .ok walk => walk.components.reverse
  | .error _ => []

end Adjacency

def Graph.sccs {ν δ : Type} (g : Graph ν δ) (budget : WorkBudget) :
    Except Failure (List (Scc g.size)) :=
  g.arcs.sccs budget

end Coupling
