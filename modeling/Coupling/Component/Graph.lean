import Coupling.Collection.Keyed
import Coupling.Collection.Total
import Coupling.Component.Basic
import Coupling.Graph.Adjacency

/-!
# Dependencies between components

An edge runs between two distinct components and is kept once. Both directions are stored, each
in ascending order, and `link` keeps them in step.
-/

namespace Coupling

structure ComponentGraph {ε : Type} (cs : Components ε) where
  successors : Adjacency cs.size
  predecessors : Adjacency cs.size

/-- Puts a number in its place in an ascending list, unless it is there already. -/
def insertAscending {n : Nat} (v : Fin n) : List (Fin n) → List (Fin n)
  | [] => [v]
  | w :: rest =>
    if v < w then v :: w :: rest
    else if v = w then w :: rest
    else w :: insertAscending v rest

theorem mem_insertAscending {n : Nat} {v w : Fin n} {l : List (Fin n)} :
    w ∈ insertAscending v l ↔ w = v ∨ w ∈ l := by
  induction l with
  | nil => simp [insertAscending]
  | cons u l ih =>
    unfold insertAscending
    split
    · simp
    · split
      next h => simp [h]
      next => simp [ih, or_left_comm]

namespace ComponentGraph

variable {ε : Type} {cs : Components ε}

def empty (cs : Components ε) : ComponentGraph cs where
  successors := Vector.replicate cs.size []
  predecessors := Vector.replicate cs.size []

def link (g : ComponentGraph cs) (i j : Fin cs.size) : ComponentGraph cs :=
  if i = j then g
  else
    { successors := g.successors.set i (insertAscending j g.successors[i]) i.isLt
      predecessors := g.predecessors.set j (insertAscending i g.predecessors[j]) j.isLt }

def linkAll (g : ComponentGraph cs) (pairs : List (Fin cs.size × Fin cs.size)) :
    ComponentGraph cs :=
  pairs.foldl (fun g (i, j) => g.link i j) g

def resolve (cs : Components ε) (id : String) : Except Failure (Fin cs.size) :=
  match cs.position? id with
  | some i => .ok i
  | none => .error (.unusable (.unknownComponent id))

/-- The graph of edges given by identifiers, the source of an edge being looked up first. -/
def ofIds (cs : Components ε) (edges : List (String × String)) :
    Except Failure (ComponentGraph cs) :=
  edges.foldlM (fun g (a, b) => do return g.link (← resolve cs a) (← resolve cs b)) (empty cs)

/-- Every element with the component that lists it, in component order. -/
def ownerships (cs : Components ε) : List (ε × Fin cs.size) :=
  (List.finRange cs.size).flatMap fun i => (cs.get i).elements.map fun x => (x, i)

/-- The graph of dependencies between elements. An element counts for every component that lists
it, and a dependency with an end in no component is ignored. -/
def ofElements [DecidableEq ε] [Hashable ε] (cs : Components ε) (dependencies : List (ε × ε)) :
    ComponentGraph cs :=
  let owners := keyed (ownerships cs)
  (empty cs).linkAll (dependencies.flatMap fun (x, y) =>
    (owners.getD x []).flatMap fun i => (owners.getD y []).map fun j => (i, j))

def edgeCount (g : ComponentGraph cs) : Nat := total (g.successors.toList.map List.length)

def identifier (_ : ComponentGraph cs) (i : Fin cs.size) : String := (cs.get i).id

def dependenciesOf (g : ComponentGraph cs) (id : String) : Option (List String) :=
  (cs.position? id).map fun i => g.successors[i].map g.identifier

def dependentsOf (g : ComponentGraph cs) (id : String) : Option (List String) :=
  (cs.position? id).map fun i => g.predecessors[i].map g.identifier

end ComponentGraph

end Coupling
