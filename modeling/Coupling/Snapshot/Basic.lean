import Coupling.Component.Graph

/-!
# Snapshots of an architecture

A snapshot lists components with their elements, and dependencies between elements by name. A
dependency crosses from one component to another if its origin is listed in the one and its target
in the other; an element listed under several components counts for each of them.
-/

namespace Coupling

structure Element where
  name : String
  isVisible : Bool := false
  isAbstract : Bool := false
  deriving DecidableEq, Hashable, Repr

structure ComponentRecord where
  id : String
  elements : List Element := []
  deriving DecidableEq, Repr

structure Dependency where
  origin : String
  target : String
  description : String := ""
  deriving DecidableEq, Repr

structure Snapshot where
  components : List ComponentRecord
  dependencies : List Dependency := []
  deriving DecidableEq, Repr

def Dependency.text (d : Dependency) : String :=
  if d.description.isEmpty then s!"{d.origin} -> {d.target}"
  else s!"{d.origin} -> {d.target} ({d.description})"

namespace Snapshot

/-- The name of every listed element with the identifier it is listed under. -/
def listings (s : Snapshot) : List (String × String) :=
  s.components.flatMap fun c => c.elements.map fun x => (x.name, c.id)

/-- The ways in which a dependency crosses, given the identifiers that each name is listed under.
An identifier counts once for a name. -/
def crossingsOf (owners : String → List String) (d : Dependency) :
    List (String × String × Dependency) :=
  (owners d.origin).eraseDups.flatMap fun a =>
    ((owners d.target).eraseDups.filter (a ≠ ·)).map fun b => (a, b, d)

def crossings (s : Snapshot) : List (String × String × Dependency) :=
  let owners := keyed s.listings
  s.dependencies.flatMap (crossingsOf fun name => owners.getD name [])

def componentSet (s : Snapshot) : Except Failure (Components Element) :=
  Components.ofList (s.components.map fun c => Component.ofList c.id c.elements)

def componentGraph (s : Snapshot) (cs : Components Element) : Except Failure (ComponentGraph cs) :=
  ComponentGraph.ofIds cs (s.crossings.map fun (a, b, _) => (a, b))

/-- The multigraph of components in which every crossing is an edge. -/
def cycleGraph (s : Snapshot) : Except Failure (Graph String Dependency) := do
  let cs ← s.componentSet
  Graph.ofLists (cs.toList.map Component.id) s.crossings

end Snapshot

end Coupling
