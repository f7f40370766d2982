import Coupling.Component.Graph
import Coupling.Metric.Quantity
import Coupling.Scc.Basic

/-!
# Cumulative component dependency

A component depends on every component that it reaches, itself included. The reachable sets are
stored for one strongly connected component after the other, in an order in which whatever a
component reaches comes before it, so that each set is its own members with the sets stored for
the components its arcs lead to.
-/

namespace Coupling

/-- A pass that lists the strongly connected components of any graph, which it is taken to do for
graphs of any size and depth. Nothing is assumed of the order of the list; the counts below mean
something where no component comes before one that it reaches. -/
abbrev CondensationPass : Type := (n : Nat) → Adjacency n → List (List (Fin n))

namespace Adjacency

variable {n : Nat}

def place (i : Nat) (places : Vector Nat n) (v : Fin n) : Vector Nat n := places.set v i v.isLt

/-- For every node the place of its component in the order. -/
def places (order : List (List (Fin n))) : Vector Nat n :=
  order.zipIdx.foldl (fun places (component, i) => component.foldl (place i) places)
    (Vector.replicate n 0)

/-- Adds what the arc to `w` leads to, unless it stays inside component number `here`. -/
def absorb (places : Vector Nat n) (stored : Array (BitVec n)) (here : Nat) (set : BitVec n)
    (w : Fin n) : BitVec n :=
  if places[w] = here then set else set ||| stored.getD places[w] 0

/-- The set reached from component number `stored.size`, given those of the components before. -/
def reachedFrom (adj : Adjacency n) (places : Vector Nat n) (stored : Array (BitVec n))
    (component : List (Fin n)) : BitVec n :=
  component.foldl
    (fun set v => adj[v].foldl (absorb places stored stored.size) (set ||| BitVec.twoPow n v)) 0

def reachedSets (adj : Adjacency n) (order : List (List (Fin n))) : Array (BitVec n) :=
  let places := places order
  order.foldl (fun stored component => stored.push (adj.reachedFrom places stored component)) #[]

def count (set : BitVec n) : Nat := (List.finRange n).countP fun v : Fin n => set.getLsbD v

/-- For every node the number of nodes that it reaches. -/
def reachCounts (adj : Adjacency n) (order : List (List (Fin n))) : Vector Nat n :=
  let places := places order
  let counts := (adj.reachedSets order).map count
  Vector.ofFn fun v => counts.getD places[v] 0

end Adjacency

structure DependsOn where
  component : String
  count : Nat
  deriving DecidableEq, Repr

structure LakosMetrics (ρ : Type) where
  cumulative : Nat
  average : ρ
  relativeAverage : ρ
  normalized : ρ
  perComponent : List DependsOn

/-- The cumulative dependency of a balanced binary tree of `n` components: laid out level by level,
the component numbered `i` has itself and one ancestor on each level above it. A word of 64 bits
holds the sum up to a tree of some `3 * 10 ^ 17` components. -/
def balancedTreeDependency (n : Nat) : Nat :=
  n.fold (fun i _ sum => sum + ((i + 1).log2 + 1)) 0

namespace ComponentGraph

variable {ε ρ : Type} [Quantity ρ] {cs : Components ε}

/-- The metrics read off the strongly connected components in the given order. Without components
every aggregate is zero. -/
def lakosAlong (g : ComponentGraph cs) (order : List (List (Fin cs.size))) : LakosMetrics ρ :=
  let dependsOn := g.successors.reachCounts order
  let cumulative := total dependsOn.toList
  let perComponent := (List.finRange cs.size).map fun i => ⟨g.identifier i, dependsOn[i]⟩
  if cs.size = 0 then
    { cumulative
      average := Quantity.ofNat 0
      relativeAverage := Quantity.ofNat 0
      normalized := Quantity.ofNat 0
      perComponent }
  else
    let size : ρ := Quantity.ofNat cs.size
    let average := Quantity.ofNat cumulative / size
    { cumulative
      average
      relativeAverage := average / size
      normalized :=
        Quantity.ofNat cumulative / Quantity.ofNat (balancedTreeDependency cs.size)
      perComponent }

/-- The metrics along one such order, that in which the walk of `Walk.all` completes the
components. -/
def lakos (g : ComponentGraph cs) : LakosMetrics ρ := g.lakosAlong g.successors.completed

end ComponentGraph

def LakosMetrics.dependsOn? {ρ : Type} (m : LakosMetrics ρ) (id : String) : Option Nat :=
  (m.perComponent.find? (·.component = id)).map DependsOn.count

end Coupling
