import Coupling.Circuit.Blocking
import Coupling.Collection.Capped

/-!
# Enumeration of elementary circuits

`Search.run` repeats the step until the search ends; the path being simple is what makes it end.
Every start node closes the circuits in which it is the smallest node, and start nodes are tried
in ascending order.
-/

namespace Coupling

variable {k : Nat}

def Search.run (r : Region k) (s : Search k) (sound : s.Sound r) : Capped (List (Fin k)) :=
  match h : s.step r with
  | .more t => run r t (sound.step h).sound
  | .full found => ⟨found.reverse, true⟩
  | .done found => ⟨found.reverse, false⟩
  termination_by s.weight r
  decreasing_by exact (sound.step h).weight

/-- The circuits through the start node, in the order in which the search closes them. -/
def Region.circuits (r : Region k) (cap : Nat) : Capped (List (Fin k)) :=
  Search.run r (Search.start r cap) (Search.Sound.start r cap)

namespace Adjacency

def circuits (adj : Adjacency k) (cap : Nat) : Capped (List (Fin k)) :=
  let back := adj.transpose
  Capped.gather (fun start => (Region.ofStart adj back start).circuits) (List.finRange k) cap

/-- The circuits that stay among `members`. -/
def circuitsAmong (adj : Adjacency k) (members : List (Fin k)) (cap : Nat) :
    Capped (List (Fin k)) :=
  let members := IndexedSet.ofList members
  ((adj.induced members).circuits cap).map fun circuit => circuit.map members.get

end Adjacency

end Coupling
