import Coupling.Proofs.Graph.Construction

/-!
# Parallel edges

The edges of a graph between two nodes are those that are listed between their names, each as often
as it is listed and all in the order of the list.
-/

namespace Coupling

variable {ν δ : Type}

/-- The descriptors of the edges that are listed from `a` to `b`. -/
def descriptorsBetween [DecidableEq ν] (edges : List (ν × ν × δ)) (a b : ν) : List δ :=
  (edges.filter fun edge => edge.1 = a && edge.2.1 = b).map fun edge => edge.2.2

namespace Graph

variable (g : Graph ν δ)

theorem edgesBetween_eq (v w : Fin g.size) :
    g.edgesBetween v w = (List.finRange g.edgeCount).filter fun e =>
      g.edges[e].source = v && g.edges[e].target = w := by
  rw [edgesBetween, outgoing_eq, List.filter_filter]
  apply List.filter_congr
  intro e _
  exact Bool.and_comm _ _

theorem map_edgesBetween [DecidableEq ν] (v w : Fin g.size) :
    (g.edgesBetween v w).map (fun e => g.edges[e].descriptor) =
      descriptorsBetween (g.edges.toList.map g.listed) (g.node v) (g.node w) := by
  rw [edgesBetween_eq, descriptorsBetween, toList_eq_map_finRange, List.map_map, List.filter_map,
    List.map_map]
  have same : ∀ e ∈ List.finRange g.edgeCount,
      (decide (g.edges[e].source = v) && decide (g.edges[e].target = w)) =
        (decide (g.node g.edges[e].source = g.node v) &&
          decide (g.node g.edges[e].target = g.node w)) := by
    intro e _
    simp only [g.node_injective.eq_iff]
  rw [List.filter_congr same]
  rfl

theorem length_edgesBetween [DecidableEq ν] (v w : Fin g.size) :
    (g.edgesBetween v w).length =
      (descriptorsBetween (g.edges.toList.map g.listed) (g.node v) (g.node w)).length := by
  rw [← map_edgesBetween, List.length_map]

theorem edgesBetween_ne_nil (v w : Fin g.size) : g.edgesBetween v w ≠ [] ↔ g.Arc v w := by
  rw [edgesBetween_eq, ne_eq, List.filter_eq_nil_iff]
  simp [Arc]

end Graph

end Coupling
