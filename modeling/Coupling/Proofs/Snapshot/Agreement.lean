import Coupling.Proofs.Component.Identifiers
import Coupling.Proofs.Cycle.Detection
import Coupling.Proofs.Metric.Closure
import Coupling.Proofs.Scc.Run
import Coupling.Proofs.Snapshot.Graphs

/-!
# Dependency counts and reported cycles

A component reaches whatever the components that it depends on reach, and as little as one of them
only if it is reached from there, that is, if some cycle takes the step between the two. So the
counts of one graph of a snapshot tell which steps are on the cycles of the other.
-/

namespace Coupling

open Relation

section DependsOn

variable {ε ρ : Type} [Quantity ρ] {cs : Components ε}

/-- The count of a component is found by its identifier. -/
theorem dependsOn?_lakosAlong (g : ComponentGraph cs) (order : List (List (Fin cs.size)))
    (i : Fin cs.size) :
    (g.lakosAlong order : LakosMetrics ρ).dependsOn? (cs.get i).id =
      some (g.successors.reachCounts order)[i] := by
  have position : cs.position? (cs.get i).id = some i := Components.position?_eq_some_iff.mpr rfl
  have table := @tabulates_lakosAlong ε ρ _ cs g order
  obtain ⟨entry, here, found⟩ := table.found _ i position
  rw [perComponent_lakosAlong] at here
  have entry_eq : entry = ⟨(cs.get i).id, (g.successors.reachCounts order)[i]⟩ := by
    simpa using here.symm
  rw [found, entry_eq]

end DependsOn

namespace Snapshot

variable {ρ : Type} [Quantity ρ] {s : Snapshot} {cs : Components Element}

/-- Along a dependency the count does not grow, and it stays the same exactly when the dependency
is a step of a reported cycle. -/
theorem dependsOn_agrees (accepted : s.componentSet = .ok cs) :
    ∃ g G, s.componentGraph cs = .ok g ∧ s.cycleGraph = .ok G ∧
      ∀ order, g.successors.Condensation order → ∀ i j, j ∈ g.successors[i] →
        ∃ a b, (g.lakosAlong order : LakosMetrics ρ).dependsOn? (cs.get i).id = some a ∧
          (g.lakosAlong order : LakosMetrics ρ).dependsOn? (cs.get j).id = some b ∧
          b ≤ a ∧
          ∀ limits, ∃ result, G.cycles limits .unbounded = .ok result ∧
            (result.truncated = false →
              (a = b ↔ ∃ cycle ∈ result.items, ∃ step ∈ cycle.steps,
                step.source = (cs.get i).id ∧ step.target = (cs.get j).id)) := by
  obtain ⟨g, G, hg, hG, same⟩ := exists_graphs accepted
  refine ⟨g, G, hg, hG, ?_⟩
  intro order condensation i j arc
  obtain ⟨le, eq_iff⟩ := Adjacency.reachCounts_of_arc condensation arc
  refine ⟨_, _, dependsOn?_lakosAlong g order i, dependsOn?_lakosAlong g order j, le, ?_⟩
  intro limits
  obtain ⟨result, detected, steps⟩ := G.exists_steps limits
  refine ⟨result, detected, ?_⟩
  intro whole
  have arc' := (same.arcs i j).mp arc
  rw [eq_iff, same.reaches_iff, ← same.names i, ← same.names j, steps whole]
  constructor
  · intro back
    exact ⟨arc', back⟩
  · intro h
    obtain ⟨_, back⟩ := h
    exact back

/-- Two components that depend on each other. -/
def twoWay : Snapshot where
  components := [⟨"a", [{ name := "x" }]⟩, ⟨"b", [{ name := "y" }]⟩]
  dependencies := [{ origin := "x", target := "y" }, { origin := "y", target := "x" }]

theorem exists_componentSet_twoWay : ∃ cs, twoWay.componentSet = .ok cs := by
  apply Components.exists_ofList
  · decide
  · decide

theorem dependsOn_agrees_twoWay :
    ∃ cs g G, twoWay.componentSet = .ok cs ∧ twoWay.componentGraph cs = .ok g ∧
      twoWay.cycleGraph = .ok G ∧ ∃ i j, (cs.get i).id = "a" ∧ (cs.get j).id = "b" ∧
        j ∈ g.successors[i] ∧
        ∃ a b, (g.lakos : LakosMetrics Float).dependsOn? (cs.get i).id = some a ∧
          (g.lakos : LakosMetrics Float).dependsOn? (cs.get j).id = some b ∧
          b ≤ a ∧
          ∀ limits, ∃ result, G.cycles limits .unbounded = .ok result ∧
            (result.truncated = false →
              (a = b ↔ ∃ cycle ∈ result.items, ∃ step ∈ cycle.steps,
                step.source = (cs.get i).id ∧ step.target = (cs.get j).id)) := by
  obtain ⟨cs, accepted⟩ := exists_componentSet_twoWay
  obtain ⟨g, G, hg, hG, agree⟩ := @dependsOn_agrees Float _ _ _ accepted
  obtain ⟨g', G', hg', hG', derived⟩ := exists_graphs accepted
  cases hg.symm.trans hg'
  cases hG.symm.trans hG'
  obtain ⟨i, hi⟩ := exists_id_of_listed accepted (show ("x", "a") ∈ twoWay.listings by decide)
  obtain ⟨j, hj⟩ := exists_id_of_listed accepted (show ("y", "b") ∈ twoWay.listings by decide)
  have arc : j ∈ g.successors[i] := by
    rw [derived.successors, hi, hj]
    refine ⟨{ origin := "x", target := "y" }, mem_crossings.mpr ?_⟩
    decide
  refine ⟨cs, g, G, accepted, hg, hG, i, j, hi, hj, arc, ?_⟩
  exact agree g.successors.completed g.successors.condensation_completed i j arc

end Snapshot

end Coupling
