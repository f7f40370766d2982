import Coupling.Proofs.Cycle.Detection
import Coupling.Proofs.Graph.Stream

/-!
# Graphs that differ in names and descriptors only

Detection looks at endpoints alone: at most the names it shows come from the nodes, and the
descriptors from the edges. A graph with the labels and endpoints of another one is the other one
under other nodes and descriptors (`exists_redressed`), and what is shown of its cycles, the
descriptors apart, is the same (`sketches_of_labels_endpoints`).
-/

namespace Coupling

variable {ν δ ν' δ' : Type}

/-- What is shown of a cycle apart from its descriptors: its text, and for every step how many edges
it has and how many of them are listed. -/
def Cycle.sketch [Label ν] (cycle : Cycle ν δ) : String × List (Nat × Nat) :=
  (cycle.text, cycle.steps.map fun step => (step.totalEdges, step.edges.length))

namespace Graph

/-- The same edges between other nodes and with other descriptors. -/
abbrev redressed (g : Graph ν δ) (nodes : Vector ν' g.size) (nodup : nodes.toList.Nodup)
    (descriptors : Vector δ' g.edgeCount) : Graph ν' δ' where
  size := g.size
  edgeCount := g.edgeCount
  nodes
  edges := Vector.ofFn fun e : Fin g.edgeCount =>
    ⟨g.edges[e].source, g.edges[e].target, descriptors[e]⟩
  outgoing := g.outgoing
  nodup
  outgoing_eq := by
    intro v
    rw [g.outgoing_eq]
    simp

theorem exists_redressed {g : Graph ν δ} {g' : Graph ν' δ'} (size : g.size = g'.size)
    (same : g.endpoints = g'.endpoints) :
    ∃ nodes nodup descriptors, g' = g.redressed nodes nodup descriptors := by
  obtain ⟨n, m, nodes, edges, outgoing, nodup, outgoing_eq⟩ := g
  obtain ⟨n', m', nodes', edges', outgoing', nodup', outgoing_eq'⟩ := g'
  dsimp only at size
  subst size
  have count : m = m' := by
    have lengths := congrArg List.length same
    simpa [endpoints] using lengths
  subst count
  have ends : ∀ e : Fin m,
      edges'[e].source = edges[e].source ∧ edges'[e].target = edges[e].target := by
    intro e
    have at_e := congrArg (fun l => l[e.val]?) same
    simp only [endpoints, List.getElem?_map, Vector.getElem?_toList] at at_e
    simpa [Fin.val_inj, eq_comm] using at_e
  have edges_eq : edges' = Vector.ofFn fun e : Fin m =>
      ⟨edges[e].source, edges[e].target, (edges'.map Edge.descriptor)[e]⟩ := by
    apply Vector.ext
    intro i hi
    obtain ⟨source, target⟩ := ends ⟨i, hi⟩
    rw [getElem_fin, getElem_fin] at source target
    simp [← source, ← target]
  have outgoing_same : outgoing' = outgoing := by
    apply Vector.ext
    intro i hi
    show outgoing'[(⟨i, hi⟩ : Fin n)] = outgoing[(⟨i, hi⟩ : Fin n)]
    rw [outgoing_eq, outgoing_eq']
    simp only [(ends _).1]
  subst outgoing_same
  refine ⟨nodes', nodup', edges'.map Edge.descriptor, ?_⟩
  simp only [redressed, mk.injEq, heq_eq_eq, true_and]
  exact ⟨edges_eq, trivial⟩

section Redressed

variable (g : Graph ν δ) (nodes : Vector ν' g.size) (nodup : nodes.toList.Nodup)
  (descriptors : Vector δ' g.edgeCount)

theorem targets_redressed (v : Fin g.size) :
    (g.redressed nodes nodup descriptors).targets v = g.targets v := by
  apply List.map_congr_left
  intro e _
  simp [redressed]

theorem arcs_redressed : (g.redressed nodes nodup descriptors).arcs = g.arcs := by
  apply Vector.ext
  intro i hi
  simp only [arcs, Vector.getElem_ofFn]
  exact g.targets_redressed nodes nodup descriptors ⟨i, hi⟩

theorem adjacency_redressed :
    (g.redressed nodes nodup descriptors).adjacency = g.adjacency := by
  apply Vector.ext
  intro i hi
  simp only [adjacency, Vector.getElem_ofFn, successors]
  rw [g.targets_redressed nodes nodup descriptors ⟨i, hi⟩]

theorem edgesBetween_redressed (v w : Fin g.size) :
    (g.redressed nodes nodup descriptors).edgesBetween v w = g.edgesBetween v w := by
  apply List.filter_congr
  intro e _
  simp [redressed]

/-- Detection goes the same way through the redressed graph and shows other cycles only for the
circuits it finds. -/
theorem cycles_redressed (limits : CycleLimits) (budget : WorkBudget) :
    (g.redressed nodes nodup descriptors).cycles limits budget =
      (g.sccs budget).map fun sccs => (g.circuits sccs limits.maxCycles).map
        ((g.redressed nodes nodup descriptors).cycleOf limits.maxEdgesPerStep) := by
  have sccs : (g.redressed nodes nodup descriptors).sccs budget = g.sccs budget := by
    rw [Graph.sccs, arcs_redressed]
    rfl
  have circuits : ∀ sccs cap, (g.redressed nodes nodup descriptors).circuits sccs cap =
      g.circuits sccs cap := by
    intro sccs cap
    rw [Graph.circuits, adjacency_redressed]
    rfl
  rw [cycles, sccs]
  simp only [circuits]

variable [Label ν] [Label ν']

theorem sketch_redressed (texts : ∀ v : Fin g.size, Label.text nodes[v] = Label.text (g.node v))
    (cap : Nat) (c : List (Fin g.size)) :
    ((g.redressed nodes nodup descriptors).cycleOf cap c).sketch = (g.cycleOf cap c).sketch := by
  have shown : (c.map (g.redressed nodes nodup descriptors).node).map Label.text =
      (c.map g.node).map Label.text := by
    rw [List.map_map, List.map_map]
    apply List.map_congr_left
    intro v _
    exact texts v
  have text : ((g.redressed nodes nodup descriptors).cycleOf cap c).text =
      (g.cycleOf cap c).text := by
    simp only [Cycle.text, nodes_cycleOf, List.map_append, List.map_take, shown]
  rw [Cycle.sketch, Cycle.sketch, text]
  simp [cycleOf, cycleStep, edgesBetween_redressed]

end Redressed

variable [Label ν] [Label ν']

/-- What fails on the one graph fails in the same way on the other, and what is found on the one is
found on the other. -/
theorem sketches_of_labels_endpoints {g : Graph ν δ} {g' : Graph ν' δ'}
    (labels : g.labels = g'.labels) (endpoints : g.endpoints = g'.endpoints)
    (limits : CycleLimits) (budget : WorkBudget) :
    (g.cycles limits budget).map (Capped.map Cycle.sketch) =
      (g'.cycles limits budget).map (Capped.map Cycle.sketch) := by
  have size : g.size = g'.size := by
    have lengths := congrArg List.length labels
    simpa [Graph.labels] using lengths
  obtain ⟨nodes, nodup, descriptors, rfl⟩ := exists_redressed size endpoints
  have texts : ∀ v : Fin g.size, Label.text nodes[v] = Label.text (g.node v) := by
    intro v
    have at_v := congrArg (fun l => l[v.val]?) labels
    simpa [Graph.labels, node, eq_comm] using at_v
  rw [cycles_redressed, cycles]
  cases g.sccs budget with
  | error e => rfl
  | ok sccs =>
    simp only [Except.map, Capped.map, List.map_map, Except.ok.injEq, Capped.mk.injEq, and_true]
    apply List.map_congr_left
    intro c _
    exact (g.sketch_redressed nodes nodup descriptors texts _ c).symm

end Graph

end Coupling
