import Coupling.Proofs.Cycle.Detection
import Coupling.Proofs.Graph.Redrawing

/-!
# What detection depends on

The walk that completes the components follows every edge, so it goes differently through graphs
that differ in parallel edges. What comes out is settled by reachability all the same
(`SccPartition.unique`), and the search for circuits looks at successors only. Detection therefore
answers alike on graphs with the same successors, however their edges are drawn.
-/

namespace Coupling

open Relation

def Scc.indices {n : Nat} (s : Scc n) : List Nat × Bool := (s.members.map Fin.val, s.cyclic)

theorem Adjacency.ext_val {n : Nat} {adj adj' : Adjacency n}
    (same : ∀ v : Fin n, adj[v].map Fin.val = adj'[v].map Fin.val) : adj = adj' := by
  apply Vector.ext
  intro i hi
  exact List.map_injective_iff.mpr Fin.val_injective (same ⟨i, hi⟩)

/-- Partitions and listings of equal adjacencies are equal, also if only a proof says that there are
as many nodes. -/
theorem Adjacency.same_listing {n m : Nat} (size : n = m) {adj : Adjacency n} {adj' : Adjacency m}
    (same : ∀ v : Fin n, adj[v].map Fin.val = adj'[v.cast size].map Fin.val)
    {sccs : List (Scc n)} {sccs' : List (Scc m)} (h : SccPartition adj.Arc sccs)
    (h' : SccPartition adj'.Arc sccs') :
    sccs.map Scc.indices = sccs'.map Scc.indices ∧
      ((sccs'.filter Scc.cyclic).flatMap fun s => adj'.listingAmong s.members) =
        ((sccs.filter Scc.cyclic).flatMap fun s => adj.listingAmong s.members).map
          (List.map (Fin.cast size)) := by
  -- with one variable for both sizes the two adjacencies have one type and are equal
  subst size
  have eq : adj = adj' := ext_val same
  subst eq
  have sccs_eq := h.unique h'
  subst sccs_eq
  simp

namespace Graph

variable {ν δ ν' δ' : Type} {g : Graph ν δ} {g' : Graph ν' δ'}

theorem SameSuccessors.same_listing (same : g.SameSuccessors g') {sccs : List (Scc g.size)}
    {sccs' : List (Scc g'.size)} (h : SccPartition g.Arc sccs) (h' : SccPartition g'.Arc sccs') :
    sccs.map Scc.indices = sccs'.map Scc.indices ∧
      g'.listing sccs' = (g.listing sccs).map (List.map (Fin.cast same.size)) := by
  apply Adjacency.same_listing same.size
  · intro v
    rw [getElem_adjacency, getElem_adjacency]
    exact same.successors v
  · rw [arc_adjacency]
    exact h
  · rw [arc_adjacency]
    exact h'

/-- The same components and the same cycles, node for node by their positions. -/
structure AnswersAlike (g : Graph ν δ) (g' : Graph ν' δ') (size : g.size = g'.size) : Prop where
  sccs : ∃ sccs sccs', g.sccs .unbounded = .ok sccs ∧ g'.sccs .unbounded = .ok sccs' ∧
    sccs.map Scc.indices = sccs'.map Scc.indices
  cycles : ∀ limits, ∃ (result : Capped (Cycle ν δ)) (result' : Capped (Cycle ν' δ'))
      (found : List (List (Fin g.size))),
    g.cycles limits .unbounded = .ok result ∧ g'.cycles limits .unbounded = .ok result' ∧
      result.items.map Cycle.nodes = found.map (fun c => c.map g.node) ∧
      result'.items.map Cycle.nodes = found.map (fun c => c.map fun v => g'.node (v.cast size)) ∧
      result.truncated = result'.truncated

theorem SameSuccessors.answersAlike (same : g.SameSuccessors g') : g.AnswersAlike g' same.size := by
  obtain ⟨sccs, result⟩ := g.exists_sccs
  obtain ⟨sccs', result'⟩ := g'.exists_sccs
  obtain ⟨indices, listing⟩ := same.same_listing (g.sccs_eq_ok result) (g'.sccs_eq_ok result')
  refine ⟨⟨sccs, sccs', result, result', indices⟩, ?_⟩
  intro limits
  refine ⟨_, _, (g.listing sccs).take limits.maxCycles, g.cycles_of_sccs result limits,
    g'.cycles_of_sccs result' limits, g.map_nodes_cycleOf _ _, ?_, ?_⟩
  · rw [Capped.items_map, map_nodes_cycleOf, Capped.items_cut, listing, ← List.map_take,
      List.map_map]
    apply List.map_congr_left
    intro c _
    exact List.map_map
  · simp only [Capped.truncated_map, Capped.truncated_cut, listing, List.length_map]

/-- Detection answers alike on graphs with the same successors. Redrawing the edges of a graph
leaves it with the same successors, and so with the same cycles in the same order. -/
theorem cycles_of_successors {ν δ ν' δ' : Type} :
    (∀ (g : Graph ν δ) (g' : Graph ν' δ'), g.SameSuccessors g' →
      ∃ size, g.AnswersAlike g' size) ∧
    ∀ [DecidableEq ν] [Hashable ν] [Label ν] (nodes : List ν) (edges : List (ν × ν × δ))
        (edges' : List (ν × ν × δ')) (g : Graph ν δ),
      ofLists nodes edges = .ok g → Redrawn (edges.map ends) (edges'.map ends) →
        ∃ g' : Graph ν δ', ofLists nodes edges' = .ok g' ∧ g.SameSuccessors g' ∧
          ∀ limits, ∃ result result',
            g.cycles limits .unbounded = .ok result ∧ g'.cycles limits .unbounded = .ok result' ∧
              result.items.map Cycle.nodes = result'.items.map Cycle.nodes ∧
              result.truncated = result'.truncated := by
  constructor
  · intro g g' same
    exact ⟨same.size, same.answersAlike⟩
  · intro _ _ _ nodes edges edges' g built redrawn
    obtain ⟨g', built'⟩ := exists_redrawn built redrawn
    obtain ⟨same, names⟩ := sameSuccessors_of_redrawn built built' redrawn
    refine ⟨g', built', same, ?_⟩
    intro limits
    obtain ⟨result, result', found, detected, detected', nodes_eq, nodes_eq', truncated⟩ :=
      same.answersAlike.cycles limits
    refine ⟨result, result', detected, detected', ?_, truncated⟩
    simp only [nodes_eq, nodes_eq', node_cast names same.size]

def tangled : List (String × String × Nat) := [("a", "b", 0), ("b", "a", 1), ("a", "b", 2)]

def smoothed : List (String × String × String) := [("b", "a", "calls"), ("a", "b", "extends")]

/-- The second edge from `a` goes, and the first one moves behind that from `b`. -/
theorem redrawn_smoothed : Redrawn (tangled.map ends) (smoothed.map ends) := by
  have copy : Redraw ([("a", "b"), ("b", "a")] ++ []) ([("a", "b"), ("b", "a")] ++ [("a", "b")]) :=
    .copy List.mem_cons_self
  have move : Redraw [("a", "b"), ("b", "a")] [("b", "a"), ("a", "b")] := by
    apply Redraw.interleave
    intro a
    by_cases h : "a" = a
    · subst h
      decide
    · simp [List.filter_cons, h]
  exact .trans _ _ _ (.symm _ _ (.rel _ _ copy)) (.rel _ _ move)

theorem cycles_of_successors_smoothed :
    ∃ (g : Graph String Nat) (g' : Graph String String),
      ofLists ["a", "b"] tangled = .ok g ∧ Redrawn (tangled.map ends) (smoothed.map ends) ∧
        ofLists ["a", "b"] smoothed = .ok g' ∧ g.SameSuccessors g' ∧
        (∃ size, g.AnswersAlike g' size) ∧
        ∀ limits, ∃ result result',
          g.cycles limits .unbounded = .ok result ∧ g'.cycles limits .unbounded = .ok result' ∧
            result.items.map Cycle.nodes = result'.items.map Cycle.nodes ∧
            result.truncated = result'.truncated := by
  have known : ∀ edge ∈ tangled, edge.1 ∈ ["a", "b"] ∧ edge.2.1 ∈ ["a", "b"] := by decide
  obtain ⟨g, built⟩ := exists_ofLists known
  obtain ⟨alike, redraw⟩ := @cycles_of_successors String Nat String String
  obtain ⟨g', built', same, cycles⟩ := redraw ["a", "b"] tangled smoothed g built redrawn_smoothed
  exact ⟨g, g', built, redrawn_smoothed, built', same, alike g g' same, cycles⟩

end Graph

end Coupling
