import Coupling.Proofs.Snapshot.Crossings

/-!
# One set of dependencies, two graphs

The multigraph in which cycles are found and the component graph that is measured are built by
different means from the same snapshot. Either none of them is built, or both are, and then they
have the same nodes and show the same dependencies.
-/

namespace Coupling

namespace Snapshot

variable {s : Snapshot} {cs : Components Element}

theorem cycleGraph_of_refused {failure : Failure} (refused : s.componentSet = .error failure) :
    s.cycleGraph = .error failure := by
  rw [cycleGraph, refused]
  rfl

section Derived

variable {g : ComponentGraph cs} {G : Graph String Dependency}

theorem Derived.nodes (h : s.Derived g G) (accepted : s.componentSet = .ok cs) :
    G.nodes.toList = s.components.map ComponentRecord.id := by
  rw [← map_id_of_accepted accepted]
  apply List.ext_getElem
  · simp [IndexedSet.toList, h.size]
  · intro i hi _
    have lt : i < cs.size := by simpa [h.size] using hi
    have name := h.names ⟨i, lt⟩
    rw [Components.id_get] at name
    simpa [Graph.node, IndexedSet.get, IndexedSet.toList] using name

theorem Derived.irreflexive (h : s.Derived g G) (v : Fin G.size) : ¬ G.Arc v v := by
  rw [Graph.arc_iff_listed, h.listed]
  intro loop
  obtain ⟨d, crossing⟩ := loop
  exact (mem_crossings.mp crossing).2.1 rfl

theorem Derived.no_loop (h : s.Derived g G) (v : Fin G.size) : G.hasSelfLoop v = false := by
  rw [Bool.eq_false_iff, ne_eq, Graph.hasSelfLoop_iff]
  exact h.irreflexive v

/-- An accepted record has its place in both graphs. -/
theorem Derived.exists_place (h : s.Derived g G) (accepted : s.componentSet = .ok cs)
    {c : ComponentRecord} (hc : c ∈ s.components) :
    ∃ i, cs.position? c.id = some i ∧ G.nodeId? c.id = some (i.cast h.size) ∧
      G.node (i.cast h.size) = c.id := by
  have listed : c.id ∈ cs.toList.map Component.id := by
    have ids : cs.toList.map Component.id = cs.ids.toList := cs.ids_eq
    rw [ids, map_id_of_accepted accepted]
    exact List.mem_map_of_mem hc
  obtain ⟨i, hi⟩ := Components.mem_ids.mp listed
  have name : G.node (i.cast h.size) = c.id := (h.names i).trans hi
  refine ⟨i, Components.position?_eq_some_iff.mpr hi, ?_, name⟩
  rw [← name, Graph.nodeId?_node]

end Derived

/-- The graphs of a snapshot fail together or show the same dependencies: the multigraph every one
that crosses, as often and in the order in which the snapshot lists it, and the component graph
whether there is any. -/
theorem graphs_correspond (s : Snapshot) :
    (∀ failure, s.componentSet = .error failure → s.cycleGraph = .error failure) ∧
    ∀ cs, s.componentSet = .ok cs →
      ∃ g G, s.componentGraph cs = .ok g ∧ s.cycleGraph = .ok G ∧
        G.nodes.toList = s.components.map ComponentRecord.id ∧
        (∀ v, G.hasSelfLoop v = false) ∧
        ∀ a ∈ s.components, ∀ b ∈ s.components, a ≠ b →
          ∃ i j v w, cs.position? a.id = some i ∧ cs.position? b.id = some j ∧
            G.nodeId? a.id = some v ∧ G.nodeId? b.id = some w ∧
            (G.edgesBetween v w).map (fun e => G.edges[e].descriptor) =
              s.dependencies.filter (fun d => a.lists d.origin && b.lists d.target) ∧
            (j ∈ g.successors[i] ↔ G.edgesBetween v w ≠ []) := by
  refine ⟨fun _ => cycleGraph_of_refused, ?_⟩
  intro cs accepted
  obtain ⟨g, G, hg, hG, h⟩ := exists_graphs accepted
  refine ⟨g, G, hg, hG, h.nodes accepted, h.no_loop, ?_⟩
  intro a ha b hb ne
  obtain ⟨i, hi, hv, source⟩ := h.exists_place accepted ha
  obtain ⟨j, hj, hw, target⟩ := h.exists_place accepted hb
  refine ⟨i, j, i.cast h.size, j.cast h.size, hi, hj, hv, hw, ?_, ?_⟩
  · rw [Graph.map_edgesBetween, h.listed, source, target,
      descriptorsBetween_crossings accepted ha hb ne]
  · rw [h.arcs, Graph.edgesBetween_ne_nil]

/-- Two components share an element, and one of them lists an element twice. -/
def shared : Snapshot where
  components :=
    [⟨"a", [{ name := "x" }, { name := "u" }, { name := "x", isVisible := true }]⟩,
      ⟨"b", [{ name := "u" }, { name := "y" }]⟩]
  dependencies :=
    [{ origin := "x", target := "u" }, { origin := "y", target := "x" },
      { origin := "u", target := "u" }, { origin := "x", target := "u" },
      { origin := "x", target := "z" }]

/-- A component without a name. -/
def unnamed : Snapshot where
  components := [⟨" ", []⟩]

theorem graphs_correspond_shared :
    unnamed.componentSet = .error (.unusable (.blankComponent 0)) ∧
    unnamed.cycleGraph = .error (.unusable (.blankComponent 0)) ∧
    ∃ cs g G, shared.componentSet = .ok cs ∧ shared.componentGraph cs = .ok g ∧
      shared.cycleGraph = .ok G ∧ G.nodes.toList = ["a", "b"] ∧
      ∃ i j v w, cs.position? "a" = some i ∧ cs.position? "b" = some j ∧
        G.nodeId? "a" = some v ∧ G.nodeId? "b" = some w ∧
        (G.edgesBetween v w).map (fun e => G.edges[e].descriptor) =
          [{ origin := "x", target := "u" }, { origin := "u", target := "u" },
            { origin := "x", target := "u" }] ∧
        (j ∈ g.successors[i] ↔ G.edgesBetween v w ≠ []) := by
  have refused : unnamed.componentSet = .error (.unusable (.blankComponent 0)) := by rfl
  have accepted : ∃ cs, shared.componentSet = .ok cs := by
    apply Components.exists_ofList
    · decide
    · decide
  obtain ⟨cs, accepted⟩ := accepted
  obtain ⟨g, G, hg, hG, nodes, _, between⟩ := (graphs_correspond shared).2 cs accepted
  obtain ⟨i, j, v, w, hi, hj, hv, hw, edges, arc⟩ :=
    between _ (List.mem_cons_self) _ (List.mem_cons_of_mem _ List.mem_cons_self) (by decide)
  exact ⟨refused, (graphs_correspond unnamed).1 _ refused, cs, g, G, accepted, hg, hG, nodes,
    i, j, v, w, hi, hj, hv, hw, edges, arc⟩

end Snapshot

end Coupling
