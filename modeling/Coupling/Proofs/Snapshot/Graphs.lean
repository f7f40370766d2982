import Coupling.Proofs.Component.Edges
import Coupling.Proofs.Graph.Construction
import Coupling.Snapshot.Basic

/-!
# The two graphs of a snapshot

Both graphs are made of the crossings of the snapshot. As soon as its components are accepted, both
are built, and they have the same nodes in the same order and the same arcs (`exists_graphs`,
`Derived.arcs`).
-/

namespace Coupling

open Relation

namespace Snapshot

variable {s : Snapshot} {cs : Components Element}

theorem mem_owners (s : Snapshot) (name id : String) :
    id ∈ (keyed s.listings).getD name [] ↔ (name, id) ∈ s.listings := by
  rw [getD_keyed]
  simp

theorem mem_crossingsOf {owners : String → List String} {d d' : Dependency} {a b : String} :
    (a, b, d') ∈ crossingsOf owners d ↔
      d' = d ∧ a ≠ b ∧ a ∈ owners d.origin ∧ b ∈ owners d.target := by
  simp only [crossingsOf, List.mem_flatMap, List.mem_map, List.mem_filter, List.mem_eraseDups,
    decide_eq_true_eq, Prod.mk.injEq]
  constructor
  · intro h
    obtain ⟨_, ha, _, ⟨hb, ne⟩, rfl, rfl, rfl⟩ := h
    exact ⟨rfl, ne, ha, hb⟩
  · intro h
    obtain ⟨rfl, ne, ha, hb⟩ := h
    exact ⟨a, ha, b, ⟨hb, ne⟩, rfl, rfl, rfl⟩

/-- A dependency crosses between the two ends of every pair of distinct components that list its
origin and its target. -/
theorem mem_crossings {a b : String} {d : Dependency} :
    (a, b, d) ∈ s.crossings ↔
      d ∈ s.dependencies ∧ a ≠ b ∧ (d.origin, a) ∈ s.listings ∧ (d.target, b) ∈ s.listings := by
  simp only [crossings, List.mem_flatMap, mem_crossingsOf, mem_owners]
  constructor
  · intro h
    obtain ⟨_, hd, rfl, crosses⟩ := h
    exact ⟨hd, crosses⟩
  · intro h
    obtain ⟨hd, crosses⟩ := h
    exact ⟨d, hd, rfl, crosses⟩

theorem toList_of_accepted (accepted : s.componentSet = .ok cs) :
    cs.toList = s.components.map fun c => Component.ofList c.id c.elements :=
  Components.ofList_eq_ok accepted

/-- Whatever is listed is listed under a component of the set. -/
theorem exists_id_of_listed (accepted : s.componentSet = .ok cs) {name id : String}
    (h : (name, id) ∈ s.listings) : ∃ i, (cs.get i).id = id := by
  rw [← Components.mem_ids, toList_of_accepted accepted]
  simp only [listings, List.mem_flatMap, List.mem_map, Prod.mk.injEq] at h
  obtain ⟨c, hc, x, _, _, rfl⟩ := h
  simp only [List.map_map, List.mem_map]
  exact ⟨c, hc, rfl⟩

theorem crossing_ends (accepted : s.componentSet = .ok cs) {a b : String} {d : Dependency}
    (crossing : (a, b, d) ∈ s.crossings) :
    (∃ i, (cs.get i).id = a) ∧ ∃ j, (cs.get j).id = b := by
  obtain ⟨_, _, ha, hb⟩ := mem_crossings.mp crossing
  exact ⟨exists_id_of_listed accepted ha, exists_id_of_listed accepted hb⟩

theorem exists_componentGraph (accepted : s.componentSet = .ok cs) :
    ∃ g, s.componentGraph cs = .ok g ∧ ∀ i j : Fin cs.size,
      j ∈ g.successors[i] ↔ ∃ d, ((cs.get i).id, (cs.get j).id, d) ∈ s.crossings := by
  have known : ∀ edge ∈ s.crossings.map fun crossing => (crossing.1, crossing.2.1),
      (∃ i, (cs.get i).id = edge.1) ∧ ∃ j, (cs.get j).id = edge.2 := by
    intro edge mem
    obtain ⟨⟨a, b, d⟩, crossing, rfl⟩ := List.mem_map.mp mem
    exact crossing_ends accepted crossing
  obtain ⟨g, hg, successors⟩ := ComponentGraph.exists_ofIds known
  refine ⟨g, hg, ?_⟩
  intro i j
  rw [successors]
  constructor
  · intro h
    obtain ⟨_, mem⟩ := h
    obtain ⟨⟨a, b, d⟩, crossing, eq⟩ := List.mem_map.mp mem
    cases eq
    exact ⟨d, crossing⟩
  · intro h
    obtain ⟨d, crossing⟩ := h
    have distinct : i ≠ j := by
      intro same
      exact (mem_crossings.mp crossing).2.1 (congrArg (fun k => (cs.get k).id) same)
    exact ⟨distinct, List.mem_map.mpr ⟨_, crossing, rfl⟩⟩

theorem exists_cycleGraph (accepted : s.componentSet = .ok cs) :
    ∃ G, s.cycleGraph = .ok G ∧ G.nodes.toList = cs.ids.toList ∧
      G.edges.toList.map G.listed = s.crossings := by
  have known : ∀ edge ∈ s.crossings, edge.1 ∈ cs.toList.map Component.id ∧
      edge.2.1 ∈ cs.toList.map Component.id := by
    intro edge crossing
    obtain ⟨a, b, d⟩ := edge
    obtain ⟨ha, hb⟩ := crossing_ends accepted crossing
    exact ⟨Components.mem_ids.mpr ha, Components.mem_ids.mpr hb⟩
  obtain ⟨G, hG⟩ := Graph.exists_ofLists known
  obtain ⟨nodes, edges⟩ := Graph.ofLists_eq_ok hG
  have ids : cs.toList.map Component.id = cs.ids.toList := cs.ids_eq
  have distinct : cs.ids.toList.eraseDups = cs.ids.toList := by
    rw [← IndexedSet.toList_ofList, IndexedSet.toList_ofList_of_nodup cs.ids.nodup_toList]
  refine ⟨G, ?_, by rw [nodes, ids, distinct], edges⟩
  rw [cycleGraph, accepted]
  exact hG

/-- The components are the nodes, at the same positions, and every crossing is a successor in the
one graph and an edge in the other. -/
structure Derived (s : Snapshot) (g : ComponentGraph cs) (G : Graph String Dependency) : Prop where
  size : cs.size = G.size
  names : ∀ i : Fin cs.size, G.node (i.cast size) = (cs.get i).id
  successors : ∀ i j : Fin cs.size,
    j ∈ g.successors[i] ↔ ∃ d, ((cs.get i).id, (cs.get j).id, d) ∈ s.crossings
  listed : G.edges.toList.map G.listed = s.crossings

theorem Derived.arcs {g : ComponentGraph cs} {G : Graph String Dependency} (h : s.Derived g G)
    (i j : Fin cs.size) : j ∈ g.successors[i] ↔ G.Arc (i.cast h.size) (j.cast h.size) := by
  rw [h.successors, Graph.arc_iff_listed, h.listed, h.names, h.names]

theorem Derived.reaches_iff {g : ComponentGraph cs} {G : Graph String Dependency}
    (h : s.Derived g G) (i j : Fin cs.size) :
    ReflTransGen g.successors.Arc i j ↔ ReflTransGen G.Arc (i.cast h.size) (j.cast h.size) := by
  constructor
  · intro walk
    exact walk.lift (fun i => i.cast h.size) fun i j arc => (h.arcs i j).mp arc
  · intro walk
    have back : ∀ v w : Fin G.size, G.Arc v w →
        g.successors.Arc (v.cast h.size.symm) (w.cast h.size.symm) := by
      intro v w arc
      exact (h.arcs (v.cast h.size.symm) (w.cast h.size.symm)).mpr arc
    exact walk.lift (fun v : Fin G.size => v.cast h.size.symm) back

theorem exists_graphs (accepted : s.componentSet = .ok cs) :
    ∃ g G, s.componentGraph cs = .ok g ∧ s.cycleGraph = .ok G ∧ s.Derived g G := by
  obtain ⟨g, hg, successors⟩ := exists_componentGraph accepted
  obtain ⟨G, hG, nodes, listed⟩ := exists_cycleGraph accepted
  have size : cs.size = G.size := by
    have lengths := congrArg List.length nodes
    simpa [IndexedSet.toList] using lengths.symm
  have names : ∀ i : Fin cs.size, G.node (i.cast size) = (cs.get i).id := by
    intro i
    rw [Components.id_get]
    have at_i := congrArg (fun l => l[i.val]?) nodes
    simpa [IndexedSet.toList, IndexedSet.get, Graph.node, ← size] using at_i
  exact ⟨g, G, hg, hG, size, names, successors, listed⟩

end Snapshot

end Coupling
