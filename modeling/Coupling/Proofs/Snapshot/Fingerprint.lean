import Coupling.Metric.Martin
import Coupling.Proofs.Cycle.Independence
import Coupling.Proofs.Cycle.Redressing
import Coupling.Proofs.Metric.Closure
import Coupling.Proofs.Scc.Run
import Coupling.Proofs.Snapshot.Crossings

/-!
# What a fingerprint vouches for

The stream that is hashed tells the labels and endpoints of a graph, and these settle the cycles
that detection shows. For the multigraph of a snapshot they also settle the graph of components that
the metrics are read from, although that one is built in another way: it has the same arcs, and
lists them in an order of its own (`Derived.matches`). The order in which the dependencies of its
strongly connected components are added up may differ, since what is counted does not depend on it
(`same_reachCounts`).
-/

namespace Coupling

theorem map_finRange_congr {α : Type} {n m : Nat} (size : n = m) {f : Fin n → α} {f' : Fin m → α}
    (same : ∀ i, f i = f' (i.cast size)) : (List.finRange n).map f = (List.finRange m).map f' := by
  subst size
  exact List.map_congr_left fun i _ => same i

/-- Along any two orders the same nodes are counted, namely those reached. -/
theorem Adjacency.same_reachCounts {n m : Nat} (size : n = m) {adj : Adjacency n}
    {adj' : Adjacency m}
    (same : ∀ v : Fin n, adj[v].map Fin.val = adj'[v.cast size].map Fin.val)
    {order : List (List (Fin n))} {order' : List (List (Fin m))}
    (condensation : adj.Condensation order) (condensation' : adj'.Condensation order') :
    (adj.reachCounts order).toList = (adj'.reachCounts order').toList := by
  subst size
  have same : adj = adj' := Adjacency.ext_val same
  subst same
  rw [toList_eq_map_finRange, toList_eq_map_finRange]
  simp only [reachCounts_eq_ncard condensation, reachCounts_eq_ncard condensation']

/-- What is measured of the dependencies of a component. -/
def ComponentCoupling.dependence {ρ : Type} (c : ComponentCoupling ρ) : String × Nat × Nat × ρ :=
  (c.component, c.efferent, c.afferent, c.instability)

namespace ComponentGraph

variable {ε ε' : Type} {cs : Components ε} {cs' : Components ε'}

/-- Components with the same identifiers depend on each other in the same way. -/
structure Matches (g : ComponentGraph cs) (g' : ComponentGraph cs') : Prop where
  size : cs.size = cs'.size
  ids : ∀ i, (cs.get i).id = (cs'.get (i.cast size)).id
  successors : ∀ i : Fin cs.size,
    g.successors[i].map Fin.val = g'.successors[i.cast size].map Fin.val
  predecessors : ∀ i : Fin cs.size,
    g.predecessors[i].map Fin.val = g'.predecessors[i.cast size].map Fin.val

/-- The metrics of dependencies are the same, in whatever order the strongly connected components
are gone through. What depends on the elements of a component apart from its dependencies is left
out. -/
structure MeasuresAlike (g : ComponentGraph cs) (g' : ComponentGraph cs') : Prop where
  lakos : ∀ (ρ : Type) [Quantity ρ] (order : List (List (Fin cs.size)))
    (order' : List (List (Fin cs'.size))), g.successors.Condensation order →
      g'.successors.Condensation order' →
        (g.lakosAlong order : LakosMetrics ρ) = g'.lakosAlong order'
  couplings : ∀ (ρ : Type) [Quantity ρ] (isVisible isAbstract : ε → Bool)
    (isVisible' isAbstract' : ε' → Bool),
    (g.couplings isVisible isAbstract : CouplingMetrics ρ).components.map
        ComponentCoupling.dependence =
      (g'.couplings isVisible' isAbstract' : CouplingMetrics ρ).components.map
        ComponentCoupling.dependence

variable {g : ComponentGraph cs} {g' : ComponentGraph cs'}

theorem Matches.lakos {ρ : Type} [Quantity ρ] (h : g.Matches g')
    {order : List (List (Fin cs.size))} {order' : List (List (Fin cs'.size))}
    (condensation : g.successors.Condensation order)
    (condensation' : g'.successors.Condensation order') :
    (g.lakosAlong order : LakosMetrics ρ) = g'.lakosAlong order' := by
  have counts := Adjacency.same_reachCounts h.size h.successors condensation condensation'
  have perComponent :
      ((List.finRange cs.size).map fun i =>
        (⟨g.identifier i, (g.successors.reachCounts order)[i]⟩ : DependsOn)) =
      (List.finRange cs'.size).map fun i =>
        ⟨g'.identifier i, (g'.successors.reachCounts order')[i]⟩ := by
    apply map_finRange_congr h.size
    intro i
    have at_i := congrArg (fun l => l[i.val]?) counts
    have count : (g.successors.reachCounts order)[i] =
        (g'.successors.reachCounts order')[i.cast h.size] := by
      have lt : i.val < cs'.size := (i.cast h.size).isLt
      simpa [lt] using at_i
    rw [count]
    simp only [identifier, h.ids]
  simp only [lakosAlong, counts, perComponent, h.size]

theorem Matches.couplings {ρ : Type} [Quantity ρ] (h : g.Matches g')
    (isVisible isAbstract : ε → Bool) (isVisible' isAbstract' : ε' → Bool) :
    (g.couplings isVisible isAbstract : CouplingMetrics ρ).components.map
        ComponentCoupling.dependence =
      (g'.couplings isVisible' isAbstract' : CouplingMetrics ρ).components.map
        ComponentCoupling.dependence := by
  rw [ComponentGraph.couplings, ComponentGraph.couplings, List.map_map, List.map_map]
  apply map_finRange_congr h.size
  intro i
  have efferent := congrArg List.length (h.successors i)
  have afferent := congrArg List.length (h.predecessors i)
  rw [List.length_map, List.length_map] at efferent afferent
  simp only [Function.comp_apply, ComponentCoupling.dependence, coupling, efferent, afferent, h.ids]

theorem Matches.measuresAlike (h : g.Matches g') : g.MeasuresAlike g' :=
  ⟨fun _ _ _ _ => h.lakos, fun _ _ => h.couplings⟩

end ComponentGraph

namespace Snapshot

variable {s s' : Snapshot} {cs cs' : Components Element}

theorem Derived.mem_successors {g : ComponentGraph cs} {G : Graph String Dependency}
    (h : s.Derived g G) (i : Fin cs.size) (k : Nat) :
    k ∈ g.successors[i].map Fin.val ↔ (i.val, k) ∈ G.endpoints := by
  rw [Graph.mem_endpoints, List.mem_map]
  constructor
  · intro listed
    obtain ⟨j, arc, rfl⟩ := listed
    exact ⟨i.cast h.size, j.cast h.size, rfl, rfl, (h.arcs i j).mp arc⟩
  · intro drawn
    obtain ⟨x, y, hx, rfl, arc⟩ := drawn
    have same : i.cast h.size = x := Fin.ext hx.symm
    subst same
    exact ⟨y.cast h.size.symm, (h.arcs i (y.cast h.size.symm)).mpr arc, rfl⟩

theorem Derived.mem_predecessors {g : ComponentGraph cs} {G : Graph String Dependency}
    (h : s.Derived g G) (coherent : g.Coherent) (j : Fin cs.size) (k : Nat) :
    k ∈ g.predecessors[j].map Fin.val ↔ (k, j.val) ∈ G.endpoints := by
  rw [Graph.mem_endpoints, List.mem_map]
  constructor
  · intro listed
    obtain ⟨i, arc, rfl⟩ := listed
    exact ⟨i.cast h.size, j.cast h.size, rfl, rfl,
      (h.arcs i j).mp ((coherent.mirror i j).mp arc)⟩
  · intro drawn
    obtain ⟨x, y, rfl, hy, arc⟩ := drawn
    have same : j.cast h.size = y := Fin.ext hy.symm
    subst same
    exact ⟨x.cast h.size.symm,
      (coherent.mirror _ j).mpr ((h.arcs (x.cast h.size.symm) j).mpr arc), rfl⟩

theorem Derived.matches {g : ComponentGraph cs} {g' : ComponentGraph cs'}
    {G G' : Graph String Dependency} (h : s.Derived g G) (h' : s'.Derived g' G')
    (coherent : g.Coherent) (coherent' : g'.Coherent) (labels : G.labels = G'.labels)
    (endpoints : G.endpoints = G'.endpoints) : g.Matches g' := by
  have size : cs.size = cs'.size := by
    have lengths := congrArg List.length labels
    rw [h.size, h'.size]
    simpa [Graph.labels] using lengths
  have ascending : ∀ {n : Nat} {l : List (Fin n)}, l.Pairwise (· < ·) →
      (l.map Fin.val).Pairwise (· < ·) := fun sorted => List.pairwise_map.mpr sorted
  refine ⟨size, ?_, ?_, ?_⟩
  · intro i
    have at_i := congrArg (fun l => l[i.val]?) labels
    have lt : i.val < G.size := (i.cast h.size).isLt
    have lt' : i.val < G'.size := ((i.cast size).cast h'.size).isLt
    have named : Label.text (G.node (i.cast h.size)) =
        Label.text (G'.node ((i.cast size).cast h'.size)) := by
      simpa [Graph.labels, Graph.node, lt, lt'] using at_i
    rw [h.names, h'.names] at named
    exact named
  · intro i
    apply (ascending (coherent.successors i)).eq_of_mem_iff (ascending (coherent'.successors _))
    intro k
    rw [h.mem_successors, h'.mem_successors, endpoints]
    rfl
  · intro i
    apply (ascending (coherent.predecessors i)).eq_of_mem_iff (ascending (coherent'.predecessors _))
    intro k
    rw [h.mem_predecessors coherent, h'.mem_predecessors coherent', endpoints]
    rfl

/-- Graphs have the same stream exactly when they have the same labels and endpoints. Detection then
shows the same cycles, and over the components of two snapshots the same is measured. -/
theorem stream_settles :
    (∀ (ν δ ν' δ' : Type) [Label ν] [Label ν'] (g : Graph ν δ) (g' : Graph ν' δ'),
      g.Fits → g'.Fits →
        (g.stream = g'.stream ↔ g.labels = g'.labels ∧ g.endpoints = g'.endpoints) ∧
        (g.stream = g'.stream → ∀ limits budget,
          (g.cycles limits budget).map (Capped.map Cycle.sketch) =
            (g'.cycles limits budget).map (Capped.map Cycle.sketch))) ∧
    ∀ (s s' : Snapshot) (cs cs' : Components Element),
      s.componentSet = .ok cs → s'.componentSet = .ok cs' →
        ∃ g g' G G', s.componentGraph cs = .ok g ∧ s'.componentGraph cs' = .ok g' ∧
          s.cycleGraph = .ok G ∧ s'.cycleGraph = .ok G' ∧
          (G.Fits → G'.Fits → G.stream = G'.stream → g.MeasuresAlike g') := by
  constructor
  · intro ν δ ν' δ' _ _ g g' fits fits'
    refine ⟨Graph.stream_eq_iff fits fits', ?_⟩
    intro same
    obtain ⟨labels, endpoints⟩ := (Graph.stream_eq_iff fits fits').mp same
    exact Graph.sketches_of_labels_endpoints labels endpoints
  · intro s s' cs cs' accepted accepted'
    obtain ⟨g, G, hg, hG, derived⟩ := exists_graphs accepted
    obtain ⟨g', G', hg', hG', derived'⟩ := exists_graphs accepted'
    refine ⟨g, g', G, G', hg, hg', hG, hG', ?_⟩
    intro fits fits' same
    obtain ⟨labels, endpoints⟩ := (Graph.stream_eq_iff fits fits').mp same
    have coherent := (ComponentGraph.ofIds_eq_ok hg).1
    have coherent' := (ComponentGraph.ofIds_eq_ok hg').1
    exact (derived.matches derived' coherent coherent' labels endpoints).measuresAlike

/-- Two components that depend on each other by way of one element each. -/
def facing : Snapshot where
  components := [⟨"a", [{ name := "x" }]⟩, ⟨"b", [{ name := "y" }]⟩]
  dependencies := [{ origin := "x", target := "y" }, { origin := "y", target := "x" }]

/-- The same components with other elements and other dependencies between them. -/
def facingAnew : Snapshot where
  components :=
    [⟨"a", [{ name := "x" }, { name := "u" }]⟩, ⟨"b", [{ name := "y", isAbstract := true }]⟩]
  dependencies :=
    [{ origin := "u", target := "y", description := "calls" }, { origin := "x", target := "u" },
      { origin := "y", target := "x" }]

theorem fits_of_facing {G : Graph String Dependency} (nodes : G.nodes.toList = ["a", "b"])
    (edges : (G.edges.toList.map G.listed).map ends = [("a", "b"), ("b", "a")]) : G.Fits := by
  have size := congrArg List.length nodes
  have count := congrArg List.length edges
  simp only [Vector.length_toList, List.length_map, List.length_cons, List.length_nil] at size count
  refine ⟨by rw [size]; decide, by rw [count]; decide, ?_⟩
  rw [Graph.labels, nodes]
  decide

theorem stream_settles_facing :
    ∃ cs cs' g g' G G', facing.componentSet = .ok cs ∧ facingAnew.componentSet = .ok cs' ∧
      facing.componentGraph cs = .ok g ∧ facingAnew.componentGraph cs' = .ok g' ∧
      facing.cycleGraph = .ok G ∧ facingAnew.cycleGraph = .ok G' ∧ G.Fits ∧ G'.Fits ∧
      G.stream = G'.stream ∧ g.MeasuresAlike g' ∧
      (g.lakos : LakosMetrics Float) = g'.lakos := by
  obtain ⟨cs, accepted⟩ : ∃ cs, facing.componentSet = .ok cs :=
    Components.exists_ofList (by decide) (by decide)
  obtain ⟨cs', accepted'⟩ : ∃ cs', facingAnew.componentSet = .ok cs' :=
    Components.exists_ofList (by decide) (by decide)
  obtain ⟨g, g', G, G', hg, hg', hG, hG', measures⟩ :=
    stream_settles.2 facing facingAnew cs cs' accepted accepted'
  obtain ⟨_, hG₁, nodes, edges⟩ := exists_cycleGraph accepted
  obtain ⟨_, hG₂, nodes', edges'⟩ := exists_cycleGraph accepted'
  cases hG.symm.trans hG₁
  cases hG'.symm.trans hG₂
  rw [map_id_of_accepted accepted] at nodes
  rw [map_id_of_accepted accepted'] at nodes'
  have crossings : facing.crossings.map ends = [("a", "b"), ("b", "a")] := by
    simp only [Snapshot.crossings, getD_keyed]
    decide
  have crossings' : facingAnew.crossings.map ends = [("a", "b"), ("b", "a")] := by
    simp only [Snapshot.crossings, getD_keyed]
    decide
  rw [← edges] at crossings
  rw [← edges'] at crossings'
  have fits := fits_of_facing nodes crossings
  have fits' := fits_of_facing nodes' crossings'
  have same := Graph.stream_eq_of_ends (nodes.trans nodes'.symm) (crossings.trans crossings'.symm)
  have alike := measures fits fits' same
  have lakos : (g.lakos : LakosMetrics Float) = g'.lakos :=
    alike.lakos Float _ _ g.successors.condensation_completed g'.successors.condensation_completed
  exact ⟨cs, cs', g, g', G, G', accepted, accepted', hg, hg', hG, hG', fits, fits', same, alike,
    lakos⟩

end Snapshot

end Coupling
