import Coupling.Metric.Martin
import Coupling.Proofs.Collection.Counting
import Coupling.Proofs.Component.Edges

/-!
# What a component graph shows

Dependencies between elements and edges between identifiers are linked alike, so both graphs show
one relation between distinct components (`ComponentGraph.Depicts`). An edge is counted once among
the dependencies of its source and once among the dependents of its target: the efferent couplings
add up to the number of edges, and so do the afferent ones, although they are read from the other
direction.
-/

namespace Coupling

namespace ComponentGraph

variable {ε : Type} {cs : Components ε} {g : ComponentGraph cs}

/-! ## The owners of an element -/

theorem mem_ownerships {x : ε} {i : Fin cs.size} :
    (x, i) ∈ ownerships cs ↔ x ∈ (cs.get i).elements := by
  simp [ownerships]

theorem mem_owners [DecidableEq ε] [Hashable ε] {x : ε} {i : Fin cs.size} :
    i ∈ (keyed (ownerships cs)).getD x [] ↔ x ∈ (cs.get i).elements := by
  rw [getD_keyed, ← mem_ownerships]
  simp

theorem mem_successors_ofElements [DecidableEq ε] [Hashable ε] (dependencies : List (ε × ε))
    (i j : Fin cs.size) :
    j ∈ (ofElements cs dependencies).successors[i] ↔
      i ≠ j ∧ ∃ d ∈ dependencies, d.1 ∈ (cs.get i).elements ∧ d.2 ∈ (cs.get j).elements := by
  rw [ofElements, mem_successors_linkAll]
  simp only [List.mem_flatMap, List.mem_map, mem_owners, Prod.mk.injEq]
  constructor
  · rintro (old | ⟨ne, d, hd, _, source, _, target, rfl, rfl⟩)
    · simp [empty] at old
    · exact ⟨ne, d, hd, source, target⟩
  · rintro ⟨ne, d, hd, source, target⟩
    exact Or.inr ⟨ne, d, hd, i, source, j, target, rfl, rfl⟩

/-! ## Both directions by identifiers -/

theorem mem_dependenciesOf {a b : String} :
    (∃ l ∈ g.dependenciesOf a, b ∈ l) ↔
      ∃ i j : Fin cs.size, (cs.get i).id = a ∧ (cs.get j).id = b ∧ j ∈ g.successors[i] := by
  simp only [dependenciesOf, Option.mem_def, Option.map_eq_some_iff,
    Components.position?_eq_some_iff]
  constructor
  · rintro ⟨_, ⟨i, hi, rfl⟩, mem⟩
    obtain ⟨j, arc, hj⟩ := List.mem_map.mp mem
    exact ⟨i, j, hi, hj, arc⟩
  · rintro ⟨i, j, hi, hj, arc⟩
    exact ⟨_, ⟨i, hi, rfl⟩, List.mem_map.mpr ⟨j, arc, hj⟩⟩

theorem mem_dependentsOf {a b : String} :
    (∃ l ∈ g.dependentsOf b, a ∈ l) ↔
      ∃ i j : Fin cs.size, (cs.get i).id = a ∧ (cs.get j).id = b ∧ i ∈ g.predecessors[j] := by
  simp only [dependentsOf, Option.mem_def, Option.map_eq_some_iff,
    Components.position?_eq_some_iff]
  constructor
  · rintro ⟨_, ⟨j, hj, rfl⟩, mem⟩
    obtain ⟨i, arc, hi⟩ := List.mem_map.mp mem
    exact ⟨i, j, hi, hj, arc⟩
  · rintro ⟨i, j, hi, hj, arc⟩
    exact ⟨_, ⟨j, hj, rfl⟩, List.mem_map.mpr ⟨i, arc, hi⟩⟩

theorem Coherent.converse (h : g.Coherent) (a b : String) :
    (∃ l ∈ g.dependentsOf b, a ∈ l) ↔ ∃ l ∈ g.dependenciesOf a, b ∈ l := by
  simp only [mem_dependentsOf, mem_dependenciesOf, h.mirror]

/-- A coherent graph is told by its successors. -/
theorem Coherent.ext {g' : ComponentGraph cs} (h : g.Coherent) (h' : g'.Coherent)
    (same : ∀ i j : Fin cs.size, j ∈ g.successors[i] ↔ j ∈ g'.successors[i]) : g = g' := by
  have successors : g.successors = g'.successors := by
    apply Vector.ext
    intro i lt
    exact (h.successors ⟨i, lt⟩).eq_of_mem_iff (h'.successors ⟨i, lt⟩) (same ⟨i, lt⟩)
  have predecessors : g.predecessors = g'.predecessors := by
    apply Vector.ext
    intro j lt
    apply (h.predecessors ⟨j, lt⟩).eq_of_mem_iff (h'.predecessors ⟨j, lt⟩)
    intro i
    rw [h.mirror, h'.mirror, same]
  cases g
  cases g'
  congr

/-! ## Counting edges -/

theorem Coherent.nodup_successors (h : g.Coherent) (i : Fin cs.size) : g.successors[i].Nodup :=
  (h.successors i).imp Fin.ne_of_lt

theorem Coherent.nodup_predecessors (h : g.Coherent) (i : Fin cs.size) :
    g.predecessors[i].Nodup :=
  (h.predecessors i).imp Fin.ne_of_lt

theorem edgeCount_eq_sum (g : ComponentGraph cs) :
    g.edgeCount = ∑ i : Fin cs.size, g.successors[i].length := by
  rw [edgeCount, toList_eq_map_finRange, List.map_map, ← total_map_finRange]
  rfl

section Totals

variable {ρ : Type} [Quantity ρ] (isVisible isAbstract : ε → Bool)

/-- Every edge adds one to the efferent coupling of its source. -/
theorem total_efferent (g : ComponentGraph cs) :
    total ((g.couplings isVisible isAbstract : CouplingMetrics ρ).components.map
      ComponentCoupling.efferent) = g.edgeCount := by
  rw [edgeCount_eq_sum, ← total_map_finRange, couplings, List.map_map]
  rfl

/-- Every edge adds one to the afferent coupling of its target, which is counted from the other
direction. -/
theorem Coherent.total_afferent (h : g.Coherent) :
    total ((g.couplings isVisible isAbstract : CouplingMetrics ρ).components.map
      ComponentCoupling.afferent) = g.edgeCount := by
  rw [edgeCount_eq_sum, sum_length_eq_sum_length h.nodup_successors h.nodup_predecessors h.mirror,
    ← total_map_finRange, couplings, List.map_map]
  rfl

end Totals

/-- The graph shows a relation between distinct components, in both directions and in its counts. -/
structure Depicts (g : ComponentGraph cs) (related : Fin cs.size → Fin cs.size → Prop) : Prop where
  successors : ∀ i j : Fin cs.size, j ∈ g.successors[i] ↔ i ≠ j ∧ related i j
  coherent : g.Coherent
  converse : ∀ a b, (∃ l ∈ g.dependentsOf b, a ∈ l) ↔ ∃ l ∈ g.dependenciesOf a, b ∈ l
  efferent : ∀ (ρ : Type) [Quantity ρ] (isVisible isAbstract : ε → Bool),
    total ((g.couplings isVisible isAbstract : CouplingMetrics ρ).components.map
      ComponentCoupling.efferent) = g.edgeCount
  afferent : ∀ (ρ : Type) [Quantity ρ] (isVisible isAbstract : ε → Bool),
    total ((g.couplings isVisible isAbstract : CouplingMetrics ρ).components.map
      ComponentCoupling.afferent) = g.edgeCount

theorem Coherent.depicts {related : Fin cs.size → Fin cs.size → Prop} (h : g.Coherent)
    (successors : ∀ i j : Fin cs.size, j ∈ g.successors[i] ↔ i ≠ j ∧ related i j) :
    g.Depicts related where
  successors
  coherent := h
  converse := h.converse
  efferent := fun _ _ isVisible isAbstract => g.total_efferent isVisible isAbstract
  afferent := fun _ _ isVisible isAbstract => h.total_afferent isVisible isAbstract

theorem depicts_ofElements [DecidableEq ε] [Hashable ε] (dependencies : List (ε × ε)) :
    (ofElements cs dependencies).Depicts fun i j =>
      ∃ d ∈ dependencies, d.1 ∈ (cs.get i).elements ∧ d.2 ∈ (cs.get j).elements :=
  ((Coherent.empty cs).linkAll _).depicts (mem_successors_ofElements dependencies)

theorem depicts_of_ofIds {edges : List (String × String)} (built : ofIds cs edges = .ok g) :
    g.Depicts fun i j => ((cs.get i).id, (cs.get j).id) ∈ edges :=
  (ofIds_eq_ok built).1.depicts (ofIds_eq_ok built).2

/-- Both ways of building a graph are exact, and the second one fails at the first name that is not
known. -/
theorem graphs_exact [DecidableEq ε] [Hashable ε] (cs : Components ε) :
    (∀ dependencies : List (ε × ε), (ofElements cs dependencies).Depicts fun i j =>
        ∃ d ∈ dependencies, d.1 ∈ (cs.get i).elements ∧ d.2 ∈ (cs.get j).elements) ∧
      ∀ edges : List (String × String),
        ((∃ g, ofIds cs edges = .ok g) ↔ ∀ id ∈ readingOrder edges, ∃ i, (cs.get i).id = id) ∧
        (∀ failure, ofIds cs edges = .error failure ↔ ∃ id,
          cs.FirstUnknown (readingOrder edges) id ∧ failure = .unusable (.unknownComponent id)) ∧
        ∀ g, ofIds cs edges = .ok g →
          g.Depicts fun i j => ((cs.get i).id, (cs.get j).id) ∈ edges :=
  ⟨depicts_ofElements,
    fun _ => ⟨ofIds_succeeds_iff, fun _ => ofIds_eq_error, fun _ => depicts_of_ofIds⟩⟩

end ComponentGraph

end Coupling
