import Coupling.Proofs.Collection.Counting
import Coupling.Proofs.Cycle.Order
import Coupling.Proofs.Graph.Construction

/-!
# What cycle detection reports

Without a bound on the work, detection succeeds and reports the first `maxCycles` of one list: that
of all elementary circuits, each once and in order. `cycles_exact` says what this means for one
cap, and `cycles_initial_segment` how the reports under two caps compare.
-/

namespace Coupling

open Relation

variable {ν δ : Type}

theorem map_fst_closedPairs {α : Type} (c : List α) : (closedPairs c).map Prod.fst = c := by
  rw [closedPairs, List.map_fst_zip]
  cases c with
  | nil => simp
  | cons a l => simp

namespace Graph

variable (g : Graph ν δ)

theorem nodes_cycleOf (maxEdges : Nat) (c : List (Fin g.size)) :
    (g.cycleOf maxEdges c).nodes = c.map g.node := by
  have sources : (g.cycleOf maxEdges c).nodes = ((closedPairs c).map Prod.fst).map g.node := by
    simp [Cycle.nodes, cycleOf, cycleStep]
  rw [sources, map_fst_closedPairs]

theorem map_nodes_cycleOf (maxEdges : Nat) (found : List (List (Fin g.size))) :
    (found.map (g.cycleOf maxEdges)).map Cycle.nodes = found.map fun c => c.map g.node := by
  simp [nodes_cycleOf]

/-- Every elementary circuit once, in the order in which they are reported. -/
structure Exhausts (all : List (List (Fin g.size))) : Prop where
  mem_iff : ∀ c, c ∈ all ↔ ElementaryCircuit g.Arc c
  ordered : all.Pairwise g.CircuitBefore

variable {g}

theorem Exhausts.nodup {all : List (List (Fin g.size))} (h : g.Exhausts all) : all.Nodup := by
  apply h.ordered.imp
  intro c d before eq
  rw [eq] at before
  exact before.asymm before

theorem Exhausts.ncard {all : List (List (Fin g.size))} (h : g.Exhausts all) :
    {c | ElementaryCircuit g.Arc c}.ncard = all.length :=
  ncard_eq_length h.nodup h.mem_iff

/-- What is left out of a report comes after everything in it. -/
theorem Exhausts.before_of_not_mem {all : List (List (Fin g.size))} (h : g.Exhausts all)
    {cap : Nat} {c d : List (Fin g.size)} (hc : c ∈ all.take cap)
    (circuit : ElementaryCircuit g.Arc d) (hd : d ∉ all.take cap) : g.CircuitBefore c d := by
  have split := h.ordered
  rw [← List.take_append_drop cap all] at split
  have mem : d ∈ all.take cap ++ all.drop cap := by
    rw [List.take_append_drop]
    exact (h.mem_iff d).mpr circuit
  have later := (List.mem_append.mp mem).resolve_left hd
  exact (List.pairwise_append.mp split).2.2 c hc d later

theorem exhausts_listing {sccs : List (Scc g.size)} (h : SccPartition g.Arc sccs) :
    g.Exhausts (g.listing sccs) :=
  ⟨fun _ => mem_listing h, pairwise_listing h⟩

theorem Exhausts.eq_nil_iff {all : List (List (Fin g.size))} (h : g.Exhausts all) :
    all = [] ↔ Acyclic g.Arc := by
  rw [acyclic_iff_no_circuit, List.eq_nil_iff_forall_not_mem]
  simp only [h.mem_iff]

variable (g)

theorem cycles_of_sccs {budget : WorkBudget} {sccs : List (Scc g.size)}
    (result : g.sccs budget = .ok sccs) (limits : CycleLimits) :
    g.cycles limits budget =
      .ok ((Capped.cut limits.maxCycles (g.listing sccs)).map
        (g.cycleOf limits.maxEdgesPerStep)) := by
  rw [cycles, result, ← circuits_eq_cut]
  rfl

/-- Detection under any limits cuts the same list. -/
theorem exists_exhausts : ∃ all, g.Exhausts all ∧ ∀ limits : CycleLimits,
    g.cycles limits .unbounded =
      .ok ((Capped.cut limits.maxCycles all).map (g.cycleOf limits.maxEdgesPerStep)) := by
  obtain ⟨sccs, result⟩ := g.exists_sccs
  exact ⟨_, exhausts_listing (g.sccs_eq_ok result), g.cycles_of_sccs result⟩

/-- A budget that suffices under some limits suffices under all of them, and the list that is cut
is the same. -/
theorem exhausts_of_cycles_eq_ok {limits : CycleLimits} {budget : WorkBudget}
    {result : Capped (Cycle ν δ)} (detected : g.cycles limits budget = .ok result) :
    ∃ all, g.Exhausts all ∧ ∀ limits' : CycleLimits, g.cycles limits' budget =
      .ok ((Capped.cut limits'.maxCycles all).map (g.cycleOf limits'.maxEdgesPerStep)) := by
  obtain ⟨sccs, result, _⟩ := map_eq_ok.mp detected
  exact ⟨_, exhausts_listing (g.sccs_eq_ok result), g.cycles_of_sccs result⟩

/-- What is not truncated shows every arc that can be closed to a walk as a step of some cycle, and
no other step. -/
theorem exists_steps (limits : CycleLimits) :
    ∃ result, g.cycles limits .unbounded = .ok result ∧
      (result.truncated = false → ∀ v w : Fin g.size,
        (∃ cycle ∈ result.items, ∃ step ∈ cycle.steps,
            step.source = g.node v ∧ step.target = g.node w) ↔
          g.Arc v w ∧ ReflTransGen g.Arc w v) := by
  obtain ⟨all, h, cut⟩ := g.exists_exhausts
  refine ⟨_, cut limits, ?_⟩
  intro whole v w
  have short : all.length ≤ limits.maxCycles := by simpa using whole
  rw [Capped.items_map, Capped.items_cut, List.take_of_length_le short]
  constructor
  · intro reported
    obtain ⟨cycle, hcycle, step, hstep, source, target⟩ := reported
    obtain ⟨c, hc, rfl⟩ := List.mem_map.mp hcycle
    obtain ⟨p, hp, rfl⟩ := List.mem_map.mp hstep
    have circuit := (h.mem_iff c).mp hc
    have fst : p.1 = v := g.node_injective source
    have snd : p.2 = w := g.node_injective target
    have both := circuit.mutual_of_mem (snd_mem_of_mem_closedPairs hp)
      (fst_mem_of_mem_closedPairs hp)
    have arc := circuit.arcs p hp
    rw [fst, snd] at arc both
    exact ⟨arc, both.1⟩
  · intro closes
    obtain ⟨arc, back⟩ := closes
    obtain ⟨c, circuit, hp⟩ := exists_circuit_through arc back
    have hc := (h.mem_iff c).mpr circuit
    exact ⟨_, List.mem_map.mpr ⟨c, hc, rfl⟩, _, List.mem_map.mpr ⟨(v, w), hp, rfl⟩, rfl, rfl⟩

/-- Of two elementary circuits one comes before the other. -/
theorem circuitBefore_total {c d : List (Fin g.size)} (hc : ElementaryCircuit g.Arc c)
    (hd : ElementaryCircuit g.Arc d) (ne : c ≠ d) : g.CircuitBefore c d ∨ g.CircuitBefore d c := by
  obtain ⟨all, h, _⟩ := g.exists_exhausts
  have symm : Std.Symm fun c d => g.CircuitBefore c d ∨ g.CircuitBefore d c :=
    ⟨fun _ _ either => either.symm⟩
  have either := h.ordered.imp (S := fun c d => g.CircuitBefore c d ∨ g.CircuitBefore d c)
    fun before => Or.inl before
  exact either.forall ((h.mem_iff c).mpr hc) ((h.mem_iff d).mpr hd) ne

/-- Detection reports as many elementary circuits as the cap allows, each once. -/
theorem cycles_exact (limits : CycleLimits) :
    ∃ (result : Capped (Cycle ν δ)) (found : List (List (Fin g.size))),
      g.cycles limits .unbounded = .ok result ∧
      result.items = found.map (g.cycleOf limits.maxEdgesPerStep) ∧
      result.items.map Cycle.nodes = found.map (fun c => c.map g.node) ∧
      (result.items.map Cycle.nodes).Nodup ∧
      (∀ c ∈ found, ElementaryCircuit g.Arc c) ∧
      {c | ElementaryCircuit g.Arc c}.Finite ∧
      result.items.length = min limits.maxCycles {c | ElementaryCircuit g.Arc c}.ncard ∧
      (result.truncated = true ↔ limits.maxCycles < {c | ElementaryCircuit g.Arc c}.ncard) ∧
      (result.truncated = false → ∀ c, ElementaryCircuit g.Arc c → found.count c = 1) ∧
      (result.items = [] ↔ Acyclic g.Arc) := by
  obtain ⟨all, h, cut⟩ := g.exists_exhausts
  have sound : ∀ c ∈ all.take limits.maxCycles, ElementaryCircuit g.Arc c := by
    intro c hc
    exact (h.mem_iff c).mp (List.mem_of_mem_take hc)
  have distinct : (all.take limits.maxCycles).Nodup := h.nodup.sublist (List.take_sublist _ _)
  refine ⟨_, all.take limits.maxCycles, cut limits, rfl, g.map_nodes_cycleOf _ _, ?_, sound,
    finite_elementaryCircuits g.Arc, ?_, ?_, ?_, ?_⟩
  · rw [Capped.items_map, Capped.items_cut, map_nodes_cycleOf]
    exact distinct.map (List.map_injective_iff.mpr g.node_injective)
  · simp [h.ncard]
  · simp [h.ncard]
  · intro whole c circuit
    have short : all.length ≤ limits.maxCycles := by simpa using whole
    rw [List.take_of_length_le short]
    exact List.count_eq_one_of_mem h.nodup ((h.mem_iff c).mpr circuit)
  · have pos := limits.maxCycles_pos
    have empty : all.take limits.maxCycles = [] ↔ all = [] := by
      simp
      omega
    rw [Capped.items_map, Capped.items_cut, List.map_eq_nil_iff, empty, acyclic_iff_no_circuit,
      List.eq_nil_iff_forall_not_mem]
    simp only [h.mem_iff]

/-- The circuits reported are the first in an order of all circuits, as many as the cap allows, and
where two of them part the one with the earlier first edge comes first. -/
theorem cycles_initial_segment (limits : CycleLimits) :
    (∀ v : Fin g.size, ∀ w ∈ g.successors v, ∀ w' ∈ g.successors v,
      (g.SuccessorBefore v w w' ↔ g.FirstEdgeBefore v w w')) ∧
    (∀ c d, ElementaryCircuit g.Arc c → ElementaryCircuit g.Arc d → c ≠ d →
      g.CircuitBefore c d ∨ g.CircuitBefore d c) ∧
    ∃ (result : Capped (Cycle ν δ)) (found : List (List (Fin g.size))),
      g.cycles limits .unbounded = .ok result ∧
      result.items = found.map (g.cycleOf limits.maxEdgesPerStep) ∧
      result.items.map Cycle.nodes = found.map (fun c => c.map g.node) ∧
      result.items.length = min limits.maxCycles {c | ElementaryCircuit g.Arc c}.ncard ∧
      (∀ c ∈ found, ElementaryCircuit g.Arc c) ∧
      found.Pairwise (fun c d => g.CircuitBefore c d ∧ ¬ g.CircuitBefore d c) ∧
      (∀ d, ElementaryCircuit g.Arc d → d ∉ found →
        ∀ c ∈ found, g.CircuitBefore c d ∧ ¬ g.CircuitBefore d c) ∧
      ∀ limits' : CycleLimits, limits.maxCycles ≤ limits'.maxCycles →
        ∃ (result' : Capped (Cycle ν δ)) (found' : List (List (Fin g.size))),
          g.cycles limits' .unbounded = .ok result' ∧
          result'.items = found'.map (g.cycleOf limits'.maxEdgesPerStep) ∧
          found = found'.take limits.maxCycles ∧
          result.items.map Cycle.nodes = (result'.items.map Cycle.nodes).take limits.maxCycles := by
  obtain ⟨all, h, cut⟩ := g.exists_exhausts
  refine ⟨fun v w hw w' hw' => g.successorBefore_iff hw hw', fun _ _ => g.circuitBefore_total, _,
    all.take limits.maxCycles, cut limits, rfl, g.map_nodes_cycleOf _ _, ?_, ?_, ?_, ?_, ?_⟩
  · simp [h.ncard]
  · intro c hc
    exact (h.mem_iff c).mp (List.mem_of_mem_take hc)
  · apply (h.ordered.sublist (List.take_sublist _ _)).imp
    intro c d before
    exact ⟨before, before.asymm⟩
  · intro d circuit hd c hc
    have before := h.before_of_not_mem hc circuit hd
    exact ⟨before, before.asymm⟩
  · intro limits' le
    have first : all.take limits.maxCycles =
        (all.take limits'.maxCycles).take limits.maxCycles := by
      rw [List.take_take, Nat.min_eq_left le]
    refine ⟨_, all.take limits'.maxCycles, cut limits', rfl, first, ?_⟩
    rw [Capped.items_map, Capped.items_map, map_nodes_cycleOf, map_nodes_cycleOf, ← List.map_take,
      Capped.items_cut, Capped.items_cut, ← first]

end Graph

end Coupling
