import Coupling.Proofs.Bare.Enumeration
import Coupling.Proofs.Command.Denial
import Coupling.Proofs.Cycle.Detail

/-!
# Detection never halts on a fault

All of cycle detection on bare arrays, and the report of what it finds with every difference taken
only where there is one. Detection ends as it does on the graph, by cycles or by a budget that does
not suffice (`cycles_bare`), so no place is outside its array, no stack ends early, no visit gets
the number that stands for none, and nothing is divided by zero. The sentinel may not be below the
number of nodes; nothing is assumed of limits, budgets or the edges of the graph.
-/

namespace Coupling

open Checked

variable {ν δ : Type}

namespace BareGraph

/-- The step from node `v` at place `i` of a path to the node behind it, behind the last one to the
first. -/
def cycleStep (g : BareGraph ν δ) (maxEdges : Nat) (path : Array Nat) (entry : Nat × Nat) :
    Checked (CycleStep ν δ) := do
  let next ← rem (entry.2 + 1) path.size
  let w ← fetch path next
  let edges ← g.edgesBetween entry.1 w
  let source ← fetch g.nodes entry.1
  let target ← fetch g.nodes w
  return {
    source, target
    edges := (edges.take maxEdges).map BareEdge.descriptor
    totalEdges := edges.length }

def cycleOf (g : BareGraph ν δ) (maxEdges : Nat) (path : List Nat) : Checked (Cycle ν δ) := do
  let steps ← path.zipIdx.mapM (g.cycleStep maxEdges path.toArray)
  return { steps }

noncomputable def cycles (g : BareGraph ν δ) (unvisited : Nat) (limits : CycleLimits)
    (budget : WorkBudget) : Checked (Capped (Cycle ν δ)) := do
  let sccs ← g.sccs unvisited budget
  let (found, whole) ← g.circuits sccs limits.maxCycles
  let items ← found.toList.mapM (g.cycleOf limits.maxEdgesPerStep)
  return { items, truncated := !whole }

end BareGraph

namespace BareReport

/-- The edges that are not listed, if there are not more listed than there are. -/
def suppressed (step : CycleStep ν δ) : Checked Nat := sub step.totalEdges step.edges.length

def plainStep (step : CycleStep String Dependency) : Checked String := do
  let hidden ← suppressed step
  return Layout.line s!"  {step.source} -> {step.target}" ++
    String.join (step.edges.map fun d => Layout.line s!"    {d.text}") ++
    if hidden = 0 then "" else Layout.line s!"    ... and {hidden} more"

def plainCycle (entry : Cycle String Dependency × Nat) : Checked String := do
  let steps ← entry.1.steps.mapM plainStep
  return Layout.line s!"\nCycle {entry.2 + 1}: {entry.1.text}" ++ String.join steps

def plain (r : CyclesReport) : Checked String :=
  if r.found.items.isEmpty then return Layout.line "No dependency cycles found."
  else do
    let cycles ← r.found.items.zipIdx.mapM plainCycle
    return Layout.title r.plainTitle ++ String.join cycles

end BareReport

/-! ## Cycles of circuits -/

/-- The place behind a place of a cycle. -/
def nextPlace {m : Nat} (i : Fin m) : Fin m := ⟨(i + 1) % m, Nat.mod_lt _ i.pos⟩

theorem closedPairs_eq_map_get {α : Type} (c : List α) :
    closedPairs c = (List.finRange c.length).map fun i => (c.get i, c.get (nextPlace i)) := by
  rw [closedPairs_eq_zip_rotate]
  apply List.ext_getElem
  · simp
  · intro i _ _
    simp [List.getElem_rotate, nextPlace]

namespace Graph

variable (g : Graph ν δ)

theorem fetch_node (v : Fin g.size) : fetch g.bare.nodes v.val = pure (g.node v) :=
  fetch_vector g.nodes v

theorem cycleStep_bare (maxEdges : Nat) (c : List (Fin g.size)) (i : Fin c.length) :
    g.bare.cycleStep maxEdges (c.map Fin.val).toArray ((c.get i).val, i.val) =
      pure (g.cycleStep maxEdges (c.get i) (c.get (nextPlace i))) := by
  have size : (c.map Fin.val).toArray.size = c.length := by simp
  have next : fetch (c.map Fin.val).toArray (nextPlace i).val =
      pure (c.get (nextPlace i)).val := by
    apply fetch_eq
    simp
  rw [BareGraph.cycleStep, size, rem_eq i.pos, pure_bind]
  show (fetch (c.map Fin.val).toArray (nextPlace i).val >>= _) = _
  simp only [next, pure_bind, edgesBetween_bare, fetch_node, cycleStep, List.length_map,
    ← List.map_take, List.map_map]
  rfl

theorem cycleOf_bare (maxEdges : Nat) (c : List (Fin g.size)) :
    g.bare.cycleOf maxEdges (c.map Fin.val) = pure (g.cycleOf maxEdges c) := by
  have places : (c.map Fin.val).zipIdx =
      (List.finRange c.length).map fun i => ((c.get i).val, i.val) := by
    apply List.ext_getElem
    · simp
    · intro i _ _
      simp
  have steps : (c.map Fin.val).zipIdx.mapM (g.bare.cycleStep maxEdges (c.map Fin.val).toArray) =
      pure (g.cycleOf maxEdges c).steps := by
    rw [places, List.mapM_map, cycleOf, closedPairs_eq_map_get, List.map_map]
    exact mapM_eq_pure fun i _ => g.cycleStep_bare maxEdges c i
  rw [BareGraph.cycleOf, steps, pure_bind]

/-- Detection on bare arrays ends as it does on the graph. -/
theorem cycles_bare {unvisited : Nat} (fits : g.size ≤ unvisited) (limits : CycleLimits)
    (budget : WorkBudget) :
    g.bare.cycles unvisited limits budget = ofExcept (g.cycles limits budget) := by
  rw [BareGraph.cycles, g.sccs_bare unvisited budget fits, cycles]
  cases result : g.sccs budget with
  | error e => rfl
  | ok sccs =>
    have items : ((g.circuits sccs limits.maxCycles).items.map (List.map Fin.val)).mapM
        (g.bare.cycleOf limits.maxEdgesPerStep) =
          pure ((g.circuits sccs limits.maxCycles).items.map
            (g.cycleOf limits.maxEdgesPerStep)) := by
      rw [List.mapM_map]
      exact mapM_eq_pure fun c _ => g.cycleOf_bare limits.maxEdgesPerStep c
    show (g.bare.circuits (sccs.map Scc.bare) limits.maxCycles >>= _) = _
    rw [g.circuits_bare (g.sccs_eq_ok result), pure_bind]
    dsimp only
    rw [items, pure_bind, Bool.not_not]
    rfl

/-- A sentinel that is a number of a visit would be given to one. -/
example : BareGraph.cycles (⟨#["a"], #[], #[[]]⟩ : BareGraph String Nat) 0 .default .unbounded =
    fault .sentinel := by rfl

/-- No step of a detected cycle lists more edges than there are. -/
theorem edges_le_of_detected {limits : CycleLimits} {budget : WorkBudget}
    {found : Capped (Cycle ν δ)} (detected : g.cycles limits budget = .ok found)
    {cycle : Cycle ν δ} (hc : cycle ∈ found.items) {step : CycleStep ν δ}
    (hs : step ∈ cycle.steps) :
    step.edges.length ≤ step.totalEdges := by
  obtain ⟨sccs, _, rfl⟩ := map_eq_ok.mp detected
  obtain ⟨c, _, rfl⟩ := List.mem_map.mp hc
  obtain ⟨p, _, rfl⟩ := List.mem_map.mp hs
  simp only [cycleStep, List.length_map, List.length_take]
  omega

end Graph

/-! ## Reports -/

namespace CyclesReport

variable {r : CyclesReport}

/-- No step of the report lists more edges than there are. -/
def Bounded (r : CyclesReport) : Prop :=
  ∀ cycle ∈ r.found.items, ∀ step ∈ cycle.steps, step.edges.length ≤ step.totalEdges

theorem bounded_of_reported {s : Snapshot} {configuration : Configuration}
    (reported : s.cyclesReport configuration = .ok r) : r.Bounded := by
  obtain ⟨G, _, found, detected, rfl⟩ := Snapshot.cyclesReport_eq_ok.mp reported
  intro cycle hc step hs
  exact G.edges_le_of_detected detected hc hs

theorem plainStep_bare {step : CycleStep String Dependency}
    (le : step.edges.length ≤ step.totalEdges) :
    BareReport.plainStep step = pure (plainStep step) := by
  rw [BareReport.plainStep, BareReport.suppressed, sub_eq le, pure_bind]
  rfl

theorem plain_bare (bounded : r.Bounded) : BareReport.plain r = pure r.plain := by
  have cycles : r.found.items.zipIdx.mapM BareReport.plainCycle =
      pure (r.found.items.zipIdx.map fun entry => plainCycle (entry.2 + 1) entry.1) := by
    apply mapM_eq_pure
    intro entry mem
    have steps : entry.1.steps.mapM BareReport.plainStep = pure (entry.1.steps.map plainStep) := by
      apply mapM_eq_pure
      intro step hs
      exact plainStep_bare (bounded entry.1 (List.fst_mem_of_mem_zipIdx mem) step hs)
    rw [BareReport.plainCycle, steps, pure_bind]
    rfl
  rw [BareReport.plain, plain]
  split
  · rfl
  · rw [cycles, pure_bind]

end CyclesReport

theorem Checked.ofExcept_ne_fault {α : Type} (x : Except Failure α) (f : Fault) :
    ofExcept x ≠ fault f := by
  cases x with
  | error e =>
    intro same
    cases same
  | ok a =>
    intro same
    cases same

/-- Detection with a sentinel that is not below the number of nodes ends without a fault: as it does
on the graph. No step of what it finds, and none of a report, lists more edges than it counts. -/
theorem cycles_without_fault (unvisited : Nat) :
    (∀ {ν δ : Type} (g : Graph ν δ), g.size ≤ unvisited → ∀ limits budget,
      g.bare.cycles unvisited limits budget = ofExcept (g.cycles limits budget) ∧
      (∀ f, g.bare.cycles unvisited limits budget ≠ fault f) ∧
      ∀ found, g.cycles limits budget = .ok found → ∀ cycle ∈ found.items, ∀ step ∈ cycle.steps,
        BareReport.suppressed step = pure step.suppressed) ∧
    ∀ (s : Snapshot) configuration r, s.cyclesReport configuration = .ok r →
      BareReport.plain r = pure r.plain := by
  constructor
  · intro ν δ g fits limits budget
    refine ⟨g.cycles_bare fits limits budget, ?_, ?_⟩
    · intro f
      rw [g.cycles_bare fits]
      exact ofExcept_ne_fault _ f
    · intro found detected cycle hc step hs
      exact sub_eq (g.edges_le_of_detected detected hc hs)
  · intro s configuration r reported
    exact CyclesReport.plain_bare (CyclesReport.bounded_of_reported reported)

namespace Snapshot

/-- Two components that depend on each other, one of them by way of two dependencies. -/
def braced : Snapshot where
  components := [⟨"a", [{ name := "x" }]⟩, ⟨"b", [{ name := "y" }]⟩]
  dependencies :=
    [{ origin := "x", target := "y" }, { origin := "y", target := "x" },
      { origin := "x", target := "y", description := "calls" }]

theorem ring_braced : braced.Ring := by
  have there : braced.Crosses ⟨"a", [{ name := "x" }]⟩ ⟨"b", [{ name := "y" }]⟩ :=
    ⟨by decide, by decide, by decide, by decide⟩
  have back : braced.Crosses ⟨"b", [{ name := "y" }]⟩ ⟨"a", [{ name := "x" }]⟩ :=
    ⟨by decide, by decide, by decide, by decide⟩
  exact ring_iff.mpr ⟨_, (Relation.TransGen.single there).tail back⟩

theorem cycles_without_fault_braced :
    ∃ G found r, braced.cycleGraph = .ok G ∧ G.size ≤ UInt64.size - 1 ∧
      G.cycles Graph.terse .unbounded = .ok found ∧ found.items ≠ [] ∧
      braced.cyclesReport ⟨Graph.terse, .unbounded⟩ = .ok r ∧
      G.bare.cycles (UInt64.size - 1) Graph.terse .unbounded = pure found ∧
      (∀ cycle ∈ found.items, ∀ step ∈ cycle.steps,
        BareReport.suppressed step = pure step.suppressed) ∧
      BareReport.plain r = pure r.plain := by
  have accepted : ∃ cs, braced.componentSet = .ok cs := by
    apply Components.exists_ofList
    · decide
    · decide
  obtain ⟨cs, accepted⟩ := accepted
  obtain ⟨r, reported⟩ := exists_cyclesReport accepted Graph.terse
  obtain ⟨g, G, _, hG, derived⟩ := exists_graphs accepted
  obtain ⟨all, exhausts, cut⟩ := G.exists_exhausts
  have fits : G.size ≤ UInt64.size - 1 := by
    have size := congrArg List.length (derived.nodes accepted)
    simp only [Vector.length_toList, List.length_map] at size
    rw [size]
    decide
  have nonempty : ((Capped.cut Graph.terse.maxCycles all).map
      (G.cycleOf Graph.terse.maxEdgesPerStep)).items ≠ [] := by
    rw [Capped.items_map, ne_eq, List.map_eq_nil_iff,
      Capped.items_cut_eq_nil_iff Graph.terse.maxCycles_pos, exhausts.eq_nil_iff,
      derived.acyclic_iff accepted, not_not]
    exact ring_braced
  obtain ⟨detection, reports⟩ := cycles_without_fault (UInt64.size - 1)
  obtain ⟨ends, _, counted⟩ := detection G fits Graph.terse .unbounded
  rw [cut] at ends
  exact ⟨G, _, r, hG, fits, cut _, nonempty, reported, ends, counted _ (cut _),
    reports _ _ _ reported⟩

end Snapshot

end Coupling
