import Coupling.Proofs.Bare.Walk
import Coupling.Proofs.Graph.Redrawing
import Coupling.Proofs.Scc.Partition

/-!
# Graphs in bare arrays

A graph as it is stored: nodes, edges and the places of outgoing edges, with nothing to say that the
places are places. Read from the arrays of a graph (`Graph.bare`), every query finds what the graph
answers, and the decomposition into strongly connected components ends as it does for the graph
(`sccs_bare`): it takes the smallest member of every component, so none may be empty.
-/

namespace Coupling

open Checked

variable {ν δ : Type}

structure BareEdge (δ : Type) where
  source : Nat
  target : Nat
  descriptor : δ

structure BareGraph (ν δ : Type) where
  nodes : Array ν
  edges : Array (BareEdge δ)
  outgoing : Array (List Nat)

structure BareScc where
  members : List Nat
  cyclic : Bool

/-- A component behind its smallest member. -/
def BareScc.keyed (scc : BareScc) : Checked (Nat × BareScc) := do
  let first ← fetch scc.members.toArray 0
  return (first, scc)

namespace BareGraph

def edgesFrom (g : BareGraph ν δ) (v : Nat) : Checked (List (BareEdge δ)) := do
  let places ← fetch g.outgoing v
  places.mapM (fetch g.edges)

def targets (g : BareGraph ν δ) (v : Nat) : Checked (List Nat) := do
  let edges ← g.edgesFrom v
  return edges.map BareEdge.target

def successors (g : BareGraph ν δ) (v : Nat) : Checked (List Nat) := do
  let targets ← g.targets v
  return targets.eraseDups

def edgesBetween (g : BareGraph ν δ) (v w : Nat) : Checked (List (BareEdge δ)) := do
  let edges ← g.edgesFrom v
  return edges.filter fun e => e.target = w

def hasSelfLoop (g : BareGraph ν δ) (v : Nat) : Checked Bool := do
  let edges ← g.edgesBetween v v
  return !edges.isEmpty

/-- A component of one member is cyclic if that has a self-loop. -/
def sccOf (g : BareGraph ν δ) (component : List Nat) : Checked BareScc :=
  let members := component.mergeSort
  if 1 < members.length then return { members, cyclic := true }
  else do
    let first ← fetch members.toArray 0
    let cyclic ← g.hasSelfLoop first
    return { members, cyclic }

/-- The components by their smallest members. -/
def sortSccs (sccs : List BareScc) : Checked (List BareScc) := do
  let keyed ← sccs.mapM BareScc.keyed
  return (keyed.mergeSort fun a b => a.1 ≤ b.1).map Prod.snd

noncomputable def sccs (g : BareGraph ν δ) (unvisited : Nat) (budget : WorkBudget) :
    Checked (List BareScc) := do
  let rows ← (List.range g.nodes.size).mapM g.targets
  let walk ← BareWalk.all (rows.map List.toArray).toArray unvisited budget g.nodes.size
  let sccs ← walk.components.mapM g.sccOf
  sortSccs sccs

end BareGraph

def Edge.bare {n : Nat} (e : Edge n δ) : BareEdge δ := ⟨e.source, e.target, e.descriptor⟩

def Scc.bare {n : Nat} (scc : Scc n) : BareScc := ⟨scc.members.map Fin.val, scc.cyclic⟩

/-! ## Sorting components -/

/-- The smallest member of a component that has members. -/
def Scc.leader {n : Nat} (scc : Scc n) : Nat := (scc.members.map Fin.val).headD 0

theorem keyed_bare {n : Nat} {scc : Scc n} (ne_nil : scc.members ≠ []) :
    scc.bare.keyed = pure (scc.leader, scc.bare) := by
  obtain ⟨v, rest, members⟩ := List.exists_cons_of_ne_nil ne_nil
  have first : fetch scc.bare.members.toArray 0 = pure scc.leader := by
    apply fetch_eq
    simp [Scc.bare, Scc.leader, members]
  rw [BareScc.keyed, first, pure_bind]

theorem firstLe_eq {n : Nat} {a b : Scc n} (ha : a.members ≠ []) (hb : b.members ≠ []) :
    Adjacency.firstLe a b = decide (a.leader ≤ b.leader) := by
  obtain ⟨v, _, ha⟩ := List.exists_cons_of_ne_nil ha
  obtain ⟨w, _, hb⟩ := List.exists_cons_of_ne_nil hb
  simp [Adjacency.firstLe, Scc.leader, ha, hb]

theorem sortSccs_bare {n : Nat} {sccs : List (Scc n)} (ne_nil : ∀ scc ∈ sccs, scc.members ≠ []) :
    BareGraph.sortSccs (sccs.map Scc.bare) =
      pure ((sccs.mergeSort Adjacency.firstLe).map Scc.bare) := by
  have keyed : (sccs.map Scc.bare).mapM BareScc.keyed =
      pure (sccs.map fun scc => (scc.leader, scc.bare)) := by
    rw [List.mapM_map]
    exact mapM_eq_pure fun scc mem => keyed_bare (ne_nil scc mem)
  have sorted := List.map_mergeSort (f := fun scc : Scc n => (scc.leader, scc.bare))
    (s := fun a b => decide (a.1 ≤ b.1)) fun a ha b hb => firstLe_eq (ne_nil a ha) (ne_nil b hb)
  rw [BareGraph.sortSccs, keyed, pure_bind, ← sorted, List.map_map]
  rfl

namespace Graph

variable (g : Graph ν δ)

/-- What the arrays of a graph hold. -/
def bare (g : Graph ν δ) : BareGraph ν δ where
  nodes := g.nodes.toArray
  edges := (g.edges.map Edge.bare).toArray
  outgoing := (g.outgoing.map fun places => places.map Fin.val).toArray

@[simp] theorem size_nodes_bare : g.bare.nodes.size = g.size := Vector.size_toArray _

/-! ## Queries -/

theorem edgesFrom_bare (v : Fin g.size) :
    g.bare.edgesFrom v.val = pure (g.outgoing[v].map fun e => g.edges[e].bare) := by
  rw [BareGraph.edgesFrom, bare, fetch_vector, pure_bind]
  simp only [getElem_fin, Vector.getElem_map, List.mapM_map]
  apply mapM_eq_pure
  intro e _
  show fetch (g.edges.map Edge.bare).toArray e.val = _
  rw [fetch_vector]
  simp

theorem targets_bare (v : Fin g.size) :
    g.bare.targets v.val = pure ((g.targets v).map Fin.val) := by
  rw [BareGraph.targets, edgesFrom_bare, pure_bind, Graph.targets, List.map_map, List.map_map]
  rfl

theorem successors_bare (v : Fin g.size) :
    g.bare.successors v.val = pure ((g.successors v).map Fin.val) := by
  rw [BareGraph.successors, targets_bare, pure_bind, eraseDups_map Fin.val_injective,
    ← successors_eq]

theorem edgesBetween_bare (v w : Fin g.size) :
    g.bare.edgesBetween v.val w.val =
      pure ((g.edgesBetween v w).map fun e => g.edges[e].bare) := by
  rw [BareGraph.edgesBetween, edgesFrom_bare, pure_bind, List.filter_map]
  simp [Graph.edgesBetween, Edge.bare, Function.comp_def, Fin.val_inj]

theorem hasSelfLoop_bare (v : Fin g.size) :
    g.bare.hasSelfLoop v.val = pure (g.hasSelfLoop v) := by
  rw [BareGraph.hasSelfLoop, edgesBetween_bare, pure_bind, Graph.hasSelfLoop, List.isEmpty_map]

/-! ## Strongly connected components -/

theorem sccOf_bare {component : List (Fin g.size)} (ne_nil : component ≠ []) :
    g.bare.sccOf (component.map Fin.val) = pure (g.arcs.sccOf component).bare := by
  have members : (component.map Fin.val).mergeSort = component.mergeSort.map Fin.val :=
    (List.map_mergeSort (f := Fin.val) fun _ _ _ _ => rfl).symm
  rw [BareGraph.sccOf, members, List.length_map, List.length_mergeSort]
  match component, ne_nil with
  | [v], _ =>
    have loop : g.hasSelfLoop v = decide (v ∈ g.arcs[v]) := by
      rw [Bool.eq_iff_iff, hasSelfLoop_iff, decide_eq_true_iff]
      show _ ↔ g.arcs.Arc v v
      rw [arc_arcs]
    have first : fetch ([v].map Fin.val).toArray 0 = pure v.val := fetch_eq rfl
    rw [if_neg (by simp), List.mergeSort_singleton, first, pure_bind, hasSelfLoop_bare, pure_bind,
      loop]
    simp [Scc.bare, Adjacency.sccOf]
  | v :: w :: rest, _ =>
    rw [if_pos (by simp)]
    rfl

theorem sccs_bare (unvisited : Nat) (budget : WorkBudget) (le : g.size ≤ unvisited) :
    g.bare.sccs unvisited budget = ofExcept ((g.sccs budget).map (List.map Scc.bare)) := by
  have rows : (List.range g.bare.nodes.size).mapM g.bare.targets =
      pure ((List.finRange g.size).map fun v => (g.targets v).map Fin.val) := by
    rw [size_nodes_bare, ← List.map_coe_finRange_eq_range, List.mapM_map]
    exact mapM_eq_pure fun v _ => g.targets_bare v
  have arcs : (((List.finRange g.size).map fun v => (g.targets v).map Fin.val).map
      List.toArray).toArray = g.arcs.bare := by
    rw [← Adjacency.toArray_rows]
    simp [Graph.arcs]
  rw [BareGraph.sccs, rows, pure_bind, arcs, size_nodes_bare, Walk.all_bare g.arcs budget le,
    Graph.sccs, Adjacency.sccs]
  cases result : Walk.all g.arcs budget with
  | error e => rfl
  | ok walk =>
    have ne_nil : ∀ c ∈ walk.components, c ≠ [] := fun c mem =>
      (Walk.all_condensed result).1.ne_nil_of_mem mem
    have components : (walk.components.map (List.map Fin.val)).mapM g.bare.sccOf =
        pure ((walk.components.map g.arcs.sccOf).map Scc.bare) := by
      rw [List.mapM_map, List.map_map]
      exact mapM_eq_pure fun c mem => g.sccOf_bare (ne_nil c mem)
    have members : ∀ scc ∈ walk.components.map g.arcs.sccOf, scc.members ≠ [] := by
      intro scc mem
      obtain ⟨c, hc, rfl⟩ := List.mem_map.mp mem
      intro empty
      have perm := Adjacency.members_perm g.arcs c
      rw [empty] at perm
      exact ne_nil c hc perm.symm.eq_nil
    show ((walk.components.map (List.map Fin.val)).mapM g.bare.sccOf >>= _) = _
    rw [components, pure_bind, sortSccs_bare members]
    rfl

end Graph

end Coupling
