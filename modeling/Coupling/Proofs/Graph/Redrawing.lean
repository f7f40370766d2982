import Coupling.Proofs.Graph.Parallel
import Mathlib.Logic.Relation

/-!
# Redrawing the edges of a graph

Successors are told by the first edge to each of them. A list of edges may therefore be redrawn in
many ways that no list of successors shows: by other descriptors, by copies of an edge behind the
first, and by another order between the edges of different nodes.
-/

namespace Coupling

open Relation

section FirstOccurrences

variable {α β : Type} [DecidableEq α] [DecidableEq β]

theorem eraseDups_concat (l : List α) (a : α) :
    (l ++ [a]).eraseDups = if a ∈ l then l.eraseDups else l.eraseDups ++ [a] := by
  rw [List.eraseDups_append]
  by_cases mem : a ∈ l <;> simp [List.removeAll, List.eraseDups_cons, mem]

theorem eraseDups_map {f : α → β} (injective : Function.Injective f) (l : List α) :
    (l.map f).eraseDups = l.eraseDups.map f := by
  induction l using List.reverseRecOn with
  | nil => rfl
  | append_singleton l a ih =>
    rw [List.map_append, List.map_singleton, eraseDups_concat, eraseDups_concat, ih]
    simp only [List.mem_map_of_injective injective]
    split
    · rfl
    · rw [List.map_append, List.map_singleton]

theorem eraseDups_append_copy {l : List α} {a : α} (earlier : a ∈ l) (l' : List α) :
    (l ++ a :: l').eraseDups = (l ++ l').eraseDups := by
  rw [List.eraseDups_append, List.eraseDups_append]
  simp [List.removeAll, earlier]

end FirstOccurrences

variable {ν δ δ' : Type}

def ends (edge : ν × ν × δ) : ν × ν := (edge.1, edge.2.1)

section Pairs

variable [DecidableEq ν]

/-- The targets of the edges from `a`, each where its first edge stands. -/
def firstTargets (pairs : List (ν × ν)) (a : ν) : List ν :=
  ((pairs.filter fun pair => pair.1 = a).map Prod.snd).eraseDups

/-- One change to the ends of a list of edges that keeps the first edges of every node in order. -/
inductive Redraw : List (ν × ν) → List (ν × ν) → Prop where
  | copy {l l' : List (ν × ν)} {pair : ν × ν} (earlier : pair ∈ l) :
    Redraw (l ++ l') (l ++ pair :: l')
  | interleave {l l' : List (ν × ν)}
    (same : ∀ a, (l.filter fun pair => pair.1 = a) = l'.filter fun pair => pair.1 = a) :
    Redraw l l'

theorem Redraw.mem_iff {l l' : List (ν × ν)} (h : Redraw l l') (pair : ν × ν) :
    pair ∈ l ↔ pair ∈ l' := by
  cases h with
  | copy earlier =>
    simp only [List.mem_append, List.mem_cons]
    constructor
    · exact Or.imp_right Or.inr
    · rintro (mem | rfl | mem)
      · exact Or.inl mem
      · exact Or.inl earlier
      · exact Or.inr mem
  | interleave same =>
    have from_source : ∀ l : List (ν × ν),
        pair ∈ l ↔ pair ∈ l.filter fun other => other.1 = pair.1 := by
      intro l
      simp
    rw [from_source l, from_source l', same]

theorem Redraw.firstTargets_eq {l l' : List (ν × ν)} (h : Redraw l l') (a : ν) :
    firstTargets l a = firstTargets l' a := by
  cases h with
  | @copy l l' pair earlier =>
    rw [firstTargets, firstTargets, List.filter_append, List.filter_append]
    by_cases source : pair.1 = a
    · have listed : pair.2 ∈ (l.filter fun pair => pair.1 = a).map Prod.snd :=
        List.mem_map_of_mem (List.mem_filter.mpr ⟨earlier, by simpa using source⟩)
      rw [List.filter_cons_of_pos (by simpa using source), List.map_append, List.map_append,
        List.map_cons, eraseDups_append_copy listed]
    · rw [List.filter_cons_of_neg (by simpa using source)]
  | interleave same => rw [firstTargets, firstTargets, same]

/-- Changes in either direction, as many as one likes. -/
def Redrawn : List (ν × ν) → List (ν × ν) → Prop := EqvGen Redraw

theorem Redrawn.mem_iff {l l' : List (ν × ν)} (h : Redrawn l l') (pair : ν × ν) :
    pair ∈ l ↔ pair ∈ l' := by
  induction h with
  | rel _ _ h => exact h.mem_iff pair
  | refl _ => rfl
  | symm _ _ _ ih => exact ih.symm
  | trans _ _ _ _ _ ih ih' => exact ih.trans ih'

theorem Redrawn.firstTargets_eq {l l' : List (ν × ν)} (h : Redrawn l l') (a : ν) :
    firstTargets l a = firstTargets l' a := by
  induction h with
  | rel _ _ h => exact h.firstTargets_eq a
  | refl _ => rfl
  | symm _ _ _ ih => exact ih.symm
  | trans _ _ _ _ _ ih ih' => exact ih.trans ih'

end Pairs

namespace Graph

/-- Both graphs have as many nodes, and each node has the same successors at the same places. -/
structure SameSuccessors {ν' : Type} (g : Graph ν δ) (g' : Graph ν' δ') : Prop where
  size : g.size = g'.size
  successors : ∀ v : Fin g.size,
    (g.successors v).map Fin.val = (g'.successors (v.cast size)).map Fin.val

theorem map_node_successors [DecidableEq ν] (g : Graph ν δ) (v : Fin g.size) :
    (g.successors v).map g.node =
      firstTargets ((g.edges.toList.map g.listed).map ends) (g.node v) := by
  have outgoing : g.outgoing[v] = (List.finRange g.edgeCount).filter fun e =>
      g.node g.edges[e].source = g.node v := by
    simp only [g.outgoing_eq, g.node_injective.eq_iff]
  rw [successors_eq, ← eraseDups_map g.node_injective, targets, outgoing]
  simp only [firstTargets, toList_eq_map_finRange, List.map_map, List.filter_map]
  rfl

/-- Graphs with the same names for their nodes have them at the same places. -/
theorem node_cast {g : Graph ν δ} {g' : Graph ν δ'} (nodes : g.nodes.toList = g'.nodes.toList)
    (size : g.size = g'.size) (v : Fin g.size) : g'.node (v.cast size) = g.node v := by
  have at_v := congrArg (fun l => l[v.val]?) nodes
  simpa [node, ← size] using at_v.symm

section Building

variable [DecidableEq ν] [Hashable ν] [Label ν] {nodes : List ν} {edges : List (ν × ν × δ)}
  {edges' : List (ν × ν × δ')} {g : Graph ν δ} {g' : Graph ν δ'}

theorem sameSuccessors_of_redrawn (built : ofLists nodes edges = .ok g)
    (built' : ofLists nodes edges' = .ok g') (redrawn : Redrawn (edges.map ends) (edges'.map ends)) :
    g.SameSuccessors g' ∧ g.nodes.toList = g'.nodes.toList := by
  obtain ⟨names, listed⟩ := ofLists_eq_ok built
  obtain ⟨names', listed'⟩ := ofLists_eq_ok built'
  have nodes_eq : g.nodes.toList = g'.nodes.toList := names.trans names'.symm
  have size : g.size = g'.size := by simpa using congrArg List.length nodes_eq
  refine ⟨⟨size, ?_⟩, nodes_eq⟩
  intro v
  have back : ∀ w : Fin g'.size, g'.node w = g.node (w.cast size.symm) :=
    fun w => node_cast nodes_eq size (w.cast size.symm)
  have named : (g.successors v).map g.node =
      ((g'.successors (v.cast size)).map (Fin.cast size.symm)).map g.node := by
    rw [map_node_successors, listed, redrawn.firstTargets_eq, ← listed', ← node_cast nodes_eq size,
      ← map_node_successors, List.map_map]
    exact List.map_congr_left fun w _ => back w
  have same := List.map_injective_iff.mpr g.node_injective named
  rw [same, List.map_map]
  rfl

/-- A list of edges that can be made into a graph can still be when it has been redrawn. -/
theorem exists_redrawn (built : ofLists nodes edges = .ok g)
    (redrawn : Redrawn (edges.map ends) (edges'.map ends)) :
    ∃ g' : Graph ν δ', ofLists nodes edges' = .ok g' := by
  apply exists_ofLists
  intro edge' mem
  have drawn : ends edge' ∈ edges.map ends := by
    rw [redrawn.mem_iff]
    exact List.mem_map_of_mem mem
  obtain ⟨edge, hedge, same⟩ := List.mem_map.mp drawn
  have known := ends_known built hedge
  rw [ends, ends, Prod.mk.injEq] at same
  rw [← same.1, ← same.2]
  exact known

end Building

end Graph

end Coupling
