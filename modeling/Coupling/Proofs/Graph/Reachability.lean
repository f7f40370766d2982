import Coupling.Graph.Adjacency
import Mathlib.Data.List.Chain

/-!
# Arcs, walks and mutual reachability

One relation serves every view of a graph: `Graph.arc_adjacency` and `Graph.arc_arcs` say that the
successor lists and the edge lists have the same arcs as the edges themselves. A walk may be cut
short to a path without repeated nodes, and a walk between nodes that reach each other never
leaves their component.
-/

namespace Coupling

open Relation

def Adjacency.Arc {n : Nat} (adj : Adjacency n) (v w : Fin n) : Prop := w ∈ adj[v]

/-- Some edge of the graph leads from `v` to `w`. -/
def Graph.Arc {ν δ : Type} (g : Graph ν δ) (v w : Fin g.size) : Prop :=
  ∃ e : Fin g.edgeCount, g.edges[e].source = v ∧ g.edges[e].target = w

theorem Graph.arc_adjacency {ν δ : Type} (g : Graph ν δ) : g.adjacency.Arc = g.Arc := by
  funext v w
  simp only [Adjacency.Arc, Graph.Arc, adjacency, getElem_fin, Vector.getElem_ofFn, eq_iff_iff]
  exact g.mem_successors v w

theorem Graph.mem_targets {ν δ : Type} (g : Graph ν δ) (v w : Fin g.size) :
    w ∈ g.targets v ↔ g.Arc v w := by
  simp only [targets, Arc, List.mem_map, mem_outgoing]

theorem Graph.arc_arcs {ν δ : Type} (g : Graph ν δ) : g.arcs.Arc = g.Arc := by
  funext v w
  simp only [Adjacency.Arc, arcs, getElem_fin, Vector.getElem_ofFn, eq_iff_iff]
  exact g.mem_targets v w

section Walks

variable {α : Type} {R : α → α → Prop} {a b : α} {l : List α}

theorem reaches_of_isChain_cons (walk : List.IsChain R (a :: l)) (mem : b ∈ a :: l) :
    ReflTransGen R a b := by
  induction l generalizing a with
  | nil =>
    rw [List.mem_singleton.mp mem]
  | cons c l ih =>
    obtain ⟨arc, walk⟩ := List.isChain_cons_cons.mp walk
    rcases List.mem_cons.mp mem with rfl | mem
    · exact .refl
    · exact .head arc (ih walk mem)

theorem reaches_of_isChain_append (walk : List.IsChain R (l ++ [b])) (mem : a ∈ l) :
    ReflTransGen R a b := by
  obtain ⟨s, t, rfl⟩ := List.append_of_mem mem
  have walk : List.IsChain R (s ++ (a :: (t ++ [b]))) := by simpa using walk
  exact reaches_of_isChain_cons walk.right_of_append (by simp)

/-- The part of a walk between two visits of one node can be left out. -/
theorem exists_simple_path (h : ReflTransGen R a b) :
    ∃ l : List α, (a :: l).Nodup ∧ List.IsChain R (a :: l) ∧ (a :: l).getLast? = some b := by
  induction h using ReflTransGen.head_induction_on with
  | refl => exact ⟨[], by simp, .singleton b, rfl⟩
  | @head a c arc _ ih =>
    obtain ⟨l, nodup, walk, last⟩ := ih
    by_cases mem : a ∈ c :: l
    · obtain ⟨s, t, split⟩ := List.append_of_mem mem
      rw [split] at nodup walk last
      refine ⟨t, (List.nodup_append.mp nodup).2.1, walk.right_of_append, ?_⟩
      simpa using last
    · refine ⟨c :: l, List.nodup_cons.mpr ⟨mem, nodup⟩, walk.cons_cons arc, ?_⟩
      simpa using last

/-- A walk of at least one arc, node by node. -/
theorem transGen_iff_exists_sequence :
    TransGen R a b ↔
      ∃ (k : Nat) (c : Nat → α), c 0 = a ∧ c (k + 1) = b ∧ ∀ i ≤ k, R (c i) (c (i + 1)) := by
  constructor
  · intro walk
    induction walk using TransGen.head_induction_on with
    | @single a arc =>
      refine ⟨0, fun i => Nat.casesOn i a fun _ => b, rfl, rfl, ?_⟩
      intro i hi
      obtain rfl := Nat.le_zero.mp hi
      exact arc
    | @head a d arc _ ih =>
      obtain ⟨k, c, rfl, last, arcs⟩ := ih
      refine ⟨k + 1, fun i => Nat.casesOn i a c, rfl, last, ?_⟩
      intro i hi
      cases i with
      | zero => exact arc
      | succ i => exact arcs i (Nat.le_of_succ_le_succ hi)
  · intro sequence
    obtain ⟨k, c, rfl, rfl, arcs⟩ := sequence
    induction k with
    | zero => exact .single (arcs 0 (Nat.le_refl 0))
    | succ k ih =>
      have walk := ih fun i hi => arcs i (Nat.le_succ_of_le hi)
      exact walk.tail (arcs (k + 1) (Nat.le_refl _))

/-- Each of two nodes can be reached from the other. -/
def Mutual (R : α → α → Prop) (a b : α) : Prop := ReflTransGen R a b ∧ ReflTransGen R b a

theorem Mutual.refl (a : α) : Mutual R a a := ⟨.refl, .refl⟩

theorem Mutual.symm (h : Mutual R a b) : Mutual R b a := ⟨h.2, h.1⟩

theorem Mutual.trans {c : α} (h : Mutual R a b) (h' : Mutual R b c) : Mutual R a c :=
  ⟨h.1.trans h'.1, h'.2.trans h.2⟩

/-- A walk of at least one arc that leads back to its node is a loop there or visits another node. -/
theorem transGen_self_iff : TransGen R a a ↔ R a a ∨ ∃ b, b ≠ a ∧ Mutual R a b := by
  constructor
  · intro walk
    obtain ⟨b, arc, back⟩ := TransGen.head'_iff.mp walk
    by_cases loop : b = a
    · exact Or.inl (loop ▸ arc)
    · exact Or.inr ⟨b, loop, .single arc, back⟩
  · intro h
    rcases h with loop | ⟨b, ne, there, back⟩
    · exact .single loop
    · exact (reflTransGen_iff_eq_or_transGen.mp there).resolve_left ne |>.trans_left back

/-- Every node on a walk between two nodes that reach each other is mutually reachable with them. -/
theorem Mutual.walk_stays (there : ReflTransGen R a b) (back : ReflTransGen R b a) :
    ReflTransGen (fun c d => R c d ∧ Mutual R a c ∧ Mutual R a d) a b := by
  induction there with
  | refl => exact .refl
  | @tail c d walk arc ih =>
    have fromC := ReflTransGen.head arc back
    exact (ih fromC).tail ⟨arc, ⟨walk, fromC⟩, ⟨walk.tail arc, back⟩⟩

end Walks

end Coupling
