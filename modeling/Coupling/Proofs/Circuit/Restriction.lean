import Coupling.Proofs.Circuit.Listing
import Mathlib

/-!
# What a search for circuits may leave out

The search from a start node is confined to its region, the strongly connected component of the
start node among the nodes that are not smaller. Unless that is a single node without a loop there
is a circuit to be found in it (`exists_circuit_from_iff`), and the search finds one however many
nodes it blocks on its way, since it lists what an exhaustive search lists (`Region.ofStart_exact`).
-/

namespace Coupling

open Relation

variable {k : Nat}

/-- Something is listed, or there is something and no room for it. -/
theorem Capped.items_cut_ne_nil_or {α : Type} {cap : Nat} {l : List α} :
    (cut cap l).items ≠ [] ∨ cap = 0 ∧ (cut cap l).truncated = true ↔ l ≠ [] := by
  rw [truncated_cut, decide_eq_true_iff]
  cases cap with
  | zero => simp [List.length_pos_iff]
  | succ cap => simp [items_cut_eq_nil_iff (Nat.succ_pos cap), -items_cut]

namespace Adjacency

variable {adj back : Adjacency k} {s : Fin k}

/-- The circuits from `s` are those through `s` among the nodes that are not below it. -/
theorem elementaryCircuit_arcFrom {c : List (Fin k)} :
    ElementaryCircuit (adj.ArcFrom s) c ∧ s ∈ c ↔
      ElementaryCircuit adj.Arc c ∧ c.head? = some s := by
  constructor
  · intro h
    obtain ⟨circuit, hs⟩ := h
    obtain ⟨v, l, rfl⟩ := List.exists_cons_of_ne_nil circuit.ne_nil
    have below : v ≤ s := circuit.least v rfl s hs
    have above : s ≤ v :=
      le_of_reaches_arcFrom (circuit.mutual_of_mem hs List.mem_cons_self).1
    have arcs : ∀ p ∈ closedPairs (v :: l), adj.Arc p.1 p.2 := fun p hp => (circuit.arcs p hp).1
    have head : v = s := le_antisymm below above
    exact ⟨⟨circuit.ne_nil, circuit.nodup, arcs, circuit.least⟩, congrArg some head⟩
  · intro h
    obtain ⟨circuit, head⟩ := h
    have least : ∀ v ∈ c, s ≤ v := circuit.least s head
    have arcs := arcFrom_of_closedPairs circuit.arcs least
    exact ⟨⟨circuit.ne_nil, circuit.nodup, arcs, circuit.least⟩, List.mem_of_head? head⟩

/-- A circuit starts at `s` if and only if `s` has a loop or reaches another node and is reached
from it without going below `s`. -/
theorem exists_circuit_from_iff :
    (∃ c, ElementaryCircuit adj.Arc c ∧ c.head? = some s) ↔
      adj.Arc s s ∨ ∃ v, v ≠ s ∧ Mutual (adj.ArcFrom s) s v := by
  have loop : adj.ArcFrom s s s ↔ adj.Arc s s := by simp [ArcFrom]
  calc (∃ c, ElementaryCircuit adj.Arc c ∧ c.head? = some s)
      ↔ ∃ c, ElementaryCircuit (adj.ArcFrom s) c ∧ s ∈ c :=
        exists_congr fun _ => elementaryCircuit_arcFrom.symm
    _ ↔ TransGen (adj.ArcFrom s) s s := exists_circuit_at_iff
    _ ↔ adj.ArcFrom s s s ∨ ∃ v, v ≠ s ∧ Mutual (adj.ArcFrom s) s v := transGen_self_iff
    _ ↔ adj.Arc s s ∨ ∃ v, v ≠ s ∧ Mutual (adj.ArcFrom s) s v := or_congr_left loop

theorem closings_ofStart_ne_nil_iff (reversed : ∀ v w : Fin k, v ∈ back[w] ↔ w ∈ adj[v]) :
    (Region.ofStart adj back s).closings [s] ≠ [] ↔
      adj.Arc s s ∨ ∃ v : Fin k, v ≠ s ∧ (Region.ofStart adj back s).allowed[v] = true := by
  rw [← List.length_pos_iff, List.length_pos_iff_exists_mem]
  simp only [mem_closings_ofStart reversed, exists_circuit_from_iff, allowed_ofStart reversed]

end Adjacency

/-- However the arcs are listed backwards, the region of `s` holds exactly the nodes not below `s`
to which and from which a walk through no node below `s` leads. A closed walk with smallest node `s`
lies in it, in particular every elementary circuit. What the search in the region lists are
elementary circuits from `s`; and it lists one, or ends because there is no room for any, if and
only if `s` has a loop or is not alone in its region. -/
theorem Region.ofStart_exact {adj back : Adjacency k}
    (reversed : ∀ v w : Fin k, v ∈ back[w] ↔ w ∈ adj[v]) (s : Fin k) :
    (∀ v : Fin k, (Region.ofStart adj back s).allowed[v] = true ↔
      s ≤ v ∧ ReflTransGen (adj.ArcFrom s) s v ∧ ReflTransGen (adj.ArcFrom s) v s) ∧
    (∀ c : List (Fin k), (∀ p ∈ closedPairs c, adj.Arc p.1 p.2) → s ∈ c → (∀ v ∈ c, s ≤ v) →
      ∀ v ∈ c, (Region.ofStart adj back s).allowed[v] = true) ∧
    ∀ cap,
      (∀ c ∈ ((Region.ofStart adj back s).circuits cap).items,
        ElementaryCircuit adj.Arc c ∧ c.head? = some s) ∧
      ((((Region.ofStart adj back s).circuits cap).items ≠ [] ∨
          cap = 0 ∧ ((Region.ofStart adj back s).circuits cap).truncated = true) ↔
        adj.Arc s s ∨ ∃ v : Fin k, v ≠ s ∧ (Region.ofStart adj back s).allowed[v] = true) := by
  refine ⟨?_, ?_, ?_⟩
  · intro v
    rw [Adjacency.allowed_ofStart reversed]
    constructor
    · intro h
      exact ⟨Adjacency.le_of_reaches_arcFrom h.1, h⟩
    · intro h
      exact h.2
  · intro c arcs hs least v
    exact Adjacency.allowed_of_closed_walk reversed arcs hs least
  · intro cap
    have listed : (Region.ofStart adj back s).circuits cap =
        .cut cap ((Region.ofStart adj back s).closings [s]) := circuits_eq_cut _ cap
    rw [listed]
    constructor
    · intro c hc
      exact (Adjacency.mem_closings_ofStart reversed).mp (List.mem_of_mem_take hc)
    · rw [Capped.items_cut_ne_nil_or]
      exact Adjacency.closings_ofStart_ne_nil_iff reversed

/-- Node 2 leads back to 1 only through 0, and node 4 only through 3. -/
def backwater : Adjacency 6 := #v[[1], [2, 3], [0], [4, 5], [3], [1]]

/-- The arcs of `backwater` backwards, those to 1 and to 3 not in the order of their sources. -/
def backwaterReversed : Adjacency 6 := #v[[2], [5, 0], [1], [4, 1], [3], [3]]

/-- The search from 1 leaves node 2 out. From 3 it tries 4 first, which stays blocked because 3 is
on the path, and then closes a circuit through 5. -/
theorem Region.ofStart_exact_backwater :
    (∀ v w : Fin 6, v ∈ backwaterReversed[w] ↔ w ∈ backwater[v]) ∧
      (Region.ofStart backwater backwaterReversed 1).allowed =
        #v[false, true, false, true, true, true] ∧
      (∀ v ∈ [(5 : Fin 6), 1, 3],
        (Region.ofStart backwater backwaterReversed 1).allowed[v] = true) ∧
      ((Region.ofStart backwater backwaterReversed 1).circuits 1).items ≠ [] := by
  have reversed : ∀ v w : Fin 6, v ∈ backwaterReversed[w] ↔ w ∈ backwater[v] := by decide
  have region : (Region.ofStart backwater backwaterReversed 1).allowed =
      #v[false, true, false, true, true, true] := by cbv
  obtain ⟨-, closed, search⟩ := ofStart_exact reversed 1
  have ring : ∀ p ∈ closedPairs [(5 : Fin 6), 1, 3], p.2 ∈ backwater[p.1] := by decide
  have members := closed [5, 1, 3] ring (by decide) (by decide)
  have second : (Region.ofStart backwater backwaterReversed 1).allowed[(3 : Fin 6)] = true :=
    members 3 (by decide)
  have found := (search 1).2.mpr (Or.inr ⟨3, by decide, second⟩)
  exact ⟨reversed, region, members, found.resolve_right fun none => absurd none.1 Nat.one_ne_zero⟩

end Coupling
