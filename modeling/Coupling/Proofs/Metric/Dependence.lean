import Coupling.Proofs.Bare.Access
import Coupling.Proofs.Component.Edges
import Coupling.Proofs.Component.Identifiers
import Coupling.Proofs.Metric.Closure
import Coupling.Proofs.Scc.Run

/-!
# What the dependency counts count

The count of a component is the number of components that it reaches, and it reaches at least
itself and at most all (`lakos_exact`). The sets are read from a store that is filled while they are
read; with every read looked up in the store there is nothing missing, in any order in which no
component comes before one that it reaches (`checkedCounts_eq`).
-/

namespace Coupling

open Checked Relation

namespace Adjacency

variable {n : Nat} {adj : Adjacency n} {order done rest : List (List (Fin n))} {c : List (Fin n)}
  {stored : Array (BitVec n)}

/-! ## Reads that may fail -/

/-- Adds what the arc to `w` leads to; the set of the component of `w` must have been stored. -/
def checkedAbsorb (places : Vector Nat n) (stored : Array (BitVec n)) (here : Nat)
    (set : BitVec n) (w : Fin n) : Checked (BitVec n) :=
  if places[w] = here then pure set
  else do
    let reached ← fetch stored places[w]
    return set ||| reached

/-- Adds a node of component number `here` and what its arcs lead to. -/
def checkedReach (adj : Adjacency n) (places : Vector Nat n) (stored : Array (BitVec n))
    (here : Nat) (set : BitVec n) (v : Fin n) : Checked (BitVec n) :=
  adj[v].foldlM (checkedAbsorb places stored here) (set ||| BitVec.twoPow n v)

def checkedStore (adj : Adjacency n) (places : Vector Nat n) (stored : Array (BitVec n))
    (entry : List (Fin n) × Nat) : Checked (Array (BitVec n)) := do
  let set ← entry.1.foldlM (adj.checkedReach places stored entry.2) 0
  return stored.push set

/-- The counts of all nodes, with every read of a stored set looked up. -/
def checkedCounts (adj : Adjacency n) (order : List (List (Fin n))) : Checked (List Nat) := do
  let stored ← order.zipIdx.foldlM (adj.checkedStore (places order)) #[]
  (List.finRange n).mapM fun v => count <$> fetch stored (places order)[v]

theorem fetch_getD {i : Nat} (lt : i < stored.size) : fetch stored i = pure (stored.getD i 0) := by
  apply fetch_eq
  simp [lt]

theorem checkedAbsorb_eq {places : Vector Nat n} {here : Nat} {w : Fin n} (set : BitVec n)
    (before : places[w] ≠ here → places[w] < stored.size) :
    checkedAbsorb places stored here set w = pure (absorb places stored here set w) := by
  unfold checkedAbsorb absorb
  split
  next => rfl
  next away =>
    rw [fetch_getD (before away)]
    rfl

theorem checkedReach_eq {places : Vector Nat n} {here : Nat} {v : Fin n} (set : BitVec n)
    (before : ∀ w ∈ adj[v], places[w] ≠ here → places[w] < stored.size) :
    adj.checkedReach places stored here set v =
      pure (adj[v].foldl (absorb places stored here) (set ||| BitVec.twoPow n v)) :=
  foldlM_eq_foldl (fun w hw set => checkedAbsorb_eq set (before w hw)) _

/-- Whatever an arc leaves a component for has been stored before the set of that component is
computed. -/
theorem Stored.checkedStore_eq (condensation : adj.Condensation order)
    (split : order = done ++ c :: rest) (h : Stored adj done stored) :
    adj.checkedStore (places order) stored (c, done.length) =
      pure (stored.push (adj.reachedFrom (places order) stored c)) := by
  have here : order[done.length]? = some c := by simp [split]
  have reach : c.foldlM (adj.checkedReach (places order) stored done.length) 0 =
      pure (adj.reachedFrom (places order) stored c) := by
    rw [reachedFrom, h.size]
    apply foldlM_eq_foldl
    intro v hv set
    apply checkedReach_eq
    intro w hw away
    rw [h.size]
    exact condensation.place_lt here hv hw away
  rw [checkedStore, reach]
  rfl

theorem Stored.foldlM_checkedStore (condensation : adj.Condensation order)
    (split : order = done ++ rest) (h : Stored adj done stored) :
    (rest.zipIdx done.length).foldlM (adj.checkedStore (places order)) stored =
      pure (rest.foldl
        (fun stored c => stored.push (adj.reachedFrom (places order) stored c)) stored) := by
  induction rest generalizing done stored with
  | nil => rfl
  | cons c rest ih =>
    have later := ih (by simp [split]) (h.push condensation split)
    rw [List.length_append, List.length_singleton] at later
    rw [List.zipIdx_cons, List.foldlM_cons, h.checkedStore_eq condensation split, pure_bind, later]
    rfl

/-- No set is read before it has been stored. -/
theorem checkedCounts_eq (condensation : adj.Condensation order) :
    adj.checkedCounts order = pure (adj.reachCounts order).toList := by
  have filled : order.zipIdx.foldlM (adj.checkedStore (places order)) #[] =
      pure (adj.reachedSets order) :=
    (stored_nil adj).foldlM_checkedStore condensation rfl
  have looked : (List.finRange n).mapM
      (fun v => count <$> fetch (adj.reachedSets order) (places order)[v]) =
        pure ((List.finRange n).map fun v => (adj.reachCounts order)[v]) := by
    apply mapM_eq_pure
    intro v _
    rw [fetch_getD (condensation.place_lt_size v), condensation.getElem_reachCounts]
    rfl
  rw [checkedCounts, filled, pure_bind, looked, ← toList_eq_map_finRange]

/-! ## How many nodes are reached -/

theorem one_le_ncard_reached (adj : Adjacency n) (v : Fin n) :
    1 ≤ {w | ReflTransGen adj.Arc v w}.ncard := by
  have mem : v ∈ {w | ReflTransGen adj.Arc v w} := .refl
  exact (Set.ncard_pos (Set.toFinite _)).mpr ⟨v, mem⟩

theorem ncard_reached_le (adj : Adjacency n) (v : Fin n) :
    {w | ReflTransGen adj.Arc v w}.ncard ≤ n := by
  have le := Set.ncard_le_ncard (Set.subset_univ {w | ReflTransGen adj.Arc v w}) Set.finite_univ
  rwa [Set.ncard_univ, Nat.card_eq_fintype_card, Fintype.card_fin] at le

end Adjacency

namespace ComponentGraph

variable {ε ρ : Type} [Quantity ρ] {cs : Components ε}

theorem cumulative_lakosAlong (g : ComponentGraph cs) (order : List (List (Fin cs.size))) :
    (g.lakosAlong order : LakosMetrics ρ).cumulative =
      total (g.successors.reachCounts order).toList := by
  unfold lakosAlong
  dsimp only
  split <;> rfl

/-- The metrics list for every component in turn the number of components that it reaches, and the
cumulative dependency is the sum of these numbers. Read in an order in which no component comes
before one that it reaches, no set is missing when it is read. -/
theorem lakos_exact (g : ComponentGraph cs) {order : List (List (Fin cs.size))}
    (condensation : g.successors.Condensation order) :
    (g.lakosAlong order : LakosMetrics ρ).perComponent = (List.finRange cs.size).map (fun i =>
        ⟨(cs.get i).id, {j | ReflTransGen g.successors.Arc i j}.ncard⟩) ∧
      (g.lakosAlong order : LakosMetrics ρ).cumulative =
        ∑ i, {j | ReflTransGen g.successors.Arc i j}.ncard ∧
      cs.size ≤ (g.lakosAlong order : LakosMetrics ρ).cumulative ∧
      (g.lakosAlong order : LakosMetrics ρ).cumulative ≤ cs.size * cs.size ∧
      g.successors.checkedCounts order =
        pure ((g.lakosAlong order : LakosMetrics ρ).perComponent.map DependsOn.count) := by
  have counts := Adjacency.reachCounts_eq_ncard condensation
  have cumulative : (g.lakosAlong order : LakosMetrics ρ).cumulative =
      ∑ i, {j | ReflTransGen g.successors.Arc i j}.ncard := by
    rw [cumulative_lakosAlong, toList_eq_map_finRange, total_map_finRange]
    simp only [counts]
  refine ⟨?_, cumulative, ?_, ?_, ?_⟩
  · rw [perComponent_lakosAlong]
    simp only [counts]
  · rw [cumulative]
    have least := Finset.card_nsmul_le_sum Finset.univ _ 1 fun i _ =>
      Adjacency.one_le_ncard_reached g.successors i
    simpa using least
  · rw [cumulative]
    have most := Finset.sum_le_card_nsmul Finset.univ _ cs.size fun i _ =>
      Adjacency.ncard_reached_le g.successors i
    simpa using most
  · rw [Adjacency.checkedCounts_eq condensation, perComponent_lakosAlong, List.map_map,
      toList_eq_map_finRange]
    rfl

/-- Two components that depend on each other, and a third one on which one of them depends. -/
def spur : List (String × String) := [("a", "b"), ("b", "a"), ("b", "c")]

theorem lakos_exact_spur :
    ∃ (cs : Components String) (g : ComponentGraph cs),
      Components.ofList [.hollow "a", .hollow "b", .hollow "c"] = .ok cs ∧
      ofIds cs spur = .ok g ∧ g.successors.Condensation g.successors.completed ∧
      (g.lakos : LakosMetrics Float).perComponent = (List.finRange cs.size).map (fun i =>
        ⟨(cs.get i).id, {j | ReflTransGen g.successors.Arc i j}.ncard⟩) ∧
      (g.lakos : LakosMetrics Float).cumulative =
        ∑ i, {j | ReflTransGen g.successors.Arc i j}.ncard ∧
      cs.size ≤ (g.lakos : LakosMetrics Float).cumulative ∧
      (g.lakos : LakosMetrics Float).cumulative ≤ cs.size * cs.size ∧
      g.successors.checkedCounts g.successors.completed =
        pure ((g.lakos : LakosMetrics Float).perComponent.map DependsOn.count) := by
  obtain ⟨cs, accepted⟩ := Components.exists_ofList
    (l := [Component.hollow "a", .hollow "b", .hollow "c"]) (by decide) (by decide)
  have named : ∀ id ∈ ["a", "b", "c"], ∃ i, (cs.get i).id = id := by
    intro id mem
    rw [← Components.mem_ids, Components.ofList_eq_ok accepted]
    exact mem
  have known : ∀ edge ∈ spur, edge.1 ∈ ["a", "b", "c"] ∧ edge.2 ∈ ["a", "b", "c"] := by decide
  have ends : ∀ edge ∈ spur, (∃ i, (cs.get i).id = edge.1) ∧ ∃ j, (cs.get j).id = edge.2 := by
    intro edge mem
    exact ⟨named _ (known edge mem).1, named _ (known edge mem).2⟩
  obtain ⟨g, built, _⟩ := exists_ofIds ends
  have condensation := g.successors.condensation_completed
  exact ⟨cs, g, accepted, built, condensation, lakos_exact g condensation⟩

end ComponentGraph

end Coupling
