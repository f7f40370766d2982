import Coupling.Metric.Lakos
import Coupling.Proofs.Collection.Counting
import Coupling.Proofs.Scc.Condensed

/-!
# Reachable sets from a condensation

`reachedSets` stores one set for every component of an order in which none reaches a later one.
Along the way every stored set holds exactly what the members of its component reach (`Stored`), so
the counts are those of the reachable nodes (`reachCounts_eq_ncard`).
-/

namespace Coupling

open Relation

namespace Adjacency

variable {n : Nat} {adj : Adjacency n}

/-! ## Places -/

theorem getElem_foldl_place (component : List (Fin n)) (i : Nat) (places : Vector Nat n)
    (v : Fin n) :
    (component.foldl (place i) places)[v] = if v ∈ component then i else places[v] := by
  induction component generalizing places with
  | nil => simp
  | cons w component ih =>
    rw [List.foldl_cons, ih, place, getElem_set_fin]
    by_cases hv : v ∈ component
    · simp [hv]
    · by_cases eq : w = v
      · simp [eq]
      · have ne : v ≠ w := fun e => eq e.symm
        simp [hv, eq, ne]

/-- The places after those from `start` on have been given to some components. -/
def placesFrom (start : Nat) (order : List (List (Fin n))) (places : Vector Nat n) :
    Vector Nat n :=
  (order.zipIdx start).foldl (fun places (component, i) => component.foldl (place i) places) places

theorem placesFrom_cons (start : Nat) (component : List (Fin n)) (order : List (List (Fin n)))
    (places : Vector Nat n) :
    placesFrom start (component :: order) places =
      placesFrom (start + 1) order (component.foldl (place start) places) := by
  simp [placesFrom]

theorem getElem_placesFrom_of_not_mem {order : List (List (Fin n))} {v : Fin n}
    (hv : v ∉ order.flatten) (start : Nat) (places : Vector Nat n) :
    (placesFrom start order places)[v] = places[v] := by
  induction order generalizing start places with
  | nil => rfl
  | cons component order ih =>
    rw [List.flatten_cons, List.mem_append, not_or] at hv
    rw [placesFrom_cons, ih hv.2, getElem_foldl_place, if_neg hv.1]

theorem getElem_placesFrom {order : List (List (Fin n))} (nodup : order.flatten.Nodup) {i : Nat}
    {component : List (Fin n)} (at_i : order[i]? = some component) {v : Fin n}
    (hv : v ∈ component) (start : Nat) (places : Vector Nat n) :
    (placesFrom start order places)[v] = start + i := by
  induction order generalizing i start places with
  | nil => simp at at_i
  | cons first order ih =>
    rw [List.flatten_cons, List.nodup_append] at nodup
    rw [placesFrom_cons]
    cases i with
    | zero =>
      have eq : first = component := by simpa using at_i
      have absent : v ∉ order.flatten := by
        intro later
        exact nodup.2.2 v (eq ▸ hv) v later rfl
      rw [getElem_placesFrom_of_not_mem absent, getElem_foldl_place, if_pos (eq ▸ hv)]
      rfl
    | succ i =>
      rw [ih nodup.2.1 (by simpa using at_i)]
      omega

/-- A node is placed where its component stands. -/
theorem getElem_places {order : List (List (Fin n))} (nodup : order.flatten.Nodup) {i : Nat}
    {component : List (Fin n)} (at_i : order[i]? = some component) {v : Fin n}
    (hv : v ∈ component) : (places order)[v] = i := by
  have h := getElem_placesFrom nodup at_i hv 0 (Vector.replicate n 0)
  rw [Nat.zero_add] at h
  exact h

/-! ## Sets -/

theorem getLsbD_foldl_absorb (places : Vector Nat n) (stored : Array (BitVec n)) (here : Nat)
    (targets : List (Fin n)) (set : BitVec n) (x : Nat) :
    (targets.foldl (absorb places stored here) set).getLsbD x = true ↔
      set.getLsbD x = true ∨
        ∃ w ∈ targets, places[w] ≠ here ∧ (stored.getD places[w] 0).getLsbD x = true := by
  induction targets generalizing set with
  | nil => simp
  | cons w targets ih =>
    rw [List.foldl_cons, ih, absorb]
    by_cases same : places[w] = here
    · rw [if_pos same]
      simp only [List.mem_cons, exists_eq_or_imp, same, ne_eq, not_true_eq_false, false_and,
        false_or]
    · rw [if_neg same]
      simp only [BitVec.getLsbD_or, Bool.or_eq_true, List.mem_cons, exists_eq_or_imp, same, ne_eq,
        not_false_eq_true, true_and, or_assoc]

theorem getLsbD_foldl_reached (adj : Adjacency n) (places : Vector Nat n)
    (stored : Array (BitVec n)) (component : List (Fin n)) (set : BitVec n) (x : Fin n) :
    (component.foldl (fun set v =>
        adj[v].foldl (absorb places stored stored.size) (set ||| BitVec.twoPow n v)) set).getLsbD x
          = true ↔
      set.getLsbD x = true ∨ x ∈ component ∨ ∃ v ∈ component, ∃ w ∈ adj[v],
        places[w] ≠ stored.size ∧ (stored.getD places[w] 0).getLsbD x = true := by
  induction component generalizing set with
  | nil => simp
  | cons v component ih =>
    have bit : (BitVec.twoPow n v).getLsbD x = true ↔ x = v := by
      simp [Fin.ext_iff, eq_comm]
    rw [List.foldl_cons, ih, getLsbD_foldl_absorb]
    simp only [BitVec.getLsbD_or, Bool.or_eq_true, bit, List.mem_cons, exists_eq_or_imp, or_assoc]
    rw [or_left_comm (a := ∃ w ∈ adj[v], _)]

theorem getLsbD_reachedFrom (adj : Adjacency n) (places : Vector Nat n)
    (stored : Array (BitVec n)) (component : List (Fin n)) (x : Fin n) :
    (adj.reachedFrom places stored component).getLsbD x = true ↔
      x ∈ component ∨ ∃ v ∈ component, ∃ w ∈ adj[v],
        places[w] ≠ stored.size ∧ (stored.getD places[w] 0).getLsbD x = true := by
  rw [reachedFrom, getLsbD_foldl_reached]
  simp

/-- A walk either stays in a set of nodes or leaves it by some arc. -/
theorem reaches_leaves {c : List (Fin n)} {v x : Fin n} (hv : v ∈ c)
    (walk : ReflTransGen adj.Arc v x) :
    x ∈ c ∨ ∃ u ∈ c, ∃ w ∈ adj[u], w ∉ c ∧ ReflTransGen adj.Arc w x := by
  induction walk using ReflTransGen.head_induction_on with
  | refl => exact Or.inl hv
  | @head u w arc rest ih =>
    by_cases hw : w ∈ c
    · exact ih hw
    · exact Or.inr ⟨u, hv, w, arc, hw, rest⟩

/-- The sets of the components in `done` are stored, each in its place. -/
structure Stored (adj : Adjacency n) (done : List (List (Fin n))) (stored : Array (BitVec n)) :
    Prop where
  size : stored.size = done.length
  reached : ∀ i c, done[i]? = some c → ∀ v ∈ c, ∀ x : Fin n,
    (stored.getD i 0).getLsbD x = true ↔ ReflTransGen adj.Arc v x

theorem Condensation.exists_place {order : List (List (Fin n))} (h : adj.Condensation order)
    (v : Fin n) : ∃ c, order[(places order)[v]]? = some c ∧ v ∈ c := by
  obtain ⟨c, hc, hv⟩ := List.mem_flatten.mp (h.covers v)
  obtain ⟨i, at_i⟩ := List.mem_iff_getElem?.mp hc
  rw [getElem_places h.nodup at_i hv]
  exact ⟨c, at_i, hv⟩

theorem Condensation.place_eq_iff {order : List (List (Fin n))} (h : adj.Condensation order)
    {i : Nat} {c : List (Fin n)} (at_i : order[i]? = some c) (w : Fin n) :
    (places order)[w] = i ↔ w ∈ c := by
  constructor
  · intro placed
    obtain ⟨d, at_w, hw⟩ := h.exists_place w
    rw [placed, at_i] at at_w
    cases at_w
    exact hw
  · intro hw
    exact getElem_places h.nodup at_i hw

/-- What an arc leaves a component for stands before it. -/
theorem Condensation.place_lt {order : List (List (Fin n))} (h : adj.Condensation order)
    {i : Nat} {c : List (Fin n)} (at_i : order[i]? = some c) {v w : Fin n} (hv : v ∈ c)
    (arc : w ∈ adj[v]) (ne : (places order)[w] ≠ i) : (places order)[w] < i := by
  by_contra not_lt
  have lt : i < (places order)[w] := by omega
  obtain ⟨d, at_w, hw⟩ := h.exists_place w
  obtain ⟨hi, rfl⟩ := List.getElem?_eq_some_iff.mp at_i
  obtain ⟨hj, rfl⟩ := List.getElem?_eq_some_iff.mp at_w
  exact List.pairwise_iff_getElem.mp h.ordered i _ hi hj lt v hv w hw (.single arc)

section Stored

variable {order done rest : List (List (Fin n))} {c : List (Fin n)} {stored : Array (BitVec n)}

/-- The set read for a node whose component is done is what the node reaches. -/
theorem Stored.read (condensation : adj.Condensation order) (split : order = done ++ rest)
    (h : Stored adj done stored) {w : Fin n} (lt : (places order)[w] < stored.size) (x : Fin n) :
    (stored.getD (places order)[w] 0).getLsbD x = true ↔ ReflTransGen adj.Arc w x := by
  obtain ⟨d, at_w, hw⟩ := condensation.exists_place w
  have same : ∀ i, i < done.length → order[i]? = done[i]? := by
    intro i lt
    rw [split, List.getElem?_append_left lt]
  rw [same _ (h.size ▸ lt)] at at_w
  exact h.reached _ d at_w w hw x

theorem Stored.reachedFrom_iff (condensation : adj.Condensation order)
    (split : order = done ++ c :: rest) (h : Stored adj done stored) {v : Fin n} (hv : v ∈ c)
    (x : Fin n) :
    (adj.reachedFrom (places order) stored c).getLsbD x = true ↔ ReflTransGen adj.Arc v x := by
  have here : order[stored.size]? = some c := by simp [split, h.size]
  have mem : c ∈ order := by simp [split]
  have whole := condensation.classes c mem v hv
  rw [getLsbD_reachedFrom]
  constructor
  · intro found
    rcases found with hx | ⟨u, hu, w, arc, away, bit⟩
    · exact ((whole x).mp hx).1
    · have before := condensation.place_lt here hu arc away
      have onward := (h.read condensation split before x).mp bit
      exact ((whole u).mp hu).1.trans (.head arc onward)
  · intro walk
    rcases reaches_leaves hv walk with hx | ⟨u, hu, w, arc, hw, onward⟩
    · exact Or.inl hx
    · have away : (places order)[w] ≠ stored.size := by
        intro same
        exact hw ((condensation.place_eq_iff here w).mp same)
      have before := condensation.place_lt here hu arc away
      exact Or.inr ⟨u, hu, w, arc, away, (h.read condensation split before x).mpr onward⟩

theorem Stored.push (condensation : adj.Condensation order) (split : order = done ++ c :: rest)
    (h : Stored adj done stored) :
    Stored adj (done ++ [c]) (stored.push (adj.reachedFrom (places order) stored c)) where
  size := by simp [h.size]
  reached i d at_i v hv x := by
    have bound := (List.getElem?_eq_some_iff.mp at_i).1
    rw [List.length_append, List.length_singleton] at bound
    rcases Nat.lt_or_eq_of_le (Nat.le_of_lt_succ bound) with lt | last
    · rw [List.getElem?_append_left lt] at at_i
      have kept : (stored.push (adj.reachedFrom (places order) stored c)).getD i 0
          = stored.getD i 0 := by
        simp [Array.getElem?_push, h.size, Nat.ne_of_lt lt]
      rw [kept]
      exact h.reached i d at_i v hv x
    · have new : (stored.push (adj.reachedFrom (places order) stored c)).getD i 0
          = adj.reachedFrom (places order) stored c := by
        simp [last, ← h.size]
      have eq : c = d := by simpa [last] using at_i
      rw [new]
      exact h.reachedFrom_iff condensation split (eq ▸ hv) x

theorem Stored.foldl (condensation : adj.Condensation order) (split : order = done ++ rest)
    (h : Stored adj done stored) :
    Stored adj order (rest.foldl
      (fun stored c => stored.push (adj.reachedFrom (places order) stored c)) stored) := by
  induction rest generalizing done stored with
  | nil =>
    rw [List.append_nil] at split
    rw [split]
    exact h
  | cons c rest ih =>
    rw [List.foldl_cons]
    exact ih (by simp [split]) (h.push condensation split)

end Stored

theorem stored_nil (adj : Adjacency n) : Stored adj [] #[] where
  size := rfl
  reached i c at_i := by simp at at_i

theorem Condensation.stored {order : List (List (Fin n))} (h : adj.Condensation order) :
    Stored adj order (adj.reachedSets order) :=
  (stored_nil adj).foldl h rfl

theorem Condensation.place_lt_size {order : List (List (Fin n))} (h : adj.Condensation order)
    (v : Fin n) : (places order)[v] < (adj.reachedSets order).size := by
  obtain ⟨c, at_v, _⟩ := h.exists_place v
  rw [h.stored.size]
  exact (List.getElem?_eq_some_iff.mp at_v).1

theorem getD_map_count {sets : Array (BitVec n)} {i : Nat} (lt : i < sets.size) :
    (sets.map count).getD i 0 = count (sets.getD i 0) := by
  simp [lt]

/-- The count of a node is read off the set of its component. -/
theorem Condensation.getElem_reachCounts {order : List (List (Fin n))}
    (h : adj.Condensation order) (v : Fin n) :
    (adj.reachCounts order)[v] = count ((adj.reachedSets order).getD (places order)[v] 0) := by
  rw [← getD_map_count (h.place_lt_size v)]
  simp [reachCounts]

/-- The count of a node is the number of nodes that it reaches, itself included. -/
theorem reachCounts_eq_ncard {order : List (List (Fin n))} (h : adj.Condensation order)
    (v : Fin n) :
    (adj.reachCounts order)[v] = {w | ReflTransGen adj.Arc v w}.ncard := by
  obtain ⟨c, at_v, hv⟩ := h.exists_place v
  rw [h.getElem_reachCounts, count, List.countP_eq_length_filter]
  symm
  apply ncard_eq_length
  · exact (List.nodup_finRange n).filter _
  · intro w
    rw [List.mem_filter]
    have bit := h.stored.reached _ c at_v v hv w
    simpa using bit

/-- An arc leads to a node that reaches no more than its source, and as much only if it leads
back. -/
theorem reachCounts_of_arc {order : List (List (Fin n))} (h : adj.Condensation order)
    {v w : Fin n} (arc : w ∈ adj[v]) :
    (adj.reachCounts order)[w] ≤ (adj.reachCounts order)[v] ∧
      ((adj.reachCounts order)[v] = (adj.reachCounts order)[w] ↔ ReflTransGen adj.Arc w v) := by
  have sub : {x | ReflTransGen adj.Arc w x} ⊆ {x | ReflTransGen adj.Arc v x} := by
    intro x walk
    exact .head arc walk
  rw [reachCounts_eq_ncard h, reachCounts_eq_ncard h]
  refine ⟨Set.ncard_le_ncard sub (Set.toFinite _), ?_, ?_⟩
  · intro same
    have eq := Set.eq_of_subset_of_ncard_le sub same.le (Set.toFinite _)
    have mem : v ∈ {x | ReflTransGen adj.Arc v x} := .refl
    rw [← eq] at mem
    exact mem
  · intro back
    apply le_antisymm _ (Set.ncard_le_ncard sub (Set.toFinite _))
    apply Set.ncard_le_ncard _ (Set.toFinite _)
    intro x walk
    exact back.trans walk

end Adjacency

end Coupling
