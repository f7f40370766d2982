import Coupling.Circuit.Blocking
import Coupling.Proofs.Bare.Access

/-!
# Flooding on bare arrays

Two loops of the circuit search walk from node to node until nothing is pending: one finds what a
start node reaches through larger nodes (`reach_bare`), the other releases a node with all that wait
for it (`unblock_bare`). The second one empties a list of waiting nodes as it reads it, and reads
them in the order in which they came; both are immaterial, since no node is pending twice
(`Apart`) and a flood visits the same nodes in any order.
-/

namespace Coupling

open Checked

variable {k : Nat}

/-! ## What a start node reaches -/

namespace BareSearch

/-- Looks at a successor of a node that has been reached. -/
def sight (start : Nat) (state : Array Bool × List Nat) (w : Nat) :
    Checked (Array Bool × List Nat) :=
  if start ≤ w then do
    let seen ← fetch state.1 w
    if seen then return state
    else
      let seen ← store state.1 w true
      return (seen, w :: state.2)
  else return state

/-- Looks at all successors of the node that is the next one pending. -/
def spreadTurn (rows : Array (Array Nat)) (start : Nat) (state : Array Bool × List Nat) :
    Checked ((Array Bool × List Nat) ⊕ Array Bool) :=
  match state.2 with
  | [] => return .inr state.1
  | v :: rest => do
    let row ← fetch rows v
    let next ← row.toList.foldlM (sight start) (state.1, rest)
    return .inl next

noncomputable def reach (rows : Array (Array Nat)) (start : Nat) : Checked (Array Bool) := do
  let seen ← store (Array.replicate rows.size false) start true
  loop (spreadTurn rows start) (seen, [start])

/-- The nodes that a circuit through `start` may use. -/
noncomputable def regionOf (rows back : Array (Array Nat)) (start : Nat) :
    Checked (Array Bool) := do
  let ahead ← reach rows start
  let behind ← reach back start
  return ahead.zipWith (· && ·) behind

end BareSearch

namespace Adjacency

variable {adj : Adjacency k} {start : Fin k} {flags : Vector Bool k}
  {pending visited : List (Fin k)}
  {state : Vector Bool k × List (Fin k)}

/-- The nodes from `start` on whose flags are down. -/
def seenFrom (start : Fin k) (flags : Vector Bool k) : Vector Bool k :=
  Vector.ofFn fun w => start ≤ w && !flags[w]

/-- Flags are raised above `start` only. -/
def RaisedAbove (start : Fin k) (flags : Vector Bool k) : Prop :=
  ∀ w : Fin k, flags[w] = true → start < w

theorem RaisedAbove.mark (h : RaisedAbove start state.1) (w : Fin k) :
    RaisedAbove start (mark state w).1 := by
  intro x raised
  unfold Adjacency.mark at raised
  split at raised
  next => exact h x ((getElem_set_false state.1 w x).mp raised).2
  next => exact h x raised

theorem sight_bare (h : RaisedAbove start state.1) (w : Fin k) :
    BareSearch.sight start.val ((seenFrom start state.1).toArray, state.2.map Fin.val) w.val =
      pure ((seenFrom start (mark state w).1).toArray, (mark state w).2.map Fin.val) := by
  have seen : (seenFrom start state.1)[w] = (decide (start ≤ w) && !state.1[w]) := by
    simp [seenFrom]
  rw [BareSearch.sight, mark]
  by_cases above : start ≤ w
  · have above' : start.val ≤ w.val := above
    rw [if_pos above', fetch_vector, pure_bind, seen]
    cases raised : state.1[w] with
    | true =>
      have marked : (seenFrom start state.1).set w true w.isLt =
          seenFrom start (state.1.set w false w.isLt) := by
        apply Vector.ext
        intro i hi
        rw [Vector.getElem_set]
        simp only [seenFrom, Vector.getElem_ofFn, getElem_fin, Vector.getElem_set]
        by_cases here : w.val = i
        · subst here
          simp [above]
        · simp [here]
      simp [above, marked]
    | false => simp [above]
  · have above' : ¬ start.val ≤ w.val := above
    have lowered : ¬ state.1[w] = true := by
      intro raised
      have := h w raised
      omega
    rw [if_neg above', if_neg lowered]

theorem foldlM_sight_bare (state : Vector Bool k × List (Fin k))
    (h : RaisedAbove start state.1) (row : List (Fin k)) :
    (row.map Fin.val).foldlM (BareSearch.sight start.val)
        ((seenFrom start state.1).toArray, state.2.map Fin.val) =
      pure ((seenFrom start (row.foldl mark state).1).toArray,
        (row.foldl mark state).2.map Fin.val) ∧
      RaisedAbove start (row.foldl mark state).1 := by
  induction row generalizing state with
  | nil => exact ⟨rfl, h⟩
  | cons w row ih =>
    rw [List.map_cons, List.foldlM_cons, sight_bare h, pure_bind, List.foldl_cons]
    exact ih _ (h.mark w)

theorem spread_bare (pending : List (Fin k)) (h : RaisedAbove start flags) :
    loop (BareSearch.spreadTurn adj.bare start.val)
        ((seenFrom start flags).toArray, pending.map Fin.val) =
      pure (seenFrom start (adj.flood flags pending visited).1).toArray := by
  fun_induction flood adj flags pending visited with
  | case1 flags visited => exact loop_done rfl
  | case2 flags visited v rest next ih =>
    obtain ⟨sighted, raised⟩ := foldlM_sight_bare (flags, rest) h adj[v]
    have turn : BareSearch.spreadTurn adj.bare start.val
        ((seenFrom start flags).toArray, (v :: rest).map Fin.val) =
          pure (.inl ((seenFrom start next.1).toArray, next.2.map Fin.val)) := by
      rw [BareSearch.spreadTurn, List.map_cons]
      dsimp only
      rw [fetch_bare, pure_bind, List.toList_toArray, sighted, pure_bind]
    rw [loop_again turn]
    exact ih raised

theorem reach_bare (adj : Adjacency k) (start : Fin k) :
    BareSearch.reach adj.bare start.val =
      pure (seenFrom start
        (adj.flood (Vector.ofFn fun v => decide (start < v)) [start] []).1).toArray := by
  have raised : RaisedAbove start (Vector.ofFn fun v => decide (start < v)) := by
    intro w raised
    simpa using raised
  have begin : (Vector.replicate k false).set start true start.isLt =
      seenFrom start (Vector.ofFn fun v => decide (start < v)) := by
    apply Vector.ext
    intro i hi
    simp only [Vector.getElem_set, seenFrom, Vector.getElem_ofFn, getElem_fin,
      Vector.getElem_replicate]
    by_cases here : start.val = i
    · simp [Fin.lt_def, Fin.le_def, here]
    · simp [Fin.lt_def, Fin.le_def, here]
      omega
  have stored := store_vector (Vector.replicate k false) start true
  rw [BareSearch.reach, size_bare]
  show (store (Vector.replicate k false).toArray start.val true >>= _) = _
  rw [stored, pure_bind, begin]
  exact spread_bare [start] raised

theorem regionOf_bare (adj back : Adjacency k) (start : Fin k) :
    BareSearch.regionOf adj.bare back.bare start.val =
      pure (Region.ofStart adj back start).allowed.toArray := by
  rw [BareSearch.regionOf, reach_bare, pure_bind, reach_bare, pure_bind]
  have both : Vector.zipWith (· && ·)
      (seenFrom start (adj.flood (Vector.ofFn fun v => decide (start < v)) [start] []).1)
      (seenFrom start (back.flood (Vector.ofFn fun v => decide (start < v)) [start] []).1) =
        (Region.ofStart adj back start).allowed := by
    apply Vector.ext
    intro i hi
    simp only [Vector.getElem_zipWith, seenFrom, Region.ofStart, Vector.getElem_ofFn]
    by_cases above : start ≤ ⟨i, hi⟩ <;> simp [above]
  rw [← Vector.toArray_zipWith, both]

end Adjacency

/-! ## Releasing a node -/

namespace BareSearch

def unblockOne (state : Array Bool × List Nat) (w : Nat) : Checked (Array Bool × List Nat) := do
  let blocked ← fetch state.1 w
  if blocked then
    let flags ← store state.1 w false
    return (flags, w :: state.2)
  else return state

/-- Releases what waits for the node that is the next one pending. -/
def drainTurn (state : (Array Bool × Array (List Nat)) × List Nat) :
    Checked (((Array Bool × Array (List Nat)) × List Nat) ⊕ Array Bool × Array (List Nat)) :=
  match state.2 with
  | [] => return .inr state.1
  | u :: rest => do
    let waiting ← fetch state.1.2 u
    let blockedBy ← store state.1.2 u []
    let next ← waiting.foldlM unblockOne (state.1.1, rest)
    return .inl ((next.1, blockedBy), next.2)

noncomputable def unblock (v : Nat) (blocked : Array Bool) (blockedBy : Array (List Nat)) :
    Checked (Array Bool × Array (List Nat)) := do
  let blocked ← store blocked v false
  loop drainTurn ((blocked, blockedBy), [v])

end BareSearch

namespace Adjacency

variable {adj : Adjacency k} {flags : Vector Bool k} {pending visited : List (Fin k)}
  {state : Vector Bool k × List (Fin k)}

/-- Lists of nodes as lists of numbers. -/
def bareLists (adj : Adjacency k) : Array (List Nat) := (adj.map fun row => row.map Fin.val).toArray

@[simp] theorem fetch_bareLists (adj : Adjacency k) (v : Fin k) :
    fetch adj.bareLists v.val = pure (adj[v].map Fin.val) := by
  rw [bareLists, fetch_vector]
  simp

@[simp] theorem store_bareLists (adj : Adjacency k) (v : Fin k) (row : List (Fin k)) :
    store adj.bareLists v.val (row.map Fin.val) = pure (bareLists (adj.set v row v.isLt)) := by
  rw [bareLists, bareLists, store_vector, Vector.map_set]

theorem unblockOne_bare (state : Vector Bool k × List (Fin k)) (w : Fin k) :
    BareSearch.unblockOne (state.1.toArray, state.2.map Fin.val) w.val =
      pure ((mark state w).1.toArray, (mark state w).2.map Fin.val) := by
  rw [BareSearch.unblockOne, fetch_vector, pure_bind, mark]
  cases state.1[w] with
  | true => simp
  | false => simp

/-- No node is pending or visited twice, and the flags of these nodes are down. -/
structure Apart (flags : Vector Bool k) (pending visited : List (Fin k)) : Prop where
  nodup : (pending ++ visited).Nodup
  lowered : ∀ w ∈ pending ++ visited, flags[w] = false

theorem Apart.mark (h : Apart state.1 state.2 visited) (w : Fin k) :
    Apart (mark state w).1 (mark state w).2 visited := by
  unfold Adjacency.mark
  split
  next raised =>
    have off : w ∉ state.2 ++ visited := by
      intro mem
      rw [h.lowered w mem] at raised
      cases raised
    refine ⟨List.nodup_cons.mpr ⟨off, h.nodup⟩, ?_⟩
    intro x mem
    rw [getElem_set_fin]
    split
    · rfl
    next ne =>
      exact h.lowered x ((List.mem_cons.mp mem).resolve_left fun e => ne e.symm)
  next => exact h

theorem Apart.foldl_mark (state : Vector Bool k × List (Fin k))
    (h : Apart state.1 state.2 visited) (row : List (Fin k)) :
    Apart (row.foldl Adjacency.mark state).1 (row.foldl Adjacency.mark state).2 visited := by
  induction row generalizing state with
  | nil => exact h
  | cons w row ih => exact ih _ (h.mark w)

theorem Apart.visit {v : Fin k} (h : Apart flags (v :: pending) visited) :
    Apart flags pending (v :: visited) := by
  have moved : (v :: pending ++ visited).Perm (pending ++ v :: visited) := List.perm_middle.symm
  exact ⟨moved.nodup_iff.mp h.nodup, fun w mem => h.lowered w (moved.mem_iff.mpr mem)⟩

/-- The lists that are left when those of some nodes have been emptied. -/
def cleared (adj : Adjacency k) (nodes : List (Fin k)) : Adjacency k :=
  nodes.foldr (fun v rest => Search.clear rest v) adj

theorem getElem_cleared (adj : Adjacency k) (nodes : List (Fin k)) (w : Fin k) :
    (w ∈ nodes → (adj.cleared nodes)[w] = []) ∧ (w ∉ nodes → (adj.cleared nodes)[w] = adj[w]) := by
  induction nodes with
  | nil => exact ⟨fun mem => absurd mem List.not_mem_nil, fun _ => rfl⟩
  | cons v nodes ih =>
    have step : (adj.cleared (v :: nodes))[w] = if v = w then [] else (adj.cleared nodes)[w] :=
      getElem_set_fin _ _ _ _
    rw [step, List.mem_cons, not_or]
    by_cases here : v = w
    · subst here
      simp
    · rw [if_neg here]
      exact ⟨fun mem => ih.1 (mem.resolve_left fun e => here e.symm), fun off => ih.2 off.2⟩

/-- A turn visits the next pending node and empties its list. -/
theorem drainTurn_bare {v : Fin k} {rest : List (Fin k)}
    (apart : Apart flags (v :: rest) visited) :
    BareSearch.drainTurn
        ((flags.toArray, bareLists (adj.cleared visited)), (v :: rest).map Fin.val) =
      pure (.inl (((adj[v].foldl mark (flags, rest)).1.toArray,
        bareLists (adj.cleared (v :: visited))),
          (adj[v].foldl mark (flags, rest)).2.map Fin.val)) := by
  have off : v ∉ visited := by
    intro mem
    exact (List.nodup_cons.mp apart.nodup).1 (List.mem_append_right _ mem)
  have row : (adj.cleared visited)[v] = adj[v] := (adj.getElem_cleared visited v).2 off
  have emptied : store (bareLists (adj.cleared visited)) v.val [] =
      pure (bareLists (adj.cleared (v :: visited))) :=
    store_bareLists (adj.cleared visited) v []
  have released := foldlM_eq_pure (fun state : Vector Bool k × List (Fin k) =>
    (state.1.toArray, state.2.map Fin.val)) unblockOne_bare adj[v] (flags, rest)
  rw [BareSearch.drainTurn, List.map_cons]
  dsimp only
  rw [fetch_bareLists, pure_bind, row, emptied, pure_bind, released, pure_bind]

theorem Apart.next {v : Fin k} {rest : List (Fin k)} (h : Apart flags (v :: rest) visited) :
    Apart (adj[v].foldl Adjacency.mark (flags, rest)).1
      (adj[v].foldl Adjacency.mark (flags, rest)).2 (v :: visited) :=
  .foldl_mark (flags, rest) h.visit adj[v]

theorem drain_bare (pending : List (Fin k)) (apart : Apart flags pending visited) :
    loop BareSearch.drainTurn
        ((flags.toArray, bareLists (adj.cleared visited)), pending.map Fin.val) =
      pure ((adj.flood flags pending visited).1.toArray,
        bareLists (adj.cleared (adj.flood flags pending visited).2)) := by
  fun_induction flood adj flags pending visited with
  | case1 flags visited => exact loop_done rfl
  | case2 flags visited v rest next ih =>
    rw [loop_again (drainTurn_bare apart)]
    exact ih apart.next

theorem Reached.of_subset {adj' : Adjacency k} {roots : List (Fin k)}
    (same : ∀ v w : Fin k, w ∈ adj[v] → w ∈ adj'[v]) {w : Fin k} (h : Reached adj flags roots w) :
    Reached adj' flags roots w := by
  induction h with
  | root h => exact .root h
  | step _ arc raised ih => exact .step ih (same _ _ arc) raised

end Adjacency

namespace Search

/-- The waiting nodes in the order in which they came. -/
def queues (waiting : Adjacency k) : Adjacency k := waiting.map List.reverse

@[simp] theorem getElem_queues (waiting : Adjacency k) (v : Fin k) :
    (queues waiting)[v] = waiting[v].reverse := by
  simp [queues]

theorem mem_queues (waiting : Adjacency k) (v w : Fin k) :
    w ∈ (queues waiting)[v] ↔ w ∈ waiting[v] := by
  rw [getElem_queues, List.mem_reverse]

theorem waiting_release (s : Search k) (v w : Fin k) :
    (s.Freed v w → (s.release v).waiting[w] = []) ∧
      (¬ s.Freed v w → (s.release v).waiting[w] = s.waiting[w]) := by
  have visits := Adjacency.mem_flood_iff s.waiting _ [v] (lowered s.blocked v) w
  have waiting : (s.release v).waiting =
      s.waiting.cleared (s.waiting.flood (s.blocked.set v false v.isLt) [v] []).2.reverse := by
    rw [Adjacency.cleared, List.foldr_reverse]
    rfl
  obtain ⟨emptied, kept⟩ := s.waiting.getElem_cleared
    (s.waiting.flood (s.blocked.set v false v.isLt) [v] []).2.reverse w
  rw [List.mem_reverse, visits] at emptied kept
  rw [waiting]
  exact ⟨emptied, kept⟩

theorem apart_lowered (blocked : Vector Bool k) (v : Fin k) :
    Adjacency.Apart (blocked.set v false v.isLt) [v] [] := by
  refine ⟨by simp, ?_⟩
  intro w mem
  exact lowered blocked v w (by simpa using mem)

/-- The release of a node comes to the same whatever the order in which nodes wait. -/
theorem unblock_bare (s : Search k) (v : Fin k) :
    BareSearch.unblock v.val s.blocked.toArray (queues s.waiting).bareLists =
      pure ((s.release v).blocked.toArray, (queues (s.release v).waiting).bareLists) := by
  have reached : ∀ w, Adjacency.Reached (queues s.waiting) (s.blocked.set v false v.isLt) [v] w ↔
      s.Freed v w := by
    intro w
    constructor
    · exact Adjacency.Reached.of_subset fun x y => (mem_queues s.waiting x y).mp
    · exact Adjacency.Reached.of_subset fun x y => (mem_queues s.waiting x y).mpr
  have flags : ((queues s.waiting).flood (s.blocked.set v false v.isLt) [v] []).1 =
      (s.release v).blocked := by
    apply vector_ext
    intro w
    have left := Adjacency.flood_flag (queues s.waiting) _ [v] (lowered s.blocked v) w
    have right := Adjacency.flood_flag s.waiting _ [v] (lowered s.blocked v) w
    rw [reached] at left
    exact Bool.eq_iff_iff.mpr (left.trans right.symm)
  have lists : (queues s.waiting).cleared
      ((queues s.waiting).flood (s.blocked.set v false v.isLt) [v] []).2 =
        queues (s.release v).waiting := by
    apply vector_ext
    intro w
    have visits := Adjacency.mem_flood_iff (queues s.waiting) _ [v] (lowered s.blocked v) w
    rw [reached] at visits
    obtain ⟨emptied, kept⟩ := (queues s.waiting).getElem_cleared
      ((queues s.waiting).flood (s.blocked.set v false v.isLt) [v] []).2 w
    obtain ⟨emptied', kept'⟩ := waiting_release s v w
    by_cases freed : s.Freed v w
    · rw [emptied (visits.mpr freed), getElem_queues, emptied' freed, List.reverse_nil]
    · rw [kept fun mem => freed (visits.mp mem), getElem_queues, getElem_queues, kept' freed]
  rw [BareSearch.unblock, store_vector, pure_bind, ← flags, ← lists]
  exact Adjacency.drain_bare [v] (apart_lowered s.blocked v)

end Search

end Coupling
