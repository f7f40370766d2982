import Coupling.Circuit.Enumeration
import Coupling.Proofs.Bare.Flood
import Coupling.Proofs.Circuit.Trail

/-!
# The circuit search on bare arrays

The search of one start node, with frames that hold a node and the place of its next successor, and
with the circuits written down by the names of their nodes behind those found before. On what a
state of the typed search shows (`Search.bare`) a turn of the loop is a step of the search
(`turn_bare`), so both find the same circuits and stop for the same reason (`run_bare`).
-/

namespace Coupling

open Checked

structure BareRegion where
  rows : Array (Array Nat)
  members : Array Nat
  start : Nat
  allowed : Array Bool

structure BareFrame where
  node : Nat
  next : Nat
  closed : Bool

/-- The innermost frame stands first, and the innermost node of the path last. -/
structure BareSearch where
  frames : List BareFrame
  path : Array Nat
  blocked : Array Bool
  blockedBy : Array (List Nat)
  found : Array (List Nat)

namespace BareSearch

def start (r : BareRegion) (found : Array (List Nat)) : Checked BareSearch := do
  let blocked ← store (Array.replicate r.members.size false) r.start true
  return {
    frames := [⟨r.start, 0, false⟩]
    path := #[r.start]
    blocked
    blockedBy := Array.replicate r.members.size []
    found }

def markClosed : List BareFrame → List BareFrame
  | [] => []
  | f :: outer => { f with closed := true } :: outer

/-- Looks at successor `w` of the innermost node; the search may end with the circuits found and
whether there are no more. -/
def advance (r : BareRegion) (cap : Nat) (s : BareSearch) (w : Nat) :
    Checked (BareSearch ⊕ Array (List Nat) × Bool) := do
  let usable ← fetch r.allowed w
  if usable then
    if w = r.start then
      if s.found.size = cap then return .inr (s.found, false)
      else
        let circuit ← s.path.toList.mapM (fetch r.members)
        return .inl { s with frames := markClosed s.frames, found := s.found.push circuit }
    else
      let held ← fetch s.blocked w
      if held then return .inl s
      else
        let blocked ← store s.blocked w true
        return .inl { s with
          frames := ⟨w, 0, false⟩ :: s.frames
          path := s.path.push w
          blocked }
  else return .inl s

/-- Lets `v` wait for `w` if that is allowed and `v` does not wait for it yet. -/
def await (r : BareRegion) (v : Nat) (blockedBy : Array (List Nat)) (w : Nat) :
    Checked (Array (List Nat)) := do
  let usable ← fetch r.allowed w
  if usable then
    let waiting ← fetch blockedBy w
    if v ∈ waiting then return blockedBy else store blockedBy w (waiting ++ [v])
  else return blockedBy

/-- Leaves the innermost node `v`, whose frame has been taken away. -/
noncomputable def retreat (r : BareRegion) (row : Array Nat) (s : BareSearch) (v : Nat)
    (closed : Bool) : Checked BareSearch :=
  if closed then do
    let (blocked, blockedBy) ← unblock v s.blocked s.blockedBy
    return { s with frames := markClosed s.frames, path := s.path.pop, blocked, blockedBy }
  else do
    let blockedBy ← row.toList.foldlM (await r v) s.blockedBy
    return { s with path := s.path.pop, blockedBy }

/-- Tries the next successor of the innermost node, or leaves that node if there is none. -/
noncomputable def turn (r : BareRegion) (cap : Nat) (s : BareSearch) :
    Checked (BareSearch ⊕ Array (List Nat) × Bool) := do
  match s.frames with
  | [] => return .inr (s.found, true)
  | f :: outer =>
    let row ← fetch r.rows f.node
    match row[f.next]? with
    | some w => advance r cap { s with frames := { f with next := f.next + 1 } :: outer } w
    | none =>
      let s ← retreat r row { s with frames := outer } f.node f.closed
      return .inl s

end BareSearch

variable {k : Nat}

def Region.bare (r : Region k) (names : Vector Nat k) : BareRegion where
  rows := r.adj.bare
  members := names.toArray
  start := r.start
  allowed := r.allowed.toArray

/-- Circuits by the names of their nodes. -/
def namedCircuits (names : Vector Nat k) (circuits : List (List (Fin k))) : Array (List Nat) :=
  (circuits.map fun circuit => circuit.map fun i => names[i]).toArray

namespace Search

variable {r : Region k} {names : Vector Nat k} {base : Array (List Nat)} {cap : Nat}
  {s t : Search k} {v w : Fin k} {pending : List (Fin k)} {closed : Bool} {outer : List (Frame k)}

/-- What the bare arrays hold; the circuits in `base` have been found before. -/
def bare (r : Region k) (names : Vector Nat k) (base : Array (List Nat)) (s : Search k) :
    BareSearch where
  frames := s.frames.map fun f => ⟨f.node, r.adj[f.node].length - f.pending.length, f.closed⟩
  path := (s.path.map Fin.val).toArray
  blocked := s.blocked.toArray
  blockedBy := (queues s.waiting).bareLists
  found := base ++ namedCircuits names s.found.reverse

/-- What a step comes to on bare arrays. -/
def stepBare (r : Region k) (names : Vector Nat k) (base : Array (List Nat)) :
    Step k → BareSearch ⊕ Array (List Nat) × Bool
  | .more t => .inl (t.bare r names base)
  | .full found => .inr (base ++ namedCircuits names found.reverse, false)
  | .done found => .inr (base ++ namedCircuits names found.reverse, true)

theorem markClosed_bare (frames : List (Frame k)) :
    (markClosed frames).map (fun f : Frame k =>
        (⟨f.node, r.adj[f.node].length - f.pending.length, f.closed⟩ : BareFrame)) =
      BareSearch.markClosed (frames.map fun f =>
        ⟨f.node, r.adj[f.node].length - f.pending.length, f.closed⟩) := by
  cases frames <;> rfl

/-- The room that is left is what the circuits found leave of the cap. -/
def Accounted (base : Array (List Nat)) (cap : Nat) (s : Search k) : Prop :=
  base.size + s.found.length + s.room = cap

/-- The circuits found are as many as the cap allows exactly if there is no room left. -/
def Gauged (base : Array (List Nat)) (cap : Nat) (s : Search k) : Prop :=
  base.size + s.found.length = cap ↔ s.room = 0

theorem Accounted.gauged (counted : s.Accounted base cap) : s.Gauged base cap := by
  simp only [Accounted, Gauged] at *
  omega

theorem size_found_bare (gauged : s.Gauged base cap) :
    (s.bare r names base).found.size = cap ↔ s.room = 0 := by
  have size : (s.bare r names base).found.size = base.size + s.found.length := by
    simp [bare, namedCircuits]
  rw [size]
  exact gauged

theorem found_bare_push (names : Vector Nat k) (found : List (List (Fin k)))
    (circuit : List (Fin k)) :
    (base ++ namedCircuits names found.reverse).push (circuit.map fun i => names[i]) =
      base ++ namedCircuits names (circuit :: found).reverse := by
  apply Array.ext'
  simp [namedCircuits]

theorem circuit_bare (names : Vector Nat k) (circuit : List (Fin k)) :
    (circuit.map Fin.val).toArray.toList.mapM (fetch names.toArray) =
      pure (circuit.map fun i => names[i]) := by
  rw [List.toList_toArray, List.mapM_map]
  exact mapM_eq_pure fun i _ => fetch_vector names i

theorem enter_bare (s : Search k) (w : Fin k) :
    (s.enter r w).bare r names base =
      { s.bare r names base with
        frames := ⟨w, 0, false⟩ :: (s.bare r names base).frames
        path := (s.bare r names base).path.push w
        blocked := (s.blocked.set w true w.isLt).toArray } := by
  simp [bare, enter, path, trail]

theorem close_bare (s : Search k) (room : Nat) :
    bare r names base
        { s with frames := markClosed s.frames, found := s.path :: s.found, room } =
      { s.bare r names base with
        frames := BareSearch.markClosed (s.bare r names base).frames
        found := (s.bare r names base).found.push (s.path.map fun i => names[i]) } := by
  simp only [bare, path, trail, map_node_markClosed, markClosed_bare, found_bare_push]

theorem advance_bare (names : Vector Nat k) (gauged : s.Gauged base cap) (w : Fin k) :
    BareSearch.advance (r.bare names) cap (s.bare r names base) w.val =
      pure (stepBare r names base (advance r s w)) := by
  have usable : fetch (r.bare names).allowed w.val = pure r.allowed[w] := fetch_vector r.allowed w
  have held : fetch (s.bare r names base).blocked w.val = pure s.blocked[w] :=
    fetch_vector s.blocked w
  have start_iff : w.val = (r.bare names).start ↔ w = r.start := Fin.val_inj
  have outcome := advanced r s w
  rw [BareSearch.advance, usable, pure_bind]
  generalize advance r s w = next at outcome
  cases outcome with
  | barred ha =>
    rw [ha]
    rfl
  | full ha hs none =>
    rw [ha, if_pos rfl, if_pos (start_iff.mpr hs), if_pos ((size_found_bare gauged).mpr none)]
    rfl
  | close ha hs left =>
    have room : ¬ (s.bare r names base).found.size = cap := by
      rw [size_found_bare gauged, left]
      exact Nat.succ_ne_zero _
    have circuit : (s.bare r names base).path.toList.mapM (fetch (r.bare names).members) =
        pure (s.path.map fun i => names[i]) :=
      circuit_bare names s.path
    rw [ha, if_pos rfl, if_pos (start_iff.mpr hs), if_neg room, circuit, pure_bind, stepBare,
      close_bare]
  | blocked ha hs hb =>
    rw [ha, if_pos rfl, if_neg fun e => hs (start_iff.mp e), held, hb]
    rfl
  | enter ha hs free =>
    have stored : store (s.bare r names base).blocked w.val true =
        pure (s.blocked.set w true w.isLt).toArray :=
      store_vector s.blocked w true
    rw [ha, if_pos rfl, if_neg fun e => hs (start_iff.mp e), held, free, pure_bind, stored,
      stepBare, enter_bare]
    rfl

/-! ## Leaving a node -/

theorem await_bare (r : Region k) (names : Vector Nat k) (v : Fin k) (waiting : Adjacency k)
    (w : Fin k) :
    BareSearch.await (r.bare names) v.val (queues waiting).bareLists w.val =
      pure (queues (if r.allowed[w] then await v waiting w else waiting)).bareLists := by
  have usable : fetch (r.bare names).allowed w.val = pure r.allowed[w] := fetch_vector r.allowed w
  have listed : v.val ∈ waiting[w].reverse.map Fin.val ↔ v ∈ waiting[w] := by
    simp [Fin.val_inj]
  rw [BareSearch.await, usable, pure_bind]
  cases r.allowed[w] with
  | false => rfl
  | true =>
    rw [if_pos rfl, if_pos rfl, Adjacency.fetch_bareLists, pure_bind, getElem_queues]
    by_cases mem : v ∈ waiting[w]
    · have same : await v waiting w = waiting := by
        rw [await, List.insert_of_mem mem]
        exact Vector.set_getElem_self _
      rw [if_pos (listed.mpr mem), same]
    · have longer : queues (await v waiting w) =
          (queues waiting).set w (waiting[w].reverse ++ [v]) w.isLt := by
        rw [await, List.insert_of_not_mem mem, queues, queues, Vector.map_set, List.reverse_cons]
      have stored := (queues waiting).store_bareLists w (waiting[w].reverse ++ [v])
      rw [List.map_append, List.map_singleton] at stored
      rw [if_neg fun e => mem (listed.mp e), stored, longer]

theorem defer_bare (v : Fin k) (s : Search k) :
    (r.adj[v].map Fin.val).foldlM (BareSearch.await (r.bare names) v.val)
        (queues s.waiting).bareLists =
      pure (queues (s.defer r v).waiting).bareLists := by
  have each := foldlM_eq_pure (fun waiting : Adjacency k => (queues waiting).bareLists)
    (await_bare r names v) r.adj[v] s.waiting
  rw [each, defer, List.foldl_filter]

theorem path_pop (frames : s.frames = ⟨v, pending, closed⟩ :: outer) :
    ((s.frames.map Frame.node).reverse.map Fin.val).toArray.pop =
      ((outer.map Frame.node).reverse.map Fin.val).toArray := by
  simp [frames]

theorem retreat_bare (frames : s.frames = ⟨v, [], closed⟩ :: outer) :
    BareSearch.retreat (r.bare names) (r.adj[v].map Fin.val).toArray
        { s.bare r names base with
          frames := (bare r names base { s with frames := outer }).frames } v.val closed =
      pure ((retreat r { s with frames := outer } v closed).bare r names base) := by
  have pop := path_pop frames
  cases closed with
  | true =>
    have released := unblock_bare { s with frames := outer } v
    rw [BareSearch.retreat, if_pos rfl]
    show (BareSearch.unblock v.val s.blocked.toArray (queues s.waiting).bareLists >>= _) = _
    rw [released, pure_bind]
    simp only [bare, path, trail, pop, retreat, if_true, map_node_markClosed, markClosed_bare]
    rfl
  | false =>
    rw [BareSearch.retreat, if_neg Bool.false_ne_true]
    show ((r.adj[v].map Fin.val).foldlM (BareSearch.await (r.bare names) v.val)
      (queues s.waiting).bareLists >>= _) = _
    rw [defer_bare, pure_bind]
    simp only [bare, path, trail, pop, retreat, Bool.false_eq_true, if_false]
    rfl

/-! ## Whole searches -/

theorem Accounted.step (h : s.Accounted base cap) (next : s.step r = .more t) :
    t.Accounted base cap := by
  cases stepped next with
  | pass => exact h
  | close _ _ left =>
    simp only [Accounted, List.length_cons] at *
    omega
  | enter => exact h
  | release => exact h
  | defer => exact h

/-- The innermost frame stands at the successor that has to be tried next. -/
theorem frames_bare (names : Vector Nat k) (base : Array (List Nat))
    (followed : Followed r s.frames)
    (frames : s.frames = ⟨v, pending, closed⟩ :: outer) :
    ∃ tried, r.adj[v] = tried ++ pending ∧ (s.bare r names base).frames =
      ⟨v, tried.length, closed⟩ :: (bare r names base { s with frames := outer }).frames := by
  rw [frames] at followed
  obtain ⟨tried, row⟩ := (List.forall_mem_cons.mp followed).1
  have row : tried ++ pending = r.adj[v] := row
  have position : r.adj[v].length - pending.length = tried.length := by
    rw [← row, List.length_append]
    omega
  refine ⟨tried, row.symm, ?_⟩
  simp only [bare, frames, List.map_cons, position]

theorem turn_retreat (followed : Followed r s.frames)
    (frames : s.frames = ⟨v, [], closed⟩ :: outer) :
    BareSearch.turn (r.bare names) cap (s.bare r names base) =
      pure (.inl ((retreat r { s with frames := outer } v closed).bare r names base)) := by
  obtain ⟨tried, row, shown⟩ := frames_bare names base followed frames
  have fetched : fetch (r.bare names).rows v.val = pure (r.adj[v].map Fin.val).toArray :=
    r.adj.fetch_bare v
  have last : (r.adj[v].map Fin.val).toArray[tried.length]? = none := by
    simp [row]
  rw [BareSearch.turn, shown]
  dsimp only
  rw [fetched, pure_bind, last]
  dsimp only
  rw [retreat_bare frames, pure_bind]

theorem turn_advance (followed : Followed r s.frames) (gauged : s.Gauged base cap)
    (frames : s.frames = ⟨v, w :: pending, closed⟩ :: outer) :
    BareSearch.turn (r.bare names) cap (s.bare r names base) =
      pure (stepBare r names base
        (advance r { s with frames := ⟨v, pending, closed⟩ :: outer } w)) := by
  obtain ⟨tried, row, shown⟩ := frames_bare names base followed frames
  have fetched : fetch (r.bare names).rows v.val = pure (r.adj[v].map Fin.val).toArray :=
    r.adj.fetch_bare v
  have next : (r.adj[v].map Fin.val).toArray[tried.length]? = some w.val := by
    simp [row]
  have position : r.adj[v].length - pending.length = tried.length + 1 := by
    rw [row, List.length_append, List.length_cons]
    omega
  have passed : { s.bare r names base with
      frames := ⟨v.val, tried.length + 1, closed⟩ ::
        (bare r names base { s with frames := outer }).frames } =
      bare r names base { s with frames := ⟨v, pending, closed⟩ :: outer } := by
    simp only [bare, path, trail, frames, List.map_cons, position]
  rw [BareSearch.turn, shown]
  dsimp only
  rw [fetched, pure_bind, next]
  dsimp only
  rw [passed]
  exact advance_bare (s := { s with frames := ⟨v, pending, closed⟩ :: outer }) names gauged w

/-- A turn of the loop over the frames is a step of the search. -/
theorem turn_bare (names : Vector Nat k) (followed : Followed r s.frames)
    (gauged : s.Gauged base cap) :
    BareSearch.turn (r.bare names) cap (s.bare r names base) =
      pure (stepBare r names base (s.step r)) := by
  unfold step
  split
  next frames =>
    have shown : (s.bare r names base).frames = [] := by simp [bare, frames]
    rw [BareSearch.turn, shown]
    rfl
  next v w pending closed outer frames => exact turn_advance followed gauged frames
  next v closed outer frames => exact turn_retreat followed frames

/-- The bare search finds the circuits of the typed one behind those in `base`, and tells whether
these are all. -/
theorem run_bare (sound : Sound r s) (followed : Followed r s.frames)
    (counted : s.Accounted base cap) :
    loop (BareSearch.turn (r.bare names) cap) (s.bare r names base) =
      pure (base ++ namedCircuits names (run r s sound).items, !(run r s sound).truncated) := by
  fun_induction run r s sound with
  | case1 s sound t next ih =>
    have turn := turn_bare names followed counted.gauged
    rw [next] at turn
    rw [loop_again turn]
    exact ih (followed.step next) (counted.step next)
  | case2 s sound found next =>
    have turn := turn_bare names followed counted.gauged
    rw [next] at turn
    exact loop_done turn
  | case3 s sound found next =>
    have turn := turn_bare names followed counted.gauged
    rw [next] at turn
    exact loop_done turn

theorem start_bare (r : Region k) (names : Vector Nat k) (base : Array (List Nat)) (room : Nat) :
    BareSearch.start (r.bare names) base = pure ((Search.start r room).bare r names base) := by
  have size : (r.bare names).members.size = k := Vector.size_toArray names
  have blocked : store (Array.replicate k false) (r.bare names).start true =
      pure ((Vector.replicate k false).set r.start true r.start.isLt).toArray :=
    store_vector (Vector.replicate k false) r.start true
  rw [BareSearch.start, size, blocked, pure_bind]
  simp [bare, Search.start, path, trail, queues, Adjacency.bareLists, namedCircuits, Region.bare]

end Search

theorem Region.circuits_bare (r : Region k) (names : Vector Nat k) (base : Array (List Nat))
    {cap : Nat} (le : base.size ≤ cap) :
    (BareSearch.start (r.bare names) base >>= loop (BareSearch.turn (r.bare names) cap)) =
      pure (base ++ namedCircuits names (r.circuits (cap - base.size)).items,
        !(r.circuits (cap - base.size)).truncated) := by
  have counted : (Search.start r (cap - base.size)).Accounted base cap := by
    simp only [Search.Accounted, Search.start, List.length_nil]
    omega
  rw [Search.start_bare r names base (cap - base.size), pure_bind]
  exact Search.run_bare (Search.Sound.start r _) (Search.followed_start r _) counted

end Coupling
