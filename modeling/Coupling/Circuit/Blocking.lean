import Coupling.Circuit.Region

/-!
# The path of the circuit search stays simple

Releasing a node must not unblock a node that is still on the path, although waiting lists keep
entries of nodes that have since been freed and entered again. `Chain` describes how a release
could travel; `Sound` holds of every state the search can be in and says that no chain leads from
a node of the path to a node further out. `Sound.step` says that a step keeps it and lowers
`Search.weight`, so the search ends.
-/

namespace Coupling

variable {k : Nat}

/-- A release of the first node would travel to the second through waiting nodes off the trail. -/
inductive Chain (waiting : Adjacency k) (trail : List (Fin k)) : Fin k → Fin k → Prop where
  | direct {u t : Fin k} (h : t ∈ waiting[u]) : Chain waiting trail u t
  | via {u x t : Fin k} (h : x ∈ waiting[u]) (off : x ∉ trail) (rest : Chain waiting trail x t) :
    Chain waiting trail u t

theorem Chain.of_cons {waiting : Adjacency k} {trail : List (Fin k)} {w u t : Fin k}
    (h : Chain waiting (w :: trail) u t) : Chain waiting trail u t := by
  induction h with
  | direct h => exact .direct h
  | via h off _ ih => exact .via h (fun hx => off (List.mem_cons_of_mem _ hx)) ih

theorem Chain.exists_waiting {waiting : Adjacency k} {trail : List (Fin k)} {u t : Fin k}
    (h : Chain waiting trail u t) : ∃ x, x ∈ waiting[u] := by
  cases h with
  | direct h => exact ⟨_, h⟩
  | via h => exact ⟨_, h⟩

namespace Search

theorem mem_foldl_clear (freed : List (Fin k)) (waiting : Adjacency k) (w u : Fin k) :
    u ∈ (freed.foldl clear waiting)[w] ↔ u ∈ waiting[w] ∧ w ∉ freed := by
  induction freed generalizing waiting with
  | nil => simp
  | cons x freed ih =>
    rw [List.foldl_cons, ih, clear, Adjacency.getElem_set_fin]
    by_cases hx : x = w
    · simp [hx]
    · simp [hx, Ne.symm hx]

theorem mem_foldl_await (v : Fin k) (l : List (Fin k)) (waiting : Adjacency k) (w u : Fin k) :
    u ∈ (l.foldl (await v) waiting)[w] ↔ u ∈ waiting[w] ∨ (u = v ∧ w ∈ l) := by
  induction l generalizing waiting with
  | nil => simp
  | cons x l ih =>
    rw [List.foldl_cons, ih, await, Adjacency.getElem_set_fin]
    by_cases hx : x = w
    · subst hx
      simp only [↓reduceIte, List.mem_insert_iff, List.mem_cons, true_or, and_true]
      constructor
      · rintro ((h | h) | h)
        · exact Or.inr h
        · exact Or.inl h
        · exact Or.inr h.1
      · rintro (h | h)
        · exact Or.inl (Or.inr h)
        · exact Or.inl (Or.inl h)
    · simp [hx, Ne.symm hx]

/-- From the innermost frame outwards up to the first one that has closed a circuit, all allowed
successors already tried are blocked. -/
def Settled (r : Region k) (blocked : Vector Bool k) : List (Frame k) → Prop
  | [] => True
  | f :: outer =>
    f.closed = true ∨
      ((∃ tried, r.adj[f.node] = tried ++ f.pending ∧
          ∀ w ∈ tried, r.allowed[w] = true → blocked[w] = true) ∧
        Settled r blocked outer)

structure Sound (r : Region k) (s : Search k) : Prop where
  nodup : s.trail.Nodup
  blocked : ∀ v ∈ s.trail, s.blocked[v] = true
  waiting : ∀ w u : Fin k, u ∈ s.waiting[w] → s.blocked[w] = true
  settled : Settled r s.blocked s.frames
  unlinked : s.trail.Pairwise fun u t => ¬ Chain s.waiting s.trail u t

theorem Settled.mono {r : Region k} {blocked blocked' : Vector Bool k} {frames : List (Frame k)}
    (h : Settled r blocked frames) (le : ∀ w : Fin k, blocked[w] = true → blocked'[w] = true) :
    Settled r blocked' frames := by
  induction frames with
  | nil => trivial
  | cons f outer ih =>
    rcases h with h | ⟨⟨tried, split, h⟩, rest⟩
    · exact Or.inl h
    · exact Or.inr ⟨⟨tried, split, fun w hw ha => le w (h w hw ha)⟩, ih rest⟩

theorem Settled.pass {r : Region k} {blocked : Vector Bool k} {v w : Fin k}
    {pending : List (Fin k)} {closed : Bool} {outer : List (Frame k)}
    (h : Settled r blocked (⟨v, w :: pending, closed⟩ :: outer))
    (skip : r.allowed[w] = true → blocked[w] = true) :
    Settled r blocked (⟨v, pending, closed⟩ :: outer) := by
  rcases h with h | ⟨⟨tried, split, h⟩, rest⟩
  · exact Or.inl h
  · refine Or.inr ⟨⟨tried ++ [w], by simpa using split, ?_⟩, rest⟩
    intro x hx
    rcases List.mem_append.mp hx with hx | hx
    · exact h x hx
    · rw [List.mem_singleton.mp hx]
      exact skip

theorem settled_markClosed (r : Region k) (blocked : Vector Bool k) (frames : List (Frame k)) :
    Settled r blocked (markClosed frames) := by
  cases frames with
  | nil => trivial
  | cons f outer => exact Or.inl rfl

theorem map_node_markClosed (frames : List (Frame k)) :
    (markClosed frames).map Frame.node = frames.map Frame.node := by
  cases frames <;> rfl

theorem Sound.start (r : Region k) (room : Nat) : Sound r (start r room) where
  nodup := by simp [trail, Search.start]
  blocked v hv := by
    have hv : v = r.start := by simpa [trail, Search.start] using hv
    subst hv
    rw [Search.start, Adjacency.getElem_set_fin, if_pos rfl]
  waiting w u h := by simp [Search.start] at h
  settled := Or.inr ⟨⟨[], by simp, by simp⟩, trivial⟩
  unlinked := by simp [trail, Search.start]

section Steps

variable {r : Region k} {s : Search k} {v w : Fin k} {pending : List (Fin k)} {closed : Bool}
  {outer : List (Frame k)}

theorem trail_cons (frames : s.frames = ⟨v, pending, closed⟩ :: outer) :
    s.trail = v :: outer.map Frame.node := by
  simp [trail, frames]

/-- Passing over a successor that is not allowed or that is blocked. -/
theorem Sound.pass (h : Sound r s) (frames : s.frames = ⟨v, w :: pending, closed⟩ :: outer)
    (skip : r.allowed[w] = true → s.blocked[w] = true) :
    Sound r { s with frames := ⟨v, pending, closed⟩ :: outer } := by
  have trail : { s with frames := ⟨v, pending, closed⟩ :: outer : Search k }.trail = s.trail := by
    simp [trail, frames]
  have settled := h.settled
  rw [frames] at settled
  refine ⟨by rw [trail]; exact h.nodup, by rw [trail]; exact h.blocked, h.waiting,
    settled.pass skip, ?_⟩
  rw [trail]
  exact h.unlinked

/-- Closing a circuit at the innermost node. -/
theorem Sound.close (h : Sound r s) (frames : s.frames = ⟨v, w :: pending, closed⟩ :: outer)
    (found : List (List (Fin k))) (room : Nat) :
    Sound r { s with frames := ⟨v, pending, true⟩ :: outer, found, room } := by
  let t : Search k := { s with frames := ⟨v, pending, true⟩ :: outer, found, room }
  have trail : t.trail = s.trail := by simp [t, trail, frames]
  refine ⟨?_, ?_, h.waiting, Or.inl rfl, ?_⟩
  · exact trail ▸ h.nodup
  · exact trail ▸ h.blocked
  · have := h.unlinked
    rw [← trail] at this
    exact this

theorem Sound.not_mem_trail (h : Sound r s) (free : s.blocked[w] = false) : w ∉ s.trail := by
  intro hw
  rw [h.blocked w hw] at free
  cases free

theorem blocked_enter (r : Region k) (s : Search k) (w x : Fin k) :
    (s.enter r w).blocked[x] = true ↔ w = x ∨ s.blocked[x] = true :=
  Adjacency.getElem_set_true s.blocked w x

theorem trail_enter (frames : s.frames = ⟨v, w :: pending, closed⟩ :: outer) :
    ({ s with frames := ⟨v, pending, closed⟩ :: outer }.enter r w).trail = w :: s.trail := by
  simp [trail, enter, frames]

/-- Entering a successor that is not blocked; the frame before it has just passed over it. -/
theorem Sound.enter (h : Sound r s) (frames : s.frames = ⟨v, w :: pending, closed⟩ :: outer)
    (free : s.blocked[w] = false) :
    Sound r ({ s with frames := ⟨v, pending, closed⟩ :: outer }.enter r w) := by
  have flag := blocked_enter r { s with frames := ⟨v, pending, closed⟩ :: outer } w
  have settled := h.settled.mono fun x hx => (flag x).mpr (Or.inr hx)
  rw [frames] at settled
  refine ⟨?_, ?_, ?_, Or.inr ⟨⟨[], rfl, by simp⟩, ?_⟩, ?_⟩
  · rw [trail_enter frames]
    exact List.nodup_cons.mpr ⟨h.not_mem_trail free, h.nodup⟩
  · rw [trail_enter frames]
    intro x hx
    rw [flag]
    rcases List.mem_cons.mp hx with rfl | hx
    · exact Or.inl rfl
    · exact Or.inr (h.blocked x hx)
  · intro x u hu
    exact (flag x).mpr (Or.inr (h.waiting x u hu))
  · exact settled.pass fun _ => (flag w).mpr (Or.inl rfl)
  · rw [trail_enter frames]
    apply List.pairwise_cons.mpr
    constructor
    · intro t _ chain
      obtain ⟨x, hx⟩ := chain.exists_waiting
      rw [h.waiting w x hx] at free
      cases free
    · exact h.unlinked.imp fun unlinked chain => unlinked chain.of_cons

/-- What a release of `v` unblocks. -/
def Freed (s : Search k) (v : Fin k) : Fin k → Prop :=
  Adjacency.Reached s.waiting (s.blocked.set v false v.isLt) [v]

theorem freed_self (s : Search k) (v : Fin k) : s.Freed v v := .root List.mem_cons_self

theorem Freed.waiting {x y : Fin k} (h : s.Freed v y) (mem : x ∈ s.waiting[y])
    (hx : s.blocked[x] = true) : s.Freed v x := by
  by_cases hv : x = v
  · exact hv ▸ s.freed_self v
  · exact .step h mem ((Adjacency.getElem_set_false _ _ _).mpr ⟨Ne.symm hv, hx⟩)

theorem lowered (blocked : Vector Bool k) (v : Fin k) :
    ∀ u ∈ [v], (blocked.set v false v.isLt)[u] = false := by
  intro u hu
  rw [List.mem_singleton.mp hu, Adjacency.getElem_set_fin, if_pos rfl]

theorem blocked_release (s : Search k) (v x : Fin k) :
    (s.release v).blocked[x] = true ↔ s.blocked[x] = true ∧ ¬ s.Freed v x := by
  have flag : (s.release v).blocked[x] = true ↔
      (s.blocked.set v false v.isLt)[x] = true ∧ ¬ s.Freed v x :=
    Adjacency.flood_flag _ _ _ (lowered s.blocked v) x
  rw [flag, Adjacency.getElem_set_false]
  constructor
  · intro h
    exact ⟨h.1.2, h.2⟩
  · intro h
    have ne : v ≠ x := by
      intro eq
      exact h.2 (eq ▸ s.freed_self v)
    exact ⟨⟨ne, h.1⟩, h.2⟩

theorem mem_waiting_release (s : Search k) (v x u : Fin k) :
    u ∈ (s.release v).waiting[x] ↔ u ∈ s.waiting[x] ∧ ¬ s.Freed v x := by
  rw [Freed, ← Adjacency.mem_flood_iff _ _ _ (lowered s.blocked v)]
  exact mem_foldl_clear _ s.waiting x u

theorem mem_waiting_defer (r : Region k) (s : Search k) (v x u : Fin k) :
    u ∈ (s.defer r v).waiting[x] ↔
      u ∈ s.waiting[x] ∨ (u = v ∧ x ∈ r.adj[v] ∧ r.allowed[x] = true) := by
  change u ∈ ((r.adj[v].filter fun w => r.allowed[w]).foldl (await v) s.waiting)[x] ↔ _
  rw [mem_foldl_await, List.mem_filter]

/-- What a release of the innermost node reaches lies off the rest of the trail. -/
theorem Sound.reached (h : Sound r s) (frames : s.frames = ⟨v, pending, closed⟩ :: outer)
    {x : Fin k} (hx : s.Freed v x) :
    x ∉ outer.map Frame.node ∧
      ∀ t, Chain s.waiting s.trail x t → Chain s.waiting s.trail v t := by
  have trail := trail_cons frames
  have nodup := h.nodup
  have unlinked := h.unlinked
  rw [trail, List.nodup_cons] at nodup
  have outside : ∀ t ∈ outer.map Frame.node, ¬ Chain s.waiting s.trail v t := by
    rw [trail, List.pairwise_cons, ← trail] at unlinked
    exact unlinked.1
  induction hx with
  | root hr =>
    rw [List.mem_singleton.mp hr]
    exact ⟨nodup.1, fun _ chain => chain⟩
  | @step y x _ arc _ ih =>
    have off : x ∉ outer.map Frame.node := fun hx => outside x hx (ih.2 x (.direct arc))
    refine ⟨off, fun t chain => ?_⟩
    by_cases hxv : x = v
    · rw [← hxv]
      exact chain
    · refine ih.2 t (.via arc ?_ chain)
      rw [trail]
      exact List.not_mem_cons_of_ne_of_not_mem hxv off

/-- A chain after a release was there before it. -/
theorem chain_of_release (frames : s.frames = ⟨v, pending, closed⟩ :: outer) {x y : Fin k}
    (chain : Chain (s.release v).waiting (outer.map Frame.node) x y) :
    Chain s.waiting s.trail x y := by
  induction chain with
  | direct h => exact .direct ((mem_waiting_release _ _ _ _).mp h).1
  | @via u z y h off rest ih =>
    apply Chain.via ((mem_waiting_release _ _ _ _).mp h).1 _ ih
    rw [trail_cons frames]
    apply List.not_mem_cons_of_ne_of_not_mem _ off
    intro eq
    obtain ⟨q, hq⟩ := rest.exists_waiting
    exact ((mem_waiting_release _ _ _ _).mp hq).2 (eq ▸ s.freed_self z)

theorem Sound.release (h : Sound r s) (frames : s.frames = ⟨v, pending, closed⟩ :: outer) :
    Sound r { s.release v with frames := markClosed outer } := by
  let t : Search k := { s.release v with frames := markClosed outer }
  have trail := trail_cons frames
  have nodup := h.nodup
  have unlinked := h.unlinked
  rw [trail, List.nodup_cons] at nodup
  have newTrail : t.trail = outer.map Frame.node := map_node_markClosed outer
  refine ⟨?_, ?_, ?_, settled_markClosed r _ _, ?_⟩
  · rw [newTrail]
    exact nodup.2
  · rw [newTrail]
    intro x hx
    have blocked := h.blocked x (trail ▸ List.mem_cons_of_mem _ hx)
    exact (blocked_release s v x).mpr ⟨blocked, fun hr => (h.reached frames hr).1 hx⟩
  · intro x u hu
    obtain ⟨hu, hr⟩ := (mem_waiting_release s v x u).mp hu
    exact (blocked_release s v x).mpr ⟨h.waiting x u hu, hr⟩
  · rw [trail, List.pairwise_cons, ← trail] at unlinked
    rw [newTrail]
    exact unlinked.2.imp fun unlinked chain => unlinked (chain_of_release frames chain)

/-- A chain that does not end at the node left was there before, from its first node or from the
node left. -/
theorem chain_of_defer (frames : s.frames = ⟨v, [], false⟩ :: outer) {x y : Fin k}
    (chain : Chain ({ s with frames := outer }.defer r v).waiting (outer.map Frame.node) x y)
    (hy : y ≠ v) : Chain s.waiting s.trail x y ∨ Chain s.waiting s.trail v y := by
  have waiting := mem_waiting_defer r { s with frames := outer } v
  induction chain with
  | direct h => exact Or.inl (.direct (((waiting _ _).mp h).resolve_right fun hv => hy hv.1))
  | @via u z y h off _ ih =>
    rcases ih hy with old | old
    · by_cases hz : z = v
      · exact Or.inr (hz ▸ old)
      · have old_arc := ((waiting _ _).mp h).resolve_right fun hv => hz hv.1
        have old_off : z ∉ s.trail := by
          rw [trail_cons frames]
          exact List.not_mem_cons_of_ne_of_not_mem hz off
        exact Or.inl (.via old_arc old_off old)
    · exact Or.inr old

theorem Sound.defer (h : Sound r s) (frames : s.frames = ⟨v, [], false⟩ :: outer) :
    Sound r ({ s with frames := outer }.defer r v) := by
  let t : Search k := { s with frames := outer }.defer r v
  have trail := trail_cons frames
  have nodup := h.nodup
  have unlinked := h.unlinked
  have settled := h.settled
  rw [trail, List.nodup_cons] at nodup
  rw [trail, List.pairwise_cons, ← trail] at unlinked
  rw [frames] at settled
  obtain ⟨⟨tried, split, tried_blocked⟩, rest⟩ := settled.resolve_left (by simp)
  have newTrail : t.trail = outer.map Frame.node := rfl
  refine ⟨nodup.2, ?_, ?_, rest, ?_⟩
  · intro x hx
    exact h.blocked x (trail ▸ List.mem_cons_of_mem _ hx)
  · intro x u hu
    rcases (mem_waiting_defer r { s with frames := outer } v x u).mp hu with hu | ⟨_, hx, ha⟩
    · exact h.waiting x u hu
    · rw [split, List.append_nil] at hx
      exact tried_blocked x hx ha
  · have key := unlinked.2
    rw [List.pairwise_iff_forall_sublist] at key
    rw [newTrail, List.pairwise_iff_forall_sublist]
    intro x y sub chain
    have hy : y ∈ outer.map Frame.node := sub.subset (by simp)
    have ne : y ≠ v := by
      intro eq
      exact nodup.1 (eq ▸ hy)
    rcases chain_of_defer frames chain ne with old | old
    · exact key sub old
    · exact unlinked.1 y hy old

end Steps

/-- Beyond the number of successors of any node. -/
def base (r : Region k) : Nat := r.adj.toList.flatten.length + 2

/-- What an arc weighs that leaves `height` nodes above the innermost node a trail can have. -/
def arcWeight (r : Region k) : Nat → Nat
  | 0 => 1
  | height + 1 => base r * arcWeight r height

/-- The weight of all arcs that are still pending, one more for each node. -/
def weightOf (r : Region k) : List (Frame k) → Nat
  | [] => 0
  | f :: outer => (f.pending.length + 1) * arcWeight r (k - (outer.length + 1)) + weightOf r outer

/-- An upper bound for the steps that remain: a node that is entered adds less than its
predecessor loses by having passed over it. -/
def weight (r : Region k) (s : Search k) : Nat := weightOf r s.frames

theorem arcWeight_pos (r : Region k) (height : Nat) : 0 < arcWeight r height := by
  induction height with
  | zero => exact Nat.one_pos
  | succ height ih => exact Nat.mul_pos (by unfold base; omega) ih

theorem degree_lt_base (r : Region k) (v : Fin k) : r.adj[v].length + 1 < base r := by
  have mem : r.adj[v] ∈ r.adj.toList := by simp
  have := (List.sublist_flatten_of_mem mem).length_le
  unfold base
  omega

theorem weightOf_markClosed (r : Region k) (frames : List (Frame k)) :
    weightOf r (markClosed frames) = weightOf r frames := by
  cases frames <;> rfl

theorem weightOf_pass (r : Region k) (v w : Fin k) (pending : List (Fin k)) (closed : Bool)
    (outer : List (Frame k)) :
    weightOf r (⟨v, pending, closed⟩ :: outer) + arcWeight r (k - (outer.length + 1))
      = weightOf r (⟨v, w :: pending, closed⟩ :: outer) := by
  simp only [weightOf, List.length_cons, Nat.add_mul, Nat.one_mul]
  omega

theorem length_le_of_nodup {l : List (Fin k)} (h : l.Nodup) : l.length ≤ k := by
  have := h.length_le_of_subset fun v _ => List.mem_finRange v
  simpa using this

theorem Sound.length_le {r : Region k} {s : Search k} (h : Sound r s) : s.frames.length ≤ k := by
  have := length_le_of_nodup h.nodup
  simpa [trail] using this

theorem weight_enter {r : Region k} {v w : Fin k} {pending : List (Fin k)}
    {closed : Bool} {outer : List (Frame k)}
    (fits : outer.length + 2 ≤ k) :
    weightOf r (⟨w, r.adj[w], false⟩ :: ⟨v, pending, closed⟩ :: outer)
      < weightOf r (⟨v, w :: pending, closed⟩ :: outer) := by
  rw [← weightOf_pass]
  have split : k - (outer.length + 1) = k - (outer.length + 2) + 1 := by omega
  have lt := Nat.mul_lt_mul_of_pos_right (degree_lt_base r w)
    (arcWeight_pos r (k - (outer.length + 2)))
  change _ < arcWeight r (k - (outer.length + 2) + 1) at lt
  rw [← split] at lt
  change (r.adj[w].length + 1) * arcWeight r (k - (outer.length + 2)) + weightOf r _ < _
  omega

/-- What a step that goes on does to a sound state. -/
structure Progress (r : Region k) (s t : Search k) : Prop where
  sound : Sound r t
  weight : weight r t < weight r s

theorem Sound.advance {r : Region k} {s t : Search k} {v w : Fin k} {pending : List (Fin k)}
    {closed : Bool} {outer : List (Frame k)} (h : Sound r s)
    (frames : s.frames = ⟨v, w :: pending, closed⟩ :: outer)
    (next : advance r { s with frames := ⟨v, pending, closed⟩ :: outer } w = .more t) :
    Progress r s t := by
  have lighter : weightOf r (⟨v, pending, closed⟩ :: outer) < weightOf r s.frames := by
    rw [frames, ← weightOf_pass]
    have := arcWeight_pos r (k - (outer.length + 1))
    omega
  have outcome := advanced r { s with frames := ⟨v, pending, closed⟩ :: outer } w
  rw [next] at outcome
  cases outcome with
  | barred ha => exact ⟨h.pass frames fun hw => by simp [hw] at ha, lighter⟩
  | close => exact ⟨h.close frames _ _, lighter⟩
  | blocked _ _ hb => exact ⟨h.pass frames fun _ => hb, lighter⟩
  | enter _ _ free =>
    have sound := h.enter frames free
    refine ⟨sound, ?_⟩
    have fits := sound.length_le
    have fits : outer.length + 2 ≤ k := fits
    rw [weight, weight, frames]
    exact weight_enter fits

theorem Sound.retreat {r : Region k} {s : Search k} {v : Fin k} {closed : Bool}
    {outer : List (Frame k)} (h : Sound r s) (frames : s.frames = ⟨v, [], closed⟩ :: outer) :
    Progress r s (retreat r { s with frames := outer } v closed) := by
  have lighter : weightOf r outer < weightOf r s.frames := by
    rw [frames, weightOf]
    have := arcWeight_pos r (k - (outer.length + 1))
    simp only [List.length_nil, Nat.zero_add, Nat.one_mul]
    omega
  cases closed with
  | true =>
    refine ⟨h.release frames, ?_⟩
    change weightOf r (markClosed outer) < _
    rw [weightOf_markClosed]
    exact lighter
  | false => exact ⟨h.defer frames, lighter⟩

theorem Sound.step {r : Region k} {s t : Search k} (h : Sound r s) (next : s.step r = .more t) :
    Progress r s t := by
  unfold Search.step at next
  split at next
  next => cases next
  next frames => exact h.advance frames next
  next frames =>
    cases next
    exact h.retreat frames

end Search

end Coupling
