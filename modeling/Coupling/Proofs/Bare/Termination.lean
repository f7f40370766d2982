import Coupling.Proofs.Bare.Search
import Mathlib.Algebra.Order.Group.Nat

/-!
# The circuit search ends

Nothing written in the two loops of the search bounds their turns: nodes are unblocked again and
again, and a node that came free while it still lay on the path would let the path grow for ever.
The release of a node lowers with every turn the number of nodes that are blocked or pending
(`drain_turns`). The loop over the frames lowers `Search.weight`, since the path stays simple; the
cap has no part in this (`turn_progress`), so the loop ends after a number of turns that depends on
the nodes and arcs alone (`Region.search_terminates`).
-/

namespace Coupling

open Checked

variable {k n : Nat}

/-! ## Releasing a node -/

/-- The release of a node is over once it has taken more turns than nodes were blocked or
pending. -/
theorem Adjacency.drain_turns (adj : Adjacency k) {flags : Vector Bool k}
    (pending : List (Fin k)) {visited : List (Fin k)} (apart : Apart flags pending visited)
    (enough : flags.countP id + pending.length < n) :
    turns BareSearch.drainTurn n
        ((flags.toArray, bareLists (adj.cleared visited)), pending.map Fin.val) =
      pure ((adj.flood flags pending visited).1.toArray,
        bareLists (adj.cleared (adj.flood flags pending visited).2)) := by
  obtain ⟨n, rfl⟩ := Nat.exists_eq_add_one_of_ne_zero (Nat.ne_zero_of_lt enough)
  fun_induction flood adj flags pending visited generalizing n with
  | case1 flags visited => exact turns_done rfl
  | case2 flags visited v rest next ih =>
    have same := countP_foldl_mark adj[v] (flags, rest)
    have fewer : next.1.countP id + next.2.length < n := by
      simp only [List.length_cons, next] at same enough ⊢
      omega
    obtain ⟨m, rfl⟩ := Nat.exists_eq_add_one_of_ne_zero (Nat.ne_zero_of_lt fewer)
    rw [turns_again (drainTurn_bare apart)]
    exact ih apart.next m fewer

namespace Search

variable {r : Region k} {s : Search k}

theorem countP_lowered_lt (blocked : Vector Bool k) (v : Fin k) :
    (blocked.set v false v.isLt).countP id < k := by
  apply Nat.lt_of_le_of_ne Vector.countP_le_size
  intro all
  have mem : false ∈ blocked.set v false v.isLt :=
    Vector.mem_iff_getElem.mpr ⟨v, v.isLt, Vector.getElem_set_self _⟩
  cases Vector.countP_eq_size.mp all false mem

/-- One turn for each node and one more are enough to release a node. -/
theorem unblock_turns (s : Search k) (v : Fin k) :
    (store s.blocked.toArray v.val false >>= fun blocked =>
        turns BareSearch.drainTurn (k + 1) ((blocked, (queues s.waiting).bareLists), [v.val])) =
      pure ((s.release v).blocked.toArray, (queues (s.release v).waiting).bareLists) := by
  have enough : (s.blocked.set v false v.isLt).countP id + [v].length < k + 1 :=
    Nat.add_lt_add_right (countP_lowered_lt s.blocked v) 1
  have ended := (queues s.waiting).drain_turns [v] (apart_lowered s.blocked v) enough
  have released := unblock_bare s v
  rw [BareSearch.unblock, store_vector, pure_bind] at released
  rw [store_vector, pure_bind, ← released]
  exact turns_eq_loop ended

/-! ## The loop over the frames -/

/-- The same arrays with the room chosen to match the cap; the bare arrays do not hold the room. -/
def fitted (base : Array (List Nat)) (cap : Nat) (s : Search k) : Search k :=
  { s with room := if base.size + s.found.length = cap then 0 else 1 }

/-- Whatever the cap, a turn is a step of the search. -/
theorem turn_fitted (names : Vector Nat k) (base : Array (List Nat)) (cap : Nat)
    (followed : Followed r s.frames) :
    BareSearch.turn (r.bare names) cap (s.bare r names base) =
      pure (stepBare r names base ((s.fitted base cap).step r)) := by
  have gauged : (s.fitted base cap).Gauged base cap := by
    simp only [Gauged, fitted]
    split <;> simp [*]
  exact turn_bare (s := s.fitted base cap) names followed gauged

/-- A turn ends the search or comes to a sound state of less weight, whatever the cap. -/
theorem turn_progress (names : Vector Nat k) (base : Array (List Nat)) (cap : Nat)
    (sound : Sound r s) (followed : Followed r s.frames) :
    (∃ result, BareSearch.turn (r.bare names) cap (s.bare r names base) = pure (.inr result)) ∨
      ∃ t, BareSearch.turn (r.bare names) cap (s.bare r names base) =
          pure (.inl (t.bare r names base)) ∧ Followed r t.frames ∧ Progress r s t := by
  have turn := turn_fitted names base cap followed
  have followed : Followed r (s.fitted base cap).frames := followed
  have sound : Sound r (s.fitted base cap) :=
    ⟨sound.nodup, sound.blocked, sound.waiting, sound.settled, sound.unlinked⟩
  cases next : (s.fitted base cap).step r with
  | more t =>
    have progress := sound.step next
    rw [next] at turn
    exact Or.inr ⟨t, turn, followed.step next, progress.sound, progress.weight⟩
  | full found =>
    rw [next] at turn
    exact Or.inl ⟨_, turn⟩
  | done found =>
    rw [next] at turn
    exact Or.inl ⟨_, turn⟩

theorem run_turns (names : Vector Nat k) (base : Array (List Nat)) (cap : Nat)
    (sound : Sound r s) (followed : Followed r s.frames) (enough : weight r s < n) :
    ∃ result, turns (BareSearch.turn (r.bare names) cap) n (s.bare r names base) =
      pure result := by
  induction n generalizing s with
  | zero => exact absurd enough (Nat.not_lt_zero _)
  | succ n ih =>
    rcases turn_progress names base cap sound followed with ⟨result, turn⟩ | ⟨t, turn, next⟩
    · exact ⟨result, turns_done turn⟩
    · obtain ⟨followed, progress⟩ := next
      have lighter := progress.weight
      rw [turns_again turn]
      exact ih progress.sound followed (by omega)

theorem arcWeight_eq_pow (r : Region k) (height : Nat) : arcWeight r height = base r ^ height := by
  induction height with
  | zero => rfl
  | succ height ih => rw [arcWeight, ih, Nat.pow_succ, Nat.mul_comm]

theorem weight_start_lt (r : Region k) (room : Nat) : weight r (start r room) < base r ^ k := by
  obtain ⟨height, rfl⟩ := Nat.exists_eq_add_one_of_ne_zero (Nat.ne_zero_of_lt r.start.isLt)
  have lt := Nat.mul_lt_mul_of_pos_right (degree_lt_base r r.start) (arcWeight_pos r height)
  rw [← arcWeight_eq_pow]
  exact lt

/-- No search can go on from a sound state for ever. -/
theorem Sound.acc (sound : Sound r s) : Acc (fun t s => s.step r = .more t) s := by
  induction size : weight r s using Nat.strong_induction_on generalizing s with
  | _ size ih =>
    refine ⟨s, fun t next => ?_⟩
    have progress := sound.step next
    exact ih _ (size ▸ progress.weight) progress.sound rfl

end Search

/-- The loop over the frames comes to a result within a number of turns that depends on the nodes
and arcs alone, under every cap, and it is the result of the typed search; so does the loop that
releases a node; and the steps of the typed search are well-founded from its first state on. -/
theorem Region.search_terminates (r : Region k) (names : Vector Nat k) (base : Array (List Nat)) :
    (∀ cap, ∃ result, (BareSearch.start (r.bare names) base >>=
        turns (BareSearch.turn (r.bare names) cap) ((r.adj.toList.flatten.length + 2) ^ k)) =
      pure result) ∧
    (∀ room, (BareSearch.start (r.bare names) base >>=
        turns (BareSearch.turn (r.bare names) (base.size + room))
          ((r.adj.toList.flatten.length + 2) ^ k)) =
      pure (base ++ namedCircuits names (r.circuits room).items, !(r.circuits room).truncated)) ∧
    (∀ (s : Search k) (v : Fin k), (store s.blocked.toArray v.val false >>= fun blocked =>
        turns BareSearch.drainTurn (k + 1)
          ((blocked, (Search.queues s.waiting).bareLists), [v.val])) =
      pure ((s.release v).blocked.toArray, (Search.queues (s.release v).waiting).bareLists)) ∧
    ∀ room, Acc (fun t s : Search k => s.step r = .more t) (Search.start r room) := by
  have ends : ∀ cap room, ∃ result,
      turns (BareSearch.turn (r.bare names) cap) ((r.adj.toList.flatten.length + 2) ^ k)
        ((Search.start r room).bare r names base) = pure result := by
    intro cap room
    exact Search.run_turns names base cap (Search.Sound.start r room) (Search.followed_start r room)
      (Search.weight_start_lt r room)
  refine ⟨?_, ?_, Search.unblock_turns, fun room => (Search.Sound.start r room).acc⟩
  · intro cap
    rw [Search.start_bare r names base 0, pure_bind]
    exact ends cap 0
  · intro room
    obtain ⟨result, ended⟩ := ends (base.size + room) room
    have looped := r.circuits_bare names base (Nat.le_add_right base.size room)
    rw [Nat.add_sub_cancel_left, Search.start_bare r names base room, pure_bind] at looped
    rw [Search.start_bare r names base room, pure_bind, ← looped]
    exact turns_eq_loop ended

end Coupling
