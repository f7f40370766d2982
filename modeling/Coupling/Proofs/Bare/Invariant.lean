import Coupling.Proofs.Bare.Termination
import Coupling.Proofs.Circuit.Work

/-!
# What holds wherever the search begins a turn

The waiting lists keep entries that have lost their reason: a node that is unblocked through one of
the nodes it waits for stays listed with the others, and may be on the path again when one of those
is released (`outlives_hitch`). No such entry unblocks a node of the path. It would take a chain of
waiting nodes from the innermost node to one further out, and there is none (`Search.Sound`): when a
node is entered nothing waits for it, and a chain that runs through a node just left began at that
node before.

`Search.AtHead` says what can be seen of a state; it holds of every state to which the steps of the
search lead (`Search.Leads.atHead`), and every state of the loop over the bare arrays shows such a
state, whatever the cap (`Search.exists_bare`).
-/

namespace Coupling

open Checked Relation

variable {k : Nat}

/-- One turn of the loop over the frames that does not end the search. -/
def BareSearch.GoesOn (r : BareRegion) (cap : Nat) (b c : BareSearch) : Prop :=
  turn r cap b = pure (.inl c)

namespace Search

variable {r : Region k} {s t : Search k} {stretch : List (Move k)}

/-- What is seen of a search that is about to look at its innermost frame. -/
structure AtHead (r : Region k) (s : Search k) : Prop where
  nodup : s.path.Nodup
  usable : ∀ v ∈ s.path, r.allowed[v] = true
  blocked : ∀ v ∈ s.path, s.blocked[v] = true
  linked : s.path.IsChain fun v w => w ∈ r.adj[v]
  held : ∀ v : Fin k, r.allowed[v] = true → s.blocked[v] = true → v ∉ s.path →
    ∀ w ∈ r.adj[v], r.allowed[w] = true →
      w ≠ r.start ∧ s.blocked[w] = true ∧ v ∈ s.waiting[w]
  waits : ∀ v w : Fin k, v ∈ s.waiting[w] → w ∈ r.adj[v]
  /-- A release of the innermost node leaves the others on the path blocked. -/
  kept : ∀ f outer, s.frames = f :: outer →
    ∀ v ∈ outer.map Frame.node, (s.release f.node).blocked[v] = true

theorem Sound.blocked_outer {f : Frame k} {outer : List (Frame k)} {v : Fin k} (h : Sound r s)
    (frames : s.frames = f :: outer) (on : v ∈ outer.map Frame.node) :
    (s.release f.node).blocked[v] = true := by
  rw [blocked_release]
  constructor
  · apply h.blocked
    rw [trail_cons frames]
    exact List.mem_cons_of_mem _ on
  · intro freed
    exact (h.reached frames freed).1 on

theorem Exact.atHead (exact : Exact r s) (threaded : Threaded r s) : AtHead r s where
  nodup := List.nodup_reverse.mpr exact.sound.nodup
  usable v on := threaded.usable v (List.mem_reverse.mp on)
  blocked v on := exact.sound.blocked v (List.mem_reverse.mp on)
  linked := List.isChain_reverse.mpr threaded.linked
  held v allowed blocked off := exact.held v allowed blocked fun on => off (List.mem_reverse.mpr on)
  waits v w mem := (threaded.waits w v mem).1
  kept _ _ frames _ on := exact.sound.blocked_outer frames on

theorem Leads.atHead (leads : Leads r s stretch t) (exact : Exact r s) (threaded : Threaded r s) :
    AtHead r t := by
  induction leads with
  | refl => exact exact.atHead threaded
  | step next _ ih => exact ih (exact.step next) (threaded.step next)

/-! ## Bare arrays -/

variable {names : Vector Nat k} {base : Array (List Nat)} {cap : Nat} {b c : BareSearch}

/-- A turn of the loop that goes on comes from a step, with the room in line with the cap. -/
theorem step_of_goesOn (followed : Followed r s.frames)
    (turn : BareSearch.GoesOn (r.bare names) cap (s.bare r names base) c) :
    ∃ t, (s.fitted base cap).step r = .more t ∧ c = t.bare r names base := by
  have same := (turn_fitted names base cap followed).symm.trans turn
  have same := Except.ok.inj (Option.some.inj same)
  cases next : (s.fitted base cap).step r with
  | more t =>
    rw [next] at same
    exact ⟨t, rfl, (Sum.inl.inj same).symm⟩
  | full found =>
    rw [next] at same
    cases same
  | done found =>
    rw [next] at same
    cases same

/-- The states of the loop show states of the search. -/
theorem exists_bare (opened : r.allowed[r.start] = true)
    (begun : BareSearch.start (r.bare names) base = pure b)
    (reached : ReflTransGen (BareSearch.GoesOn (r.bare names) cap) b c) :
    ∃ s, c = s.bare r names base ∧ Exact r s ∧ Threaded r s := by
  induction reached with
  | refl =>
    have same := (start_bare r names base 0).symm.trans begun
    have same := Except.ok.inj (Option.some.inj same)
    exact ⟨start r 0, same.symm, .start r 0, .start opened 0⟩
  | tail _ turn ih =>
    obtain ⟨s, rfl, exact, threaded⟩ := ih
    obtain ⟨t, next, rfl⟩ := step_of_goesOn threaded.followed turn
    -- nothing that is kept speaks of the room
    have sound : Sound r (s.fitted base cap) := ⟨exact.sound.nodup, exact.sound.blocked,
      exact.sound.waiting, exact.sound.settled, exact.sound.unlinked⟩
    have exact : Exact r (s.fitted base cap) := ⟨sound, exact.held, exact.unclosed⟩
    have threaded : Threaded r (s.fitted base cap) :=
      ⟨threaded.followed, threaded.linked, threaded.usable, threaded.waits⟩
    exact ⟨t, rfl, exact.step next, threaded.step next⟩

theorem path_bare (s : Search k) :
    (s.bare r names base).path.toList =
      ((s.bare r names base).frames.map BareFrame.node).reverse := by
  simp [bare, path, trail]

/-- Releasing the innermost node on the bare arrays leaves all other nodes of the path blocked. -/
theorem AtHead.unblock_bare (h : AtHead r s) {f : BareFrame} {outer : List BareFrame}
    (frames : (s.bare r names base).frames = f :: outer) :
    ∃ blocked blockedBy,
      BareSearch.unblock f.node (s.bare r names base).blocked (s.bare r names base).blockedBy =
        pure (blocked, blockedBy) ∧
      ∀ g ∈ outer, fetch blocked g.node = pure true := by
  obtain ⟨f, outer, shown, rfl, rfl⟩ := List.map_eq_cons_iff.mp frames
  refine ⟨_, _, Search.unblock_bare s f.node, ?_⟩
  intro g mem
  obtain ⟨g, inside, rfl⟩ := List.mem_map.mp mem
  have kept := h.kept f outer shown g.node (List.mem_map_of_mem inside)
  rw [fetch_vector, kept]

/-! ## Entries that outlive their reason -/

/-- The state after a step; where the search ends it stays. -/
def next (r : Region k) (s : Search k) : Search k :=
  match s.step r with
  | .more t => t
  | .full _ => s
  | .done _ => s

theorem step_eq_next_or_still (r : Region k) (s : Search k) :
    s.step r = .more (next r s) ∨ next r s = s := by
  unfold next
  cases s.step r with
  | more t => exact Or.inl rfl
  | full found => exact Or.inr rfl
  | done found => exact Or.inr rfl

theorem exists_leads_iterate (r : Region k) (n : Nat) (s : Search k) :
    ∃ stretch, Leads r s stretch ((next r)^[n] s) := by
  induction n generalizing s with
  | zero => exact ⟨[], .refl s⟩
  | succ n ih =>
    obtain ⟨stretch, leads⟩ := ih (next r s)
    rw [Function.iterate_succ_apply]
    rcases step_eq_next_or_still r s with more | still
    · exact ⟨_, .step more leads⟩
    · rw [still] at leads ⊢
      exact ⟨stretch, leads⟩

/-- In `s` node `v` has left the path and waits for `w`, in `t` it has been unblocked, and in `u` it
is on the path again; the entry at `w` is still there. -/
structure Outlives (s t u : Search k) (v w : Fin k) : Prop where
  deferred : v ∉ s.path ∧ s.blocked[v] = true ∧ v ∈ s.waiting[w]
  freed : t.blocked[v] = false ∧ v ∈ t.waiting[w]
  again : v ∈ u.path ∧ v ∈ u.waiting[w]

end Search

/-- Node 3 leads back to 1 and to 2, and has to wait for both when it is left for the first time. -/
def hitch : Region 4 where
  adj := #v[[1], [2, 3], [3, 0], [1, 2]]
  start := 0
  allowed := Vector.replicate 4 true

def hitchAfter (n : Nat) : Search 4 := (Search.next hitch)^[n] (Search.start hitch 1)

theorem exists_leads_hitchAfter (m n : Nat) :
    ∃ stretch, Search.Leads hitch (hitchAfter m) stretch (hitchAfter (n + m)) := by
  rw [hitchAfter, hitchAfter, Function.iterate_add_apply]
  exact Search.exists_leads_iterate hitch n _

/-- Node 3 is unblocked together with 2, for which it waits, once a circuit has been closed there,
and then entered from 1. -/
theorem outlives_hitch :
    Search.Outlives (hitchAfter 6) (hitchAfter 8) (hitchAfter 9) 3 1 where
  deferred := by
    have path : (hitchAfter 6).path = [0, 1, 2] := by cbv
    have blocked : (hitchAfter 6).blocked[(3 : Fin 4)] = true := by cbv
    have waiting : (hitchAfter 6).waiting[(1 : Fin 4)] = [3] := by cbv
    rw [path, blocked, waiting]
    decide
  freed := by
    have free : (hitchAfter 8).blocked[(3 : Fin 4)] = false := by cbv
    have waiting : (hitchAfter 8).waiting[(1 : Fin 4)] = [3] := by cbv
    rw [free, waiting]
    decide
  again := by
    have path : (hitchAfter 9).path = [0, 1, 3] := by cbv
    have waiting : (hitchAfter 9).waiting[(1 : Fin 4)] = [3] := by cbv
    rw [path, waiting]
    decide

/-- Wherever the search begins a turn, its path is a simple one of allowed and blocked nodes along
arcs, and whatever else is blocked waits for all its allowed successors, which are blocked as well.
So on the bare arrays, where the path is kept apart from the frames, it lists their nodes; and a
release of the innermost node leaves the others blocked, although there may be entries left of nodes
that have been unblocked and have come on the path again. -/
theorem Region.search_invariant {r : Region k} (opened : r.allowed[r.start] = true) :
    (∀ room stretch s, Search.Leads r (Search.start r room) stretch s → s.AtHead r) ∧
      (∀ names base, ∃ b, BareSearch.start (r.bare names) base = pure b ∧
        ∀ cap c, ReflTransGen (BareSearch.GoesOn (r.bare names) cap) b c →
          c.path.toList = (c.frames.map BareFrame.node).reverse ∧
          (∃ s, c = Search.bare r names base s ∧ s.AtHead r) ∧
          ∀ f outer, c.frames = f :: outer → ∃ blocked blockedBy,
            BareSearch.unblock f.node c.blocked c.blockedBy = pure (blocked, blockedBy) ∧
            ∀ g ∈ outer, fetch blocked g.node = pure true) ∧
      ∃ (r : Region 4) (s t u : Search 4) (v w : Fin 4) (first second third : List (Move 4)),
        r.allowed[r.start] = true ∧ Search.Leads r (Search.start r 1) first s ∧
          Search.Leads r s second t ∧ Search.Leads r t third u ∧ Search.Outlives s t u v w := by
  refine ⟨?_, ?_, ?_⟩
  · intro room stretch s leads
    exact leads.atHead (.start r room) (.start opened room)
  · intro names base
    have begun := Search.start_bare r names base 0
    refine ⟨_, begun, ?_⟩
    intro cap c reached
    obtain ⟨s, rfl, exact, threaded⟩ := Search.exists_bare opened begun reached
    have atHead := exact.atHead threaded
    exact ⟨s.path_bare, ⟨s, rfl, atHead⟩, fun _ _ => atHead.unblock_bare⟩
  · obtain ⟨first, upToFirst⟩ := exists_leads_hitchAfter 0 6
    obtain ⟨second, upToSecond⟩ := exists_leads_hitchAfter 6 2
    obtain ⟨third, upToThird⟩ := exists_leads_hitchAfter 8 1
    exact ⟨hitch, _, _, _, 3, 1, first, second, third, by decide, upToFirst, upToSecond, upToThird,
      outlives_hitch⟩

theorem Region.search_invariant_hitch :
    hitch.allowed[hitch.start] = true ∧ (hitchAfter 9).AtHead hitch ∧
      (hitchAfter 9).path = [0, 1, 3] ∧ (hitchAfter 9).waiting[(1 : Fin 4)] = [3] := by
  have opened : hitch.allowed[hitch.start] = true := by decide
  obtain ⟨stretch, leads⟩ := exists_leads_hitchAfter 0 9
  refine ⟨opened, (search_invariant opened).1 1 stretch _ leads, ?_, ?_⟩
  · cbv
  · cbv

end Coupling
