import Coupling.Proofs.Circuit.Listing
import Coupling.Proofs.Circuit.Trail
import Mathlib

/-!
# The work between two circuits

`Search.moves` are the steps of a run. Between two steps that close a circuit each node is unblocked
at most once, and so comes on the path at most twice. What carries the argument is the set of nodes
that have been unblocked since the latest circuit (`Loosened`): from each of them a walk inside the
set leads to the start node. As long as none of them is on the trail they are all free, since
blocking would spread along that walk. Once one of them is on the trail, no frame has closed a
circuit down to that node, so that nothing is unblocked any more, and the node cannot be left before
the next circuit has been found.
-/

namespace Coupling

variable {k : Nat}

/-- A step of a run, with the states before and after it. -/
structure Move (k : Nat) where
  before : Search k
  after : Search k

namespace Move

/-- The step adds a circuit to those found. -/
def closes (m : Move k) : Bool := decide (m.before.found.length < m.after.found.length)

/-- The step puts `w` at the end of the path. -/
def pushes (w : Fin k) (m : Move k) : Bool := decide (m.after.path = m.before.path ++ [w])

def frees (w : Fin k) (m : Move k) : Bool := m.before.blocked[w] && !m.after.blocked[w]

end Move

namespace Search

def moves (r : Region k) (s : Search k) (sound : s.Sound r) : List (Move k) :=
  match h : s.step r with
  | .more t => ⟨s, t⟩ :: moves r t (sound.step h).sound
  | .full _ => []
  | .done _ => []
  termination_by s.weight r
  decreasing_by exact (sound.step h).weight

/-- The steps lead from the first state to the second. -/
inductive Leads (r : Region k) : Search k → List (Move k) → Search k → Prop where
  | refl (s : Search k) : Leads r s [] s
  | step {s t u : Search k} {stretch : List (Move k)} (next : s.step r = .more t)
    (onward : Leads r t stretch u) : Leads r s (⟨s, t⟩ :: stretch) u

variable {r : Region k} {s t u : Search k} {sound : s.Sound r} {v w : Fin k}
  {pending : List (Fin k)} {closed : Bool} {outer : List (Frame k)}
  {stretch after : List (Move k)} {freed : Fin k → Prop}

theorem run_more (next : s.step r = .more t) :
    run r s sound = run r t (sound.step next).sound := by
  rw [run]
  split
  next u other =>
    cases next.symm.trans other
    rfl
  next other => cases next.symm.trans other
  next other => cases next.symm.trans other

/-- However the steps of a run are cut in two, some state stands at the cut. -/
theorem exists_leads (split : moves r s sound = stretch ++ after) :
    ∃ (t : Search k) (sound' : t.Sound r), Leads r s stretch t ∧ moves r t sound' = after ∧
      run r t sound' = run r s sound := by
  induction stretch generalizing s with
  | nil => exact ⟨s, sound, .refl s, split, rfl⟩
  | cons m stretch ih =>
    rw [moves] at split
    split at split
    next t next =>
      obtain ⟨rfl, rest⟩ := List.cons.inj split
      obtain ⟨u, sound', onward, last, same⟩ := ih rest
      exact ⟨u, sound', .step next onward, last, same.trans (run_more next).symm⟩
    next => cases split
    next => cases split

theorem moves_ne_nil (next : s.step r = .more t) : moves r s sound ≠ [] := by
  rw [moves]
  split
  next => exact List.cons_ne_nil _ _
  next other => cases next.symm.trans other
  next other => cases next.symm.trans other

/-- A run that has no step left has been stopped by the cap, or has left the start node. -/
theorem moves_eq_nil (h : moves r s sound = []) :
    (run r s sound).items.length = s.found.length ∧
      ((run r s sound).truncated = false → s.frames = []) := by
  fun_induction run r s sound with
  | case1 s sound t next => exact absurd h (moves_ne_nil next)
  | case2 s sound found next =>
    cases stepped next with
    | full => exact ⟨List.length_reverse, fun complete => Bool.noConfusion complete⟩
  | case3 s sound found next =>
    cases stepped next with
    | done frames => exact ⟨List.length_reverse, fun _ => frames⟩

/-- Every circuit of a run is closed by a step of its own. -/
theorem Leads.countP_closes (h : Leads r s stretch t) :
    s.found.length + stretch.countP Move.closes = t.found.length := by
  induction h with
  | refl => rfl
  | @step s t u stretch next _ ih =>
    have longer : s.found.length + (if Move.closes ⟨s, t⟩ then 1 else 0) = t.found.length := by
      cases stepped next <;> simp [Move.closes, enter, defer, release]
    rw [← ih, ← longer, List.countP_cons]
    omega

/-! ## Paths and blocking -/

theorem pushes_iff_trail : Move.pushes w ⟨s, t⟩ = true ↔ t.trail = w :: s.trail := by
  rw [Move.pushes, decide_eq_true_iff, path, path, ← List.reverse_cons]
  exact List.reverse_injective.eq_iff

theorem not_pushes (shorter : t.trail.length ≤ s.trail.length) :
    ¬ Move.pushes w ⟨s, t⟩ = true := by
  rw [pushes_iff_trail]
  intro longer
  rw [longer, List.length_cons] at shorter
  omega

/-- The steps that put a node on the path are those that block it. -/
theorem pushes_iff (next : s.step r = .more t) :
    Move.pushes w ⟨s, t⟩ = true ↔ s.blocked[w] = false ∧ t.blocked[w] = true := by
  have kept {u : Search k} (shorter : u.trail.length ≤ s.trail.length)
      (blocked : u.blocked[w] = true → s.blocked[w] = true) :
      Move.pushes w ⟨s, u⟩ = true ↔ s.blocked[w] = false ∧ u.blocked[w] = true := by
    refine iff_of_false (not_pushes shorter) fun both => ?_
    rw [blocked both.2] at both
    cases both.1
  cases stepped next with
  | pass frames => exact kept (by simp [trail, frames]) id
  | close frames => exact kept (by simp [trail, frames]) id
  | @enter v x pending closed outer frames allowed notStart free =>
    rw [pushes_iff_trail, trail_enter frames, blocked_enter]
    constructor
    · intro longer
      cases (List.cons.inj longer).1
      exact ⟨free, Or.inl rfl⟩
    · rintro ⟨unblocked, rfl | held⟩
      · rfl
      · rw [held] at unblocked
        cases unblocked
  | @release v outer frames =>
    refine kept ?_ fun held => ((blocked_release s v w).mp held).1
    simp [trail, frames, map_node_markClosed]
  | defer frames => exact kept (by simp [trail, frames, defer]) id

/-- Nodes are blocked and unblocked in turn, and blocked where they come on the path. -/
theorem Leads.countP_pushes (h : Leads r s stretch t) (w : Fin k) :
    stretch.countP (Move.pushes w) + s.blocked[w].toNat =
      stretch.countP (Move.frees w) + t.blocked[w].toNat := by
  induction h with
  | refl => rfl
  | @step s t u stretch next _ ih =>
    have once : (if Move.pushes w ⟨s, t⟩ then 1 else 0) + s.blocked[w].toNat =
        (if Move.frees w ⟨s, t⟩ then 1 else 0) + t.blocked[w].toNat := by
      have pushes : Move.pushes w ⟨s, t⟩ = (!s.blocked[w] && t.blocked[w]) := by
        rw [Bool.eq_iff_iff, pushes_iff next]
        simp
      rw [pushes, Move.frees]
      cases s.blocked[w] <;> cases t.blocked[w] <;> rfl
    rw [List.countP_cons, List.countP_cons]
    omega

/-! ## Nodes unblocked since the latest circuit -/

/-- A walk through nodes of `freed` leads from the node to the start node. -/
inductive Exits (r : Region k) (freed : Fin k → Prop) : Fin k → Prop where
  | close {v : Fin k} (arc : r.start ∈ r.adj[v]) : Exits r freed v
  | step {v w : Fin k} (arc : w ∈ r.adj[v]) (mem : freed w) (onward : Exits r freed w) :
    Exits r freed v

theorem Exits.mono {freed' : Fin k → Prop} (h : Exits r freed v) (le : ∀ w, freed w → freed' w) :
    Exits r freed' v := by
  induction h with
  | close arc => exact .close arc
  | step arc mem _ ih => exact .step arc (le _ mem) ih

/-- The innermost frame that has closed a circuit stands at a node with a way out. -/
def Outlet (r : Region k) (freed : Fin k → Prop) : List (Frame k) → Prop
  | [] => True
  | f :: outer =>
    (f.closed = true → Exits r freed f.node) ∧ (f.closed = false → Outlet r freed outer)

/-- The outermost node of `freed` on the trail stands inside all frames that have closed a
circuit. -/
def Entered (freed : Fin k → Prop) : List (Frame k) → Prop
  | [] => False
  | f :: outer =>
    f.closed = false ∧
      (Entered freed outer ∨ (freed f.node ∧ ∀ u ∈ outer.map Frame.node, ¬ freed u))

/-- No node of `freed` is on the trail. -/
structure Idle (r : Region k) (freed : Fin k → Prop) (s : Search k) : Prop where
  off : ∀ v ∈ s.trail, ¬ freed v
  outlet : Outlet r freed s.frames

/-- What holds of a state if the nodes of `freed` have been unblocked since the latest circuit. -/
structure Loosened (r : Region k) (freed : Fin k → Prop) (s : Search k) : Prop where
  exact : Exact r s
  threaded : Threaded r s
  opened : r.allowed[r.start] = true
  usable : ∀ v, freed v → r.allowed[v] = true
  exits : ∀ v, freed v → Exits r freed v
  phase : Idle r freed s ∨ Entered freed s.frames

/-- Blocking would spread along the walk to the start node. -/
theorem Exact.free_of_exits (h : Exact r s) (opened : r.allowed[r.start] = true)
    (usable : ∀ v, freed v → r.allowed[v] = true) (off : ∀ v ∈ s.trail, ¬ freed v)
    (exits : Exits r freed v) (mem : freed v) : s.blocked[v] = false := by
  induction exits with
  | @close v arc =>
    by_contra held
    have held := h.held v (usable v mem) (by simpa using held) (fun on => off v on mem)
    exact (held r.start arc opened).1 rfl
  | @step v w arc memw _ ih =>
    by_contra held
    have held := h.held v (usable v mem) (by simpa using held) (fun on => off v on mem)
    have blocked := (held w arc (usable w memw)).2.1
    rw [ih memw] at blocked
    cases blocked

theorem Loosened.free (h : Loosened r freed s) (idle : Idle r freed s) (mem : freed v) :
    s.blocked[v] = false :=
  h.exact.free_of_exits h.opened h.usable idle.off (h.exits v mem) mem

/-- A step to `t` after which the nodes of `freed'` have been unblocked since the latest circuit;
those that it unblocks had not been before. -/
structure Widens (r : Region k) (freed freed' : Fin k → Prop) (s t : Search k) : Prop where
  loosened : Loosened r freed' t
  mono : ∀ w, freed w → freed' w
  fresh : ∀ w, Move.frees w ⟨s, t⟩ = true → ¬ freed w ∧ freed' w

theorem no_frees (kept : ∀ w : Fin k, s.blocked[w] = true → t.blocked[w] = true) (w : Fin k) :
    Move.frees w ⟨s, t⟩ = false := by
  rw [Move.frees, Bool.and_eq_false_imp, Bool.not_eq_eq_eq_not]
  exact kept w

/-- A step that unblocks nothing. -/
theorem Loosened.quiet (h : Loosened r freed s) (next : s.step r = .more t)
    (phase : Idle r freed t ∨ Entered freed t.frames)
    (kept : ∀ w : Fin k, s.blocked[w] = true → t.blocked[w] = true) :
    Widens r freed freed s t where
  loosened := ⟨h.exact.step next, h.threaded.step next, h.opened, h.usable, h.exits, phase⟩
  mono _ := id
  fresh w frees := by
    rw [no_frees kept] at frees
    cases frees

/-- After a circuit has been found no node has been unblocked since. -/
theorem Loosened.close {found : List (List (Fin k))} {room : Nat} (h : Loosened r freed s)
    (frames : s.frames = ⟨v, r.start :: pending, closed⟩ :: outer)
    (next : s.step r = .more { s with frames := ⟨v, pending, true⟩ :: outer, found, room }) :
    Loosened r (fun _ => False)
      { s with frames := ⟨v, pending, true⟩ :: outer, found, room } where
  exact := h.exact.step next
  threaded := h.threaded.step next
  opened := h.opened
  usable _ := False.elim
  exits _ := False.elim
  phase := by
    refine Or.inl ⟨fun _ _ => id, ?_, Bool.noConfusion⟩
    exact fun _ => .close (h.threaded.followed.arc frames)

/-- What is unblocked at a node with a way out has a way out itself. -/
theorem Loosened.exits_release (h : Loosened r freed s) (exits : Exits r freed v)
    (mem : freed w ∨ s.Freed v w) : Exits r (fun x => freed x ∨ s.Freed v x) w := by
  rcases mem with mem | mem
  · exact (h.exits w mem).mono fun x => Or.inl
  · induction mem with
    | root mem =>
      cases List.mem_singleton.mp mem
      exact exits.mono fun x => Or.inl
    | step reached arc _ ih => exact .step (h.threaded.waits _ _ arc).1 (Or.inr reached) ih

theorem Loosened.usable_release (h : Loosened r freed s) (on : v ∈ s.trail)
    (mem : freed w ∨ s.Freed v w) : r.allowed[w] = true := by
  rcases mem with mem | mem
  · exact h.usable w mem
  · cases mem with
    | root mem =>
      cases List.mem_singleton.mp mem
      exact h.threaded.usable v on
    | step _ arc _ => exact (h.threaded.waits _ _ arc).2

theorem Loosened.release (h : Loosened r freed s) (idle : Idle r freed s)
    (frames : s.frames = ⟨v, [], true⟩ :: outer)
    (next : s.step r = .more { s.release v with frames := markClosed outer }) :
    Loosened r (fun x => freed x ∨ s.Freed v x)
      { s.release v with frames := markClosed outer } := by
  have outlet := idle.outlet
  rw [frames] at outlet
  have exits : Exits r freed v := outlet.1 rfl
  have on : v ∈ s.trail := trail_cons frames ▸ List.mem_cons_self
  refine ⟨h.exact.step next, h.threaded.step next, h.opened, fun w => h.usable_release on,
    fun w => h.exits_release exits, Or.inl ⟨?_, ?_⟩⟩
  · intro x mem
    have mem : x ∈ outer.map Frame.node := map_node_markClosed outer ▸ mem
    rintro (old | new)
    · exact idle.off x (trail_cons frames ▸ List.mem_cons_of_mem v mem) old
    · exact (h.exact.sound.reached frames new).1 mem
  · cases outer with
    | nil => trivial
    | cons g outer =>
      have linked := h.threaded.linked
      rw [trail_cons frames] at linked
      have arc : v ∈ r.adj[g.node] := linked.rel
      refine ⟨fun _ => .step arc (Or.inr (s.freed_self v)) ?_, Bool.noConfusion⟩
      exact exits.mono fun x => Or.inl

/-- Leaving a node with a way out unblocks no node for the second time. -/
theorem Loosened.widens_release (h : Loosened r freed s) (idle : Idle r freed s)
    (frames : s.frames = ⟨v, [], true⟩ :: outer)
    (next : s.step r = .more { s.release v with frames := markClosed outer }) :
    Widens r freed (fun x => freed x ∨ s.Freed v x) s
      { s.release v with frames := markClosed outer } where
  loosened := h.release idle frames next
  mono _ := Or.inl
  fresh w frees := by
    obtain ⟨held, lowered⟩ := Bool.and_eq_true_iff.mp frees
    constructor
    · intro mem
      rw [h.free idle mem] at held
      cases held
    · by_contra out
      have kept := (blocked_release s v w).mpr ⟨held, fun mem => out (Or.inr mem)⟩
      simp [kept] at lowered

/-- A step that closes no circuit, as long as no node unblocked since the latest circuit is on the
trail. -/
theorem Loosened.step_idle (h : Loosened r freed s) (idle : Idle r freed s)
    (next : s.step r = .more t) (unclosed : Move.closes ⟨s, t⟩ = false) :
    ∃ freed', Widens r freed freed' s t := by
  have off := idle.off
  have outlet := idle.outlet
  cases stepped next with
  | pass frames =>
    rw [frames] at outlet
    rw [trail_cons frames] at off
    exact ⟨freed, h.quiet next (Or.inl ⟨off, outlet⟩) fun _ => id⟩
  | close => simp [Move.closes] at unclosed
  | @enter v w pending closed outer frames =>
    refine ⟨freed, h.quiet next ?_ fun x held => (blocked_enter _ _ _ _).mpr (Or.inr held)⟩
    rw [frames] at outlet
    by_cases mem : freed w
    · rw [trail_cons frames] at off
      exact Or.inr ⟨rfl, Or.inr ⟨mem, off⟩⟩
    · refine Or.inl ⟨?_, Bool.noConfusion, fun _ => outlet⟩
      rw [trail_enter frames]
      exact List.forall_mem_cons.mpr ⟨mem, off⟩
  | release frames => exact ⟨_, h.widens_release idle frames next⟩
  | defer frames =>
    rw [frames] at outlet
    rw [trail_cons frames] at off
    exact ⟨freed, h.quiet next (Or.inl ⟨(List.forall_mem_cons.mp off).2, outlet.2 rfl⟩) fun _ => id⟩

/-- A step that closes no circuit, once such a node is on the trail: it unblocks nothing, and there
is still such a node on the trail. -/
theorem Loosened.step_entered (h : Loosened r freed s) (entered : Entered freed s.frames)
    (next : s.step r = .more t) (unclosed : Move.closes ⟨s, t⟩ = false) :
    Widens r freed freed s t := by
  cases stepped next with
  | pass frames =>
    rw [frames] at entered
    exact h.quiet next (Or.inr entered) fun _ => id
  | close => simp [Move.closes] at unclosed
  | enter frames =>
    rw [frames] at entered
    refine h.quiet next (Or.inr ⟨rfl, Or.inl entered⟩) fun x held => ?_
    exact (blocked_enter _ _ _ _).mpr (Or.inr held)
  | release frames =>
    rw [frames] at entered
    cases entered.1
  | @defer v outer frames =>
    have held := h.exact.sound.blocked v (trail_cons frames ▸ List.mem_cons_self)
    rw [frames] at entered
    refine h.quiet next (Or.inr ?_) fun _ => id
    rcases entered.2 with deeper | ⟨mem, off⟩
    · exact deeper
    · -- with `v` the last such node leaves the trail, so that `v` would have to be free
      have free : s.blocked[v] = false :=
        (h.exact.step next).free_of_exits h.opened h.usable off (h.exits v mem) mem
      rw [held] at free
      cases free

theorem Loosened.step (h : Loosened r freed s) (next : s.step r = .more t)
    (unclosed : Move.closes ⟨s, t⟩ = false) : ∃ freed', Widens r freed freed' s t := by
  rcases h.phase with idle | entered
  · exact h.step_idle idle next unclosed
  · exact ⟨freed, h.step_entered entered next unclosed⟩

/-- Between two circuits each node is unblocked at most once. -/
theorem Leads.countP_frees (leads : Leads r s stretch t) (h : Loosened r freed s)
    (unclosed : ∀ m ∈ stretch, m.closes = false) :
    ∃ freed', Loosened r freed' t ∧ (∀ w, freed w → freed' w) ∧
      ∀ w, stretch.countP (Move.frees w) = 0 ∨
        (stretch.countP (Move.frees w) = 1 ∧ ¬ freed w ∧ freed' w) := by
  induction leads generalizing freed with
  | refl => exact ⟨freed, h, fun _ => id, fun _ => Or.inl rfl⟩
  | @step s t u stretch next _ ih =>
    obtain ⟨first, others⟩ := List.forall_mem_cons.mp unclosed
    obtain ⟨middle, widens⟩ := h.step next first
    obtain ⟨last, h, le, counts⟩ := ih widens.loosened others
    refine ⟨last, h, fun w mem => le w (widens.mono w mem), fun w => ?_⟩
    rw [List.countP_cons]
    cases here : Move.frees w ⟨s, t⟩ with
    | true =>
      obtain ⟨fresh, mem⟩ := widens.fresh w here
      rcases counts w with none | ⟨_, stale, _⟩
      · exact Or.inr ⟨by simp [none], fresh, le w mem⟩
      · exact absurd mem stale
    | false =>
      rcases counts w with none | ⟨once, fresh, mem⟩
      · exact Or.inl (by simp [none])
      · exact Or.inr ⟨by simp [once], fun old => fresh (widens.mono w old), mem⟩

/-! ## Whole runs -/

theorem Loosened.start (opened : r.allowed[r.start] = true) (room : Nat) :
    Loosened r (fun _ => False) (start r room) where
  exact := .start r room
  threaded := .start opened room
  opened
  usable _ := False.elim
  exits _ := False.elim
  phase := Or.inl ⟨fun _ _ => id, Bool.noConfusion, fun _ => trivial⟩

theorem Loosened.next (h : Loosened r freed s) (next : s.step r = .more t) :
    ∃ freed', Loosened r freed' t := by
  cases closes : Move.closes ⟨s, t⟩ with
  | false =>
    obtain ⟨freed', widens⟩ := h.step next closes
    exact ⟨freed', widens.loosened⟩
  | true =>
    cases stepped next with
    | close frames => exact ⟨_, h.close frames next⟩
    | pass => simp [Move.closes] at closes
    | enter => simp [Move.closes, Search.enter] at closes
    | release => simp [Move.closes, Search.release] at closes
    | defer => simp [Move.closes, Search.defer] at closes

theorem Leads.loosened (leads : Leads r s stretch t) (h : Loosened r freed s) :
    ∃ freed', Loosened r freed' t := by
  induction leads generalizing freed with
  | refl => exact ⟨freed, h⟩
  | step next _ ih =>
    obtain ⟨_, h⟩ := h.next next
    exact ih h

/-- While no frame has closed a circuit, nothing is unblocked. -/
theorem unclosed_step (none : ∀ f ∈ s.frames, f.closed = false) (next : s.step r = .more t)
    (unclosed : Move.closes ⟨s, t⟩ = false) :
    (∀ f ∈ t.frames, f.closed = false) ∧
      ∀ w : Fin k, s.blocked[w] = true → t.blocked[w] = true := by
  cases stepped next with
  | pass frames =>
    rw [frames] at none
    exact ⟨List.forall_mem_cons.mpr (List.forall_mem_cons.mp none), fun _ => id⟩
  | close => simp [Move.closes] at unclosed
  | enter frames =>
    rw [frames] at none
    refine ⟨List.forall_mem_cons.mpr ⟨rfl, ?_⟩, fun x held => ?_⟩
    · exact List.forall_mem_cons.mpr (List.forall_mem_cons.mp none)
    · exact (blocked_enter _ _ _ _).mpr (Or.inr held)
  | release frames =>
    rw [frames] at none
    cases none _ List.mem_cons_self
  | defer frames =>
    rw [frames] at none
    exact ⟨(List.forall_mem_cons.mp none).2, fun _ => id⟩

theorem Leads.countP_frees_first (leads : Leads r s stretch t)
    (none : ∀ f ∈ s.frames, f.closed = false) (unclosed : ∀ m ∈ stretch, m.closes = false)
    (w : Fin k) : stretch.countP (Move.frees w) = 0 := by
  induction leads with
  | refl => rfl
  | step next _ ih =>
    obtain ⟨first, others⟩ := List.forall_mem_cons.mp unclosed
    obtain ⟨none, kept⟩ := unclosed_step none next first
    rw [List.countP_cons, ih none others, no_frees kept]
    rfl

/-- Before the first circuit each node comes on the path at most once, the start node counted. -/
theorem Leads.countP_pushes_first {room : Nat} (leads : Leads r (Search.start r room) stretch t)
    (unclosed : ∀ m ∈ stretch, m.closes = false) (w : Fin k) :
    [r.start].count w + stretch.countP (Move.pushes w) ≤ 1 := by
  have none := leads.countP_frees_first (by simp [Search.start]) unclosed w
  have turns := leads.countP_pushes w
  have begin : (Search.start r room).blocked[w].toNat = [r.start].count w := by
    rw [Search.start, Adjacency.getElem_set_fin]
    by_cases here : r.start = w <;> simp [here]
  have held := Bool.toNat_le t.blocked[w]
  omega

/-- After the last circuit of a run that the cap does not stop, each node comes on the path at most
once. -/
theorem Leads.countP_pushes_last (leads : Leads r s stretch t) (h : Loosened r freed s)
    (unclosed : ∀ m ∈ stretch, m.closes = false) (left : t.frames = []) (w : Fin k) :
    stretch.countP (Move.pushes w) ≤ 1 := by
  obtain ⟨freed', h, _, counts⟩ := leads.countP_frees h unclosed
  have turns := leads.countP_pushes w
  rcases counts w with none | ⟨once, _, mem⟩
  · have held := Bool.toNat_le t.blocked[w]
    omega
  · -- the trail is empty, so the node that was unblocked has not come on it again
    rcases h.phase with idle | entered
    · have free := h.free idle mem
      rw [free, Bool.toNat_false] at turns
      omega
    · rw [left] at entered
      exact entered.elim

end Search

/-- The steps of the search for the circuits through the start node. -/
def Region.moves (r : Region k) (cap : Nat) : List (Move k) :=
  Search.moves r (Search.start r cap) (Search.Sound.start r cap)

/-- The steps that close a circuit are as many as the circuits found. -/
theorem Region.countP_closes (r : Region k) (cap : Nat) :
    (r.moves cap).countP Move.closes = (r.circuits cap).items.length := by
  obtain ⟨t, sound, leads, last, same⟩ := Search.exists_leads (List.append_nil (r.moves cap)).symm
  have found := leads.countP_closes
  rw [circuits, ← same, (Search.moves_eq_nil last).1, ← found]
  exact (Nat.zero_add _).symm

theorem countP_closes_eq_zero {stretch : List (Move k)}
    (unclosed : ∀ m ∈ stretch, m.closes = false) : stretch.countP Move.closes = 0 := by
  rw [List.countP_eq_zero]
  intro m mem
  simp [unclosed m mem]

theorem Region.start_allowed (adj : Adjacency k) (start : Fin k) :
    (Region.ofStart adj adj.transpose start).allowed[start] = true :=
  (Adjacency.allowed_ofStart adj.mem_transpose start start).mpr (.refl start)

/-- In a stretch of a run in which no circuit is found, each node comes on the path at most twice
and is unblocked at most once. In a stretch before the first circuit it comes on the path at most
once, the start node counted, which is there from the beginning; and so it does in a stretch after
the last circuit, if the cap does not stop the run. The circuits found are those closed before the
stretch and behind it. -/
theorem Region.work_between_circuits (adj : Adjacency k) (start : Fin k) (cap : Nat)
    {before stretch after : List (Move k)}
    (cut : (Region.ofStart adj adj.transpose start).moves cap = before ++ stretch ++ after)
    (unclosed : ∀ m ∈ stretch, m.closes = false) (w : Fin k) :
    stretch.countP (Move.pushes w) ≤ 2 ∧ stretch.countP (Move.frees w) ≤ 1 ∧
      ((∀ m ∈ before, m.closes = false) →
        [start].count w + stretch.countP (Move.pushes w) ≤ 1) ∧
      ((∀ m ∈ after, m.closes = false) →
        ((Region.ofStart adj adj.transpose start).circuits cap).truncated = false →
        stretch.countP (Move.pushes w) ≤ 1) ∧
      before.countP Move.closes + after.countP Move.closes =
        ((Region.ofStart adj adj.transpose start).circuits cap).items.length := by
  have closed := (Region.ofStart adj adj.transpose start).countP_closes cap
  rw [cut, List.countP_append, List.countP_append, countP_closes_eq_zero unclosed,
    Nat.add_zero] at closed
  obtain ⟨t, _, upTo, rest, same⟩ := Search.exists_leads cut
  obtain ⟨s, sound, first, within, same'⟩ := Search.exists_leads (cut.trans (List.append_assoc ..))
  obtain ⟨freed, loosened⟩ := first.loosened (.start (start_allowed adj start) cap)
  obtain ⟨t', _, through, _, _⟩ := Search.exists_leads within
  obtain ⟨_, _, _, counts⟩ := through.countP_frees loosened unclosed
  have turns := through.countP_pushes w
  have held := Bool.toNat_le t'.blocked[w]
  have frees : stretch.countP (Move.frees w) ≤ 1 := by
    rcases counts w with none | ⟨once, _⟩ <;> omega
  refine ⟨by omega, frees, ?_, ?_, closed⟩
  · intro unclosed'
    have pushes : [start].count w + (before ++ stretch).countP (Move.pushes w) ≤ 1 :=
      upTo.countP_pushes_first (List.forall_mem_append.mpr ⟨unclosed', unclosed⟩) w
    rw [List.countP_append] at pushes
    omega
  · intro unclosed' complete
    obtain ⟨u, sound', onward, last, same''⟩ :=
      Search.exists_leads (within.trans (List.append_nil _).symm)
    have left : u.frames = [] := by
      refine (Search.moves_eq_nil last).2 ?_
      rw [same'', same']
      exact complete
    have pushes := onward.countP_pushes_last loosened
      (List.forall_mem_append.mpr ⟨unclosed, unclosed'⟩) left w
    rw [List.countP_append] at pushes
    omega

/-- Two nodes that lead back and forth, and a detour from one to the other. -/
def detour : Region 3 :=
  Region.ofStart #v[[1, 2], [0, 2], [1]] (Adjacency.transpose #v[[1, 2], [0, 2], [1]]) 0

/-- Between its two circuits the search puts node 2 on the path twice: it is left without a circuit,
unblocked together with the node it waits for, and entered again. -/
theorem Region.work_between_circuits_detour :
    (∀ m ∈ ((detour.moves 2).drop 2).take 6, m.closes = false) ∧
      (((detour.moves 2).drop 2).take 6).countP (Move.pushes 2) = 2 ∧
      (((detour.moves 2).drop 2).take 6).countP (Move.frees 2) ≤ 1 := by
  have unclosed : ∀ m ∈ ((detour.moves 2).drop 2).take 6, m.closes = false := by
    have all : (((detour.moves 2).drop 2).take 6).all (fun m => !m.closes) = true := by cbv
    intro m mem
    simpa using List.all_eq_true.mp all m mem
  have cut : detour.moves 2 =
      (detour.moves 2).take 2 ++ ((detour.moves 2).drop 2).take 6 ++ (detour.moves 2).drop 8 := by
    rw [← List.take_add, List.take_append_drop]
  refine ⟨unclosed, ?_, (work_between_circuits _ 0 2 cut unclosed 2).2.1⟩
  cbv

end Coupling
