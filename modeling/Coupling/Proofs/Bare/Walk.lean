import Coupling.Proofs.Bare.Access
import Coupling.Proofs.Scc.Run

/-!
# The walk on bare arrays

The depth-first walk over rows of targets, with frames that hold a node and the place of its next
arc. A node without a visit has the number `unvisited`, which no visit may get. On what a state of
the typed walk shows (`Walk.bare`) every step does what the typed one does (`follow_bare`,
`leave_bare`), as long as the numbers still to be given are below `unvisited` (`Walk.Within`).
-/

namespace Coupling

open Checked

/-- The innermost frame, the top of the stack and the latest component stand first. -/
structure BareWalk where
  frames : List (Nat × Nat)
  stack : List Nat
  index : Array Nat
  lowlink : Array Nat
  onStack : Array Bool
  nextIndex : Nat
  spent : Nat
  components : List (List Nat)

namespace BareWalk

def start (unvisited n : Nat) : BareWalk where
  frames := []
  stack := []
  index := Array.replicate n unvisited
  lowlink := Array.replicate n 0
  onStack := Array.replicate n false
  nextIndex := 0
  spent := 0
  components := []

def tick (budget : WorkBudget) (s : BareWalk) : Checked BareWalk := do
  let spent ← ofExcept (budget.spend s.spent)
  return { s with spent }

def enter (unvisited : Nat) (s : BareWalk) (v : Nat) : Checked BareWalk := do
  if unvisited ≤ s.nextIndex then fault .sentinel
  else
    let index ← store s.index v s.nextIndex
    let lowlink ← store s.lowlink v s.nextIndex
    let onStack ← store s.onStack v true
    return { s with
      frames := (v, 0) :: s.frames
      stack := v :: s.stack
      index, lowlink, onStack
      nextIndex := s.nextIndex + 1 }

def lower (s : BareWalk) (v bound : Nat) : Checked BareWalk := do
  let low ← fetch s.lowlink v
  let lowlink ← store s.lowlink v (min low bound)
  return { s with lowlink }

def follow (unvisited : Nat) (budget : WorkBudget) (s : BareWalk) (v w : Nat) :
    Checked BareWalk := do
  let s ← s.tick budget
  let number ← fetch s.index w
  if number = unvisited then
    let s ← s.tick budget
    s.enter unvisited w
  else
    let stacked ← fetch s.onStack w
    if stacked then s.lower v number else return s

/-- Takes nodes off the stack until `v` is taken; the nodes taken come with what is left. -/
def popTo (v : Nat) : List Nat → Array Bool → Checked (List Nat × List Nat × Array Bool)
  | [], _ => fault .exhausted
  | w :: stack, onStack => do
    let onStack ← store onStack w false
    if w = v then return ([w], stack, onStack)
    else
      let (component, stack, onStack) ← popTo v stack onStack
      return (w :: component, stack, onStack)

def report (s : BareWalk) (v : Nat) : Checked BareWalk :=
  match s.frames with
  | [] => return s
  | (parent, _) :: _ => do
    let low ← fetch s.lowlink v
    s.lower parent low

def leave (s : BareWalk) (v : Nat) : Checked BareWalk := do
  let s ← s.report v
  let low ← fetch s.lowlink v
  let number ← fetch s.index v
  if low = number then
    let (component, stack, onStack) ← popTo v s.stack s.onStack
    return { s with stack, onStack, components := component :: s.components }
  else return s

/-- Follows the next arc of the innermost node, or leaves that node if there is none. -/
def turn (targets : Array (Array Nat)) (unvisited : Nat) (budget : WorkBudget) (s : BareWalk) :
    Checked (BareWalk ⊕ BareWalk) := do
  match s.frames with
  | [] => return .inr s
  | (v, position) :: outer =>
    let row ← fetch targets v
    if position < row.size then
      let w ← fetch row position
      let s ← follow unvisited budget { s with frames := (v, position + 1) :: outer } v w
      return .inl s
    else
      let s ← leave { s with frames := outer } v
      return .inl s

noncomputable def fromRoot (targets : Array (Array Nat)) (unvisited : Nat) (budget : WorkBudget)
    (s : BareWalk) (root : Nat) : Checked BareWalk := do
  let number ← fetch s.index root
  if number = unvisited then
    let s ← s.tick budget
    let s ← s.enter unvisited root
    loop (turn targets unvisited budget) s
  else return s

noncomputable def all (targets : Array (Array Nat)) (unvisited : Nat) (budget : WorkBudget)
    (n : Nat) : Checked BareWalk :=
  (List.range n).foldlM (fromRoot targets unvisited budget) (start unvisited n)

end BareWalk

namespace Walk

variable {n : Nat} {arcs : Adjacency n} {s t : Walk n} {unvisited : Nat} {budget : WorkBudget}
  {v w : Fin n} {pending : List (Fin n)} {outer : List (Visit n)}

/-- What the bare arrays hold. -/
def bare (unvisited : Nat) (arcs : Adjacency n) (s : Walk n) : BareWalk where
  frames := s.visits.map fun visit =>
    (visit.node.val, arcs[visit.node].length - visit.pending.length)
  stack := s.stack.map Fin.val
  index := (s.number.map (Option.getD · unvisited)).toArray
  lowlink := s.low.toArray
  onStack := s.onStack.toArray
  nextIndex := s.entered
  spent := s.spent
  components := s.components.map (List.map Fin.val)

/-- However many nodes are still entered, their numbers are below the limit. -/
def Within (limit : Nat) (s : Walk n) : Prop := s.entered + s.fresh ≤ limit

theorem Within.start {limit : Nat} (le : n ≤ limit) : (Walk.start n).Within limit := by
  have fresh : (Walk.start n).fresh ≤ n := Vector.countP_le_size
  simp only [Within, Walk.start] at *
  omega

theorem Within.enter {limit : Nat} (h : s.Within limit) (new : s.number[v] = none) :
    (s.enter arcs v).Within limit := by
  have fewer := fresh_enter arcs s v new
  have entered : (s.enter arcs v).entered = s.entered + 1 := rfl
  simp only [Within] at *
  omega

theorem fresh_pos (new : s.number[v] = none) : 0 < s.fresh := by
  apply Vector.countP_pos_iff.mpr
  refine ⟨_, Vector.getElem_mem v.isLt, ?_⟩
  rw [← getElem_fin, new]
  rfl

theorem Within.room {limit : Nat} (h : s.Within limit) (new : s.number[v] = none) :
    s.entered < limit := by
  have pos := fresh_pos new
  simp only [Within] at h
  omega

/-! ## One step -/

theorem tick_bare (s : Walk n) : (s.bare unvisited arcs).tick budget =
    ofExcept ((s.spend budget).map (bare unvisited arcs)) := by
  rw [BareWalk.tick, spend]
  show ofExcept (budget.spend s.spent) >>= _ = _
  cases budget.spend s.spent <;> rfl

theorem enter_bare (h : s.Within unvisited) (new : s.number[w] = none) :
    (s.bare unvisited arcs).enter unvisited w = pure ((s.enter arcs w).bare unvisited arcs) := by
  have room : ¬ unvisited ≤ s.entered := Nat.not_le.mpr (h.room new)
  simp only [BareWalk.enter, bare, room, if_false, store_vector, pure_bind]
  simp [enter, Vector.map_set]

theorem lower_bare (s : Walk n) (v : Fin n) (bound : Nat) :
    (s.bare unvisited arcs).lower v bound = pure ((s.lower v bound).bare unvisited arcs) := by
  simp only [BareWalk.lower, bare, fetch_vector, store_vector, pure_bind]
  rfl

/-- A node is seen to be visited exactly when it is. -/
theorem fetch_index_bare (arcs : Adjacency n)
    (numbered : ∀ (v : Fin n) k, s.number[v] = some k → k < s.entered)
    (h : s.Within unvisited) (w : Fin n) :
    ∃ number, fetch (s.bare unvisited arcs).index w = pure number ∧
      (s.number[w] = none ∧ number = unvisited ∨
        s.number[w] = some number ∧ number ≠ unvisited) := by
  refine ⟨s.number[w].getD unvisited, ?_, ?_⟩
  · simp only [bare, fetch_vector]
    simp
  · cases number : s.number[w] with
    | none => exact Or.inl ⟨rfl, rfl⟩
    | some k =>
      have lt := numbered w k number
      simp only [Within] at h
      exact Or.inr ⟨rfl, by simp only [Option.getD_some]; omega⟩

theorem spend_frame (first : s.spend budget = .ok t) :
    t.number = s.number ∧ t.entered = s.entered := by
  obtain ⟨spent, _, rfl⟩ := spend_eq_ok first
  exact ⟨rfl, rfl⟩

theorem Within.spend {limit : Nat} (h : s.Within limit) (first : s.spend budget = .ok t) :
    t.Within limit := by
  obtain ⟨number, entered⟩ := spend_frame first
  simp only [Within, fresh] at *
  rw [number, entered]
  exact h

theorem follow_of_new (first : s.spend budget = .ok t) (new : t.number[w] = none) (v : Fin n) :
    follow arcs budget s v w = (t.spend budget).map fun t => t.enter arcs w := by
  simp only [follow, first, bind, Except.bind, new]
  cases t.spend budget <;> rfl

theorem follow_of_old {number : Nat} (first : s.spend budget = .ok t)
    (old : t.number[w] = some number) (v : Fin n) :
    follow arcs budget s v w = .ok (if t.onStack[w] then t.lower v number else t) := by
  simp only [follow, first, bind, Except.bind, old]
  rfl

theorem follow_bare (numbered : ∀ (v : Fin n) k, s.number[v] = some k → k < s.entered)
    (h : s.Within unvisited) (v w : Fin n) :
    (s.bare unvisited arcs).follow unvisited budget v w =
      ofExcept ((follow arcs budget s v w).map (bare unvisited arcs)) := by
  rw [BareWalk.follow, tick_bare]
  cases first : s.spend budget with
  | error e =>
    rw [follow, first]
    rfl
  | ok s₁ =>
    obtain ⟨number, entered⟩ := spend_frame first
    obtain ⟨k, seen, status⟩ :=
      fetch_index_bare arcs (by rw [number, entered]; exact numbered) (h.spend first) w
    show (fetch (s₁.bare unvisited arcs).index w.val >>= _) = _
    rw [seen, pure_bind]
    rcases status with ⟨new, eq⟩ | ⟨old, ne⟩
    · rw [if_pos eq, tick_bare, follow_of_new first new]
      cases second : s₁.spend budget with
      | error e => rfl
      | ok s₂ =>
        have new₂ : s₂.number[w] = none := by rw [(spend_frame second).1, new]
        exact enter_bare ((h.spend first).spend second) new₂
    · rw [if_neg ne, follow_of_old first old]
      show (fetch s₁.onStack.toArray w.val >>= _) = _
      rw [fetch_vector, pure_bind]
      cases s₁.onStack[w] with
      | true => exact lower_bare s₁ v k
      | false => rfl

theorem popTo_bare (stack : List (Fin n)) (onStack : Vector Bool n) (mem : v ∈ stack) :
    ∃ above below, stack = above ++ v :: below ∧ v ∉ above ∧
      BareWalk.popTo v.val (stack.map Fin.val) onStack.toArray =
        pure ((above ++ [v]).map Fin.val, below.map Fin.val,
          ((above ++ [v]).foldl unstack onStack).toArray) := by
  induction stack generalizing onStack with
  | nil => cases mem
  | cons w stack ih =>
    rw [List.map_cons, BareWalk.popTo, store_vector, pure_bind]
    by_cases here : w = v
    · subst here
      refine ⟨[], stack, rfl, List.not_mem_nil, ?_⟩
      rw [if_pos rfl]
      rfl
    · have ne : ¬ w.val = v.val := fun e => here (Fin.ext e)
      have mem := (List.mem_cons.mp mem).resolve_left fun e => here e.symm
      obtain ⟨above, below, rfl, off, popped⟩ := ih (onStack.set w false w.isLt) mem
      refine ⟨w :: above, below, rfl, ?_, ?_⟩
      · exact List.not_mem_cons_of_ne_of_not_mem (fun e => here e.symm) off
      · rw [if_neg ne, popped]
        rfl

theorem report_bare (s : Walk n) (v : Fin n) :
    (s.bare unvisited arcs).report v = pure ((s.report v).bare unvisited arcs) := by
  cases visits : s.visits with
  | nil => simp [BareWalk.report, report, bare, visits]
  | cons visit outer =>
    have shown : (s.bare unvisited arcs).frames =
        (visit.node.val, arcs[visit.node].length - visit.pending.length) ::
          outer.map fun visit =>
            (visit.node.val, arcs[visit.node].length - visit.pending.length) := by
      simp [bare, visits]
    simp only [BareWalk.report, shown, report, visits]
    show (fetch s.low.toArray v.val >>= _) = _
    rw [fetch_vector, pure_bind, lower_bare]

theorem report_keeps (s : Walk n) (v : Fin n) :
    (s.report v).stack = s.stack ∧ (s.report v).entered = s.entered := by
  unfold report
  split <;> exact ⟨rfl, rfl⟩

/-- The numbers of a node are compared, and the stack is taken down to it, where it is found. -/
theorem settle_bare (visited : s.number[v].isSome = true) (stacked : v ∈ s.stack) :
    (do
      let low ← fetch (s.bare unvisited arcs).lowlink v.val
      let number ← fetch (s.bare unvisited arcs).index v.val
      if low = number then
        let (component, stack, onStack) ←
          BareWalk.popTo v.val (s.bare unvisited arcs).stack (s.bare unvisited arcs).onStack
        return { s.bare unvisited arcs with
          stack, onStack
          components := component :: (s.bare unvisited arcs).components }
      else return s.bare unvisited arcs) =
      pure ((if s.number[v] = some s.low[v] then s.complete v else s).bare unvisited arcs) := by
  obtain ⟨k, number⟩ := Option.isSome_iff_exists.mp visited
  have index : fetch (s.bare unvisited arcs).index v.val = pure k := by
    simp only [bare, fetch_vector, getElem_fin, Vector.getElem_map]
    rw [← getElem_fin, number]
    rfl
  have low : fetch (s.bare unvisited arcs).lowlink v.val = pure s.low[v] :=
    fetch_vector s.low v
  obtain ⟨above, below, split, off, popped⟩ := popTo_bare s.stack s.onStack stacked
  rw [index, low, number, pure_bind, pure_bind]
  by_cases root : s.low[v] = k
  · rw [if_pos root, if_pos (congrArg some root.symm), complete_eq split off]
    show (BareWalk.popTo v.val (s.stack.map Fin.val) s.onStack.toArray >>= _) = _
    rw [popped, pure_bind]
    rfl
  · rw [if_neg root, if_neg fun e => root (Option.some.inj e).symm]

theorem leave_bare (unvisited : Nat) (arcs : Adjacency n)
    (visited : s.number[v].isSome = true) (stacked : v ∈ s.stack) :
    (s.bare unvisited arcs).leave v = pure ((s.leave v).bare unvisited arcs) := by
  have frame := report_frame s v
  have keeps := report_keeps s v
  rw [BareWalk.leave, report_bare, pure_bind]
  exact settle_bare (by rw [frame.2]; exact visited) (by rw [keeps.1]; exact stacked)

/-! ## Whole walks -/

theorem leave_entered (s : Walk n) (v : Fin n) : (s.leave v).entered = s.entered := by
  unfold leave
  dsimp only
  split <;> exact (report_keeps s v).2

theorem Within.step {limit : Nat} (h : s.Within limit)
    (next : s.step arcs budget = .ok (.goOn t)) : t.Within limit := by
  unfold Walk.step at next
  split at next
  next => cases next
  next v w pending outer visits =>
    obtain ⟨t', hf, eq⟩ := map_eq_ok.mp next
    cases eq
    obtain ⟨spent, _, ⟨new, spent', _, rfl⟩ | ⟨number, _, rfl⟩⟩ := follow_eq_ok hf
    · exact Within.enter (s := { s with visits := ⟨v, pending⟩ :: outer, spent := spent' }) h new
    · split <;> exact h
  next v outer visits =>
    cases next
    have frame := leave_frame { s with visits := outer } v
    have entered := leave_entered { s with visits := outer } v
    simp only [Within, fresh] at *
    rw [frame.2, entered]
    exact h

/-- The frame of the innermost visit stands at the arc that the visit has to follow next. -/
theorem frames_bare (unvisited : Nat) (h : Invariant arcs s)
    (visits : s.visits = ⟨v, pending⟩ :: outer) :
    ∃ followed, arcs[v] = followed ++ pending ∧ (s.bare unvisited arcs).frames =
      (v.val, followed.length) :: (bare unvisited arcs { s with visits := outer }).frames := by
  obtain ⟨above, below, split, layer, _⟩ := h.top visits
  obtain ⟨followed, row, _⟩ := layer.followed
  have row : arcs[v] = followed ++ pending := row
  have position : arcs[v].length - pending.length = followed.length := by
    rw [row, List.length_append]
    omega
  refine ⟨followed, row, ?_⟩
  simp only [bare, visits, List.map_cons, position]

theorem turn_leave (h : Invariant arcs s) (visits : s.visits = ⟨v, []⟩ :: outer) :
    BareWalk.turn arcs.bare unvisited budget (s.bare unvisited arcs) =
      pure (.inl ((leave { s with visits := outer } v).bare unvisited arcs)) := by
  obtain ⟨followed, row, frames⟩ := frames_bare unvisited h visits
  obtain ⟨above, below, split, _⟩ := h.top visits
  have stacked : v ∈ s.stack := by simp [split]
  have last : ¬ followed.length < (arcs[v].map Fin.val).toArray.size := by
    simp [row]
  have left := leave_bare unvisited arcs (s := { s with visits := outer })
    (h.stacked_entered stacked) stacked
  rw [BareWalk.turn, frames]
  dsimp only
  rw [Adjacency.fetch_bare, pure_bind, if_neg last]
  show (BareWalk.leave (bare unvisited arcs { s with visits := outer }) v.val >>= _) = _
  rw [left, pure_bind]

theorem turn_follow (h : Invariant arcs s) (within : s.Within unvisited)
    (visits : s.visits = ⟨v, w :: pending⟩ :: outer) :
    BareWalk.turn arcs.bare unvisited budget (s.bare unvisited arcs) =
      ofExcept ((follow arcs budget { s with visits := ⟨v, pending⟩ :: outer } v w).map fun t =>
        Sum.inl (t.bare unvisited arcs)) := by
  obtain ⟨followed, row, frames⟩ := frames_bare unvisited h visits
  have more : followed.length < (arcs[v].map Fin.val).toArray.size := by
    simp [row]
  have next : fetch (arcs[v].map Fin.val).toArray followed.length = pure w.val := by
    apply fetch_eq
    simp [row]
  have position : arcs[v].length - pending.length = followed.length + 1 := by
    rw [row, List.length_append, List.length_cons]
    omega
  have passed : { s.bare unvisited arcs with
      frames := (v.val, followed.length + 1) ::
        (bare unvisited arcs { s with visits := outer }).frames } =
      bare unvisited arcs { s with visits := ⟨v, pending⟩ :: outer } := by
    simp only [bare, List.map_cons, position]
  rw [BareWalk.turn, frames]
  dsimp only
  rw [Adjacency.fetch_bare, pure_bind, if_pos more, next, pure_bind, passed,
    follow_bare (s := { s with visits := ⟨v, pending⟩ :: outer }) h.number_lt within]
  cases follow arcs budget { s with visits := ⟨v, pending⟩ :: outer } v w <;> rfl

/-- What a turn comes to on bare arrays. -/
def turnBare (unvisited : Nat) (arcs : Adjacency n) : Turn n → BareWalk ⊕ BareWalk
  | .goOn t => .inl (t.bare unvisited arcs)
  | .finish t => .inr (t.bare unvisited arcs)

/-- A turn of the loop over the frames is a step of the walk. -/
theorem turn_bare (budget : WorkBudget) (h : Invariant arcs s) (within : s.Within unvisited) :
    BareWalk.turn arcs.bare unvisited budget (s.bare unvisited arcs) =
      ofExcept ((s.step arcs budget).map (turnBare unvisited arcs)) := by
  unfold step
  split
  next visits =>
    have frames : (s.bare unvisited arcs).frames = [] := by simp [bare, visits]
    rw [BareWalk.turn, frames]
    rfl
  next v w pending outer visits =>
    rw [turn_follow h within visits]
    cases follow arcs budget { s with visits := ⟨v, pending⟩ :: outer } v w <;> rfl
  next v outer visits => exact turn_leave h visits

/-- The bare walk ends where the typed one does. -/
theorem run_bare (h : Invariant arcs s) (within : s.Within unvisited) :
    loop (BareWalk.turn arcs.bare unvisited budget) (s.bare unvisited arcs) =
      ofExcept ((run arcs budget s).map (bare unvisited arcs)) := by
  fun_induction run arcs budget s with
  | case1 s failure next =>
    have turn := turn_bare budget h within
    rw [next] at turn
    exact loop_stop turn
  | case2 s t next =>
    have turn := turn_bare budget h within
    rw [next] at turn
    exact loop_done turn
  | case3 s t next _ ih =>
    have turn := turn_bare budget h within
    rw [next] at turn
    rw [loop_again turn]
    exact ih (h.step next) (within.step next)

theorem fromRoot_bare {root : Fin n} (h : Rested arcs s) (within : s.Within unvisited) :
    BareWalk.fromRoot arcs.bare unvisited budget (s.bare unvisited arcs) root.val =
      ofExcept ((fromRoot arcs budget s root).map (bare unvisited arcs)) := by
  obtain ⟨number, seen, status⟩ :=
    fetch_index_bare arcs h.inv.number_lt within root
  rw [BareWalk.fromRoot, seen, pure_bind, fromRoot]
  rcases status with ⟨new, eq⟩ | ⟨old, ne⟩
  · rw [if_pos eq, tick_bare, new]
    show _ = ofExcept (Except.map _ (s.spend budget >>= _))
    cases first : s.spend budget with
    | error e => rfl
    | ok s₁ =>
      obtain ⟨spent, _, rfl⟩ := spend_eq_ok first
      have entered := (h.inv.withSpent spent).enter (w := root) new (by simp [h.visits])
      have within₁ : Within unvisited { s with spent } := within
      show (BareWalk.enter unvisited (bare unvisited arcs { s with spent }) root.val >>= _) = _
      rw [enter_bare within₁ new]
      exact run_bare entered (within₁.enter new)
  · rw [if_neg ne, old]
    rfl

theorem run_within (within : s.Within unvisited) (result : run arcs budget s = .ok t) :
    t.Within unvisited := by
  fun_induction run arcs budget s with
  | case1 => cases result
  | case2 s t' next =>
    cases result
    obtain ⟨rfl, _⟩ := step_finish next
    exact within
  | case3 s t' next _ ih => exact ih (within.step next) result

theorem fromRoot_within {root : Fin n} (within : s.Within unvisited)
    (result : fromRoot arcs budget s root = .ok t) : t.Within unvisited := by
  unfold fromRoot at result
  split at result
  next =>
    cases result
    exact within
  next fresh =>
    have fresh : s.number[root] = none := by simpa using fresh
    obtain ⟨s', hs, result⟩ := bind_eq_ok.mp result
    have new : s'.number[root] = none := by rw [(spend_frame hs).1, fresh]
    exact run_within ((within.spend hs).enter new) result

theorem foldlM_bare {roots : List (Fin n)} (h : Rested arcs s) (within : s.Within unvisited) :
    (roots.map Fin.val).foldlM (BareWalk.fromRoot arcs.bare unvisited budget)
        (s.bare unvisited arcs) =
      ofExcept ((roots.foldlM (fromRoot arcs budget) s).map (bare unvisited arcs)) := by
  induction roots generalizing s with
  | nil => rfl
  | cons root roots ih =>
    rw [List.map_cons, List.foldlM_cons, List.foldlM_cons, fromRoot_bare h within]
    cases next : fromRoot arcs budget s root with
    | error e => rfl
    | ok t => exact ih (fromRoot_rested h next).1 (fromRoot_within within next)

theorem all_bare (arcs : Adjacency n) (budget : WorkBudget) (le : n ≤ unvisited) :
    BareWalk.all arcs.bare unvisited budget n =
      ofExcept ((all arcs budget).map (bare unvisited arcs)) := by
  have begin : BareWalk.start unvisited n = (Walk.start n).bare unvisited arcs := by
    simp [BareWalk.start, Walk.start, bare]
  rw [BareWalk.all, begin, ← List.map_coe_finRange_eq_range]
  exact foldlM_bare ⟨.start arcs, rfl⟩ (.start le)

end Walk

end Coupling
