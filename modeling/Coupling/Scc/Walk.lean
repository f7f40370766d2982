import Coupling.Collection.Passes
import Coupling.Collection.Total
import Coupling.Graph.Adjacency
import Coupling.Limits

/-!
# The depth-first walk that completes strongly connected components

Nodes are numbered when they are entered and stay on a stack until their component is complete,
which is when a node that reaches no earlier number is left: the stack down to that node is then
one component. Every entered node and every arc followed costs one unit of the budget.
-/

namespace Coupling

/-- A node that has been entered, with the arcs still to be followed. -/
structure Visit (n : Nat) where
  node : Fin n
  pending : List (Fin n)

/-- The innermost visit, the top of the stack and the latest component stand first. -/
structure Walk (n : Nat) where
  visits : List (Visit n)
  stack : List (Fin n)
  number : Vector (Option Nat) n
  low : Vector Nat n
  onStack : Vector Bool n
  entered : Nat
  spent : Nat
  components : List (List (Fin n))

inductive Turn (n : Nat) where
  | goOn (s : Walk n)
  | finish (s : Walk n)

namespace Walk

variable {n : Nat}

def start (n : Nat) : Walk n where
  visits := []
  stack := []
  number := Vector.replicate n none
  low := Vector.replicate n 0
  onStack := Vector.replicate n false
  entered := 0
  spent := 0
  components := []

def spend (budget : WorkBudget) (s : Walk n) : Except Failure (Walk n) :=
  (budget.spend s.spent).map fun spent => { s with spent }

def enter (arcs : Adjacency n) (s : Walk n) (v : Fin n) : Walk n :=
  { s with
    visits := ⟨v, arcs[v]⟩ :: s.visits
    stack := v :: s.stack
    number := s.number.set v (some s.entered) v.isLt
    low := s.low.set v s.entered v.isLt
    onStack := s.onStack.set v true v.isLt
    entered := s.entered + 1 }

def lower (s : Walk n) (v : Fin n) (bound : Nat) : Walk n :=
  { s with low := s.low.set v (min s.low[v] bound) v.isLt }

/-- Follows the arc from the innermost node `v` to `w`, which its visit has already passed. -/
def follow (arcs : Adjacency n) (budget : WorkBudget) (s : Walk n) (v w : Fin n) :
    Except Failure (Walk n) := do
  let s ← s.spend budget
  match s.number[w] with
  | none => return (← s.spend budget).enter arcs w
  | some number => return if s.onStack[w] then s.lower v number else s

def unstack (onStack : Vector Bool n) (v : Fin n) : Vector Bool n := onStack.set v false v.isLt

/-- Takes the stack down to `v` as a component. -/
def complete (s : Walk n) (v : Fin n) : Walk n :=
  let (above, below) := s.stack.span (· ≠ v)
  let component := above ++ below.take 1
  { s with
    stack := below.drop 1
    onStack := component.foldl unstack s.onStack
    components := component :: s.components }

/-- Hands the least number that `v` reaches on to the visit around it. -/
def report (s : Walk n) (v : Fin n) : Walk n :=
  match s.visits with
  | [] => s
  | outer :: _ => s.lower outer.node s.low[v]

/-- Leaves `v`, whose visit has already been closed. -/
def leave (s : Walk n) (v : Fin n) : Walk n :=
  let s := s.report v
  if s.number[v] = some s.low[v] then s.complete v else s

/-- One step; the walk is finished when no visit is open. -/
def step (arcs : Adjacency n) (budget : WorkBudget) (s : Walk n) : Except Failure (Turn n) :=
  match s.visits with
  | [] => .ok (.finish s)
  | ⟨v, w :: pending⟩ :: outer =>
    (follow arcs budget { s with visits := ⟨v, pending⟩ :: outer } v w).map .goOn
  | ⟨v, []⟩ :: outer => .ok (.goOn (leave { s with visits := outer } v))

/-- The nodes still to be entered. -/
def fresh (s : Walk n) : Nat := s.number.countP Option.isNone

/-- The open visits and the arcs that they have still to follow. -/
def load (s : Walk n) : Nat :=
  total (s.visits.map fun visit => visit.pending.length + 1)

theorem fresh_enter (arcs : Adjacency n) (s : Walk n) (v : Fin n) (h : s.number[v] = none) :
    (s.enter arcs v).fresh < s.fresh := by
  have h : s.number[v.val] = none := h
  have pos : 0 < s.number.countP Option.isNone :=
    Vector.countP_pos_iff.mpr ⟨_, Vector.getElem_mem v.isLt, by rw [h]; rfl⟩
  simp only [fresh, enter, Vector.countP_set, h, Option.isNone_none, ↓reduceIte,
    Option.isNone_some, Bool.false_eq_true]
  omega

theorem report_frame (s : Walk n) (v : Fin n) :
    (s.report v).visits = s.visits ∧ (s.report v).number = s.number := by
  unfold report
  split <;> exact ⟨rfl, rfl⟩

theorem leave_frame (s : Walk n) (v : Fin n) :
    (s.leave v).visits = s.visits ∧ (s.leave v).number = s.number := by
  have h := report_frame s v
  unfold leave
  dsimp only
  split
  · exact h
  · exact h

theorem spend_eq_ok {budget : WorkBudget} {s t : Walk n} (h : s.spend budget = .ok t) :
    ∃ spent, budget.spend s.spent = .ok spent ∧ t = { s with spent } := by
  obtain ⟨spent, hb, rfl⟩ := map_eq_ok.mp h
  exact ⟨spent, hb, rfl⟩

/-- What following an arc can do. -/
theorem follow_eq_ok {arcs : Adjacency n} {budget : WorkBudget} {s t : Walk n} {v w : Fin n}
    (h : follow arcs budget s v w = .ok t) :
    ∃ spent, budget.spend s.spent = .ok spent ∧
      ((s.number[w] = none ∧ ∃ spent', budget.spend spent = .ok spent' ∧
          t = { s with spent := spent' }.enter arcs w) ∨
        ∃ number, s.number[w] = some number ∧
          t = if s.onStack[w] then { s with spent }.lower v number else { s with spent }) := by
  obtain ⟨s₁, h₁, h⟩ := bind_eq_ok.mp h
  obtain ⟨spent, hb, rfl⟩ := spend_eq_ok h₁
  refine ⟨spent, hb, ?_⟩
  dsimp only at h
  split at h
  next hn =>
    obtain ⟨s₂, h₂, h⟩ := bind_eq_ok.mp h
    obtain ⟨spent', hb', rfl⟩ := spend_eq_ok h₂
    cases h
    exact Or.inl ⟨hn, spent', hb', rfl⟩
  next number hn =>
    cases h
    exact Or.inr ⟨number, hn, rfl⟩

theorem follow_decreases {arcs : Adjacency n} {budget : WorkBudget} {s t : Walk n} {v w : Fin n}
    (h : follow arcs budget s v w = .ok t) :
    t.fresh < s.fresh ∨ (t.fresh = s.fresh ∧ t.load = s.load) := by
  obtain ⟨spent, _, ⟨hn, spent', _, rfl⟩ | ⟨number, hn, rfl⟩⟩ := follow_eq_ok h
  · exact Or.inl (fresh_enter arcs { s with spent := spent' } w hn)
  · right
    split <;> exact ⟨rfl, rfl⟩

theorem step_decreases {arcs : Adjacency n} {budget : WorkBudget} {s t : Walk n}
    (h : s.step arcs budget = .ok (.goOn t)) :
    t.fresh < s.fresh ∨ (t.fresh = s.fresh ∧ t.load < s.load) := by
  unfold step at h
  split at h
  next => cases h
  next v w pending outer hv =>
    obtain ⟨u, hf, eq⟩ := map_eq_ok.mp h
    cases eq
    rcases follow_decreases hf with lt | ⟨same, load⟩
    · exact Or.inl lt
    · refine Or.inr ⟨same, ?_⟩
      rw [load]
      simp [Walk.load, hv]
  next v outer hv =>
    cases h
    have frame := leave_frame { s with visits := outer } v
    refine Or.inr ⟨?_, ?_⟩
    · rw [fresh, frame.2]
      rfl
    · rw [load, frame.1]
      simp [load, hv]

def run (arcs : Adjacency n) (budget : WorkBudget) (s : Walk n) : Except Failure (Walk n) :=
  match h : s.step arcs budget with
  | .error failure => .error failure
  | .ok (.finish t) => .ok t
  | .ok (.goOn t) =>
    have := step_decreases h
    run arcs budget t
  termination_by (s.fresh, s.load)
  decreasing_by
    rcases this with lt | ⟨same, lt⟩
    · exact .left _ _ lt
    · rw [same]
      exact .right _ lt

/-- Starts a new walk at `root` unless an earlier one has entered it. -/
def fromRoot (arcs : Adjacency n) (budget : WorkBudget) (s : Walk n) (root : Fin n) :
    Except Failure (Walk n) := do
  if s.number[root].isSome then return s
  run arcs budget ((← s.spend budget).enter arcs root)

def all (arcs : Adjacency n) (budget : WorkBudget) : Except Failure (Walk n) :=
  (List.finRange n).foldlM (fromRoot arcs budget) (start n)

end Walk

end Coupling
