import Coupling.Cycle.Basic
import Coupling.Proofs.Collection.Counting
import Coupling.Proofs.Cycle.Detection
import Coupling.Proofs.Scc.Partition

/-!
# What a walk costs

Entering a node costs one unit and so does following an arc. What a walk has still to pay is known
in advance (`Walk.owed`), and no step changes it together with what has been paid (`Paid`): so the
walk over all roots costs the number of nodes and arcs (`spent_all`). A walk under a limit goes like
the one without a limit until it would have to pay more (`Metered`), so a limit only decides whether
there is a result.
-/

namespace Coupling

theorem WorkBudget.spend_eq_ok {budget : WorkBudget} {spent spent' : Nat}
    (paid : budget.spend spent = .ok spent') : spent' = spent + 1 := by
  unfold spend at paid
  split at paid
  next =>
    cases paid
    rfl
  next =>
    split at paid
    next =>
      cases paid
      rfl
    next => cases paid

namespace Walk

variable {n : Nat} {arcs : Adjacency n} {budget : WorkBudget} {s t u : Walk n} {v w root : Fin n}
  {pending : List (Fin n)} {outer : List (Visit n)} {roots : List (Fin n)} {limit : Nat}

/-! ## The cost of a whole walk -/

/-- What it costs to enter a node and to follow its arcs, unless it has been entered. -/
def due (arcs : Adjacency n) (s : Walk n) (v : Fin n) : Nat :=
  if s.number[v].isSome then 0 else arcs[v].length + 1

/-- The arcs that the open visits have still to follow. -/
def left (s : Walk n) : Nat := total (s.visits.map fun visit => visit.pending.length)

def owed (arcs : Adjacency n) (s : Walk n) : Nat := ∑ v, s.due arcs v + s.left

/-- What has been paid and what is owed come to the same in both states. -/
def Paid (arcs : Adjacency n) (s t : Walk n) : Prop :=
  t.spent + t.owed arcs = s.spent + s.owed arcs

theorem Paid.trans (h : Paid arcs s t) (h' : Paid arcs t u) : Paid arcs s u := Eq.trans h' h

theorem due_enter (fresh : s.number[v] = none) (w : Fin n) :
    s.due arcs w = (s.enter arcs v).due arcs w + if w = v then arcs[v].length + 1 else 0 := by
  rw [due, due, enter, Adjacency.getElem_set_fin]
  by_cases here : v = w
  · subst here
    simp [fresh]
  · simp [here, Ne.symm here]

theorem owed_enter (fresh : s.number[v] = none) :
    (s.enter arcs v).owed arcs + 1 = s.owed arcs := by
  have opened : (s.enter arcs v).left = arcs[v].length + s.left := by simp [left, enter]
  have entered : ∑ w, s.due arcs w = ∑ w, (s.enter arcs v).due arcs w + (arcs[v].length + 1) := by
    simp only [due_enter fresh, Finset.sum_add_distrib, Finset.sum_ite_eq', Finset.mem_univ,
      if_true]
  rw [owed, owed, opened, entered]
  omega

/-- The arc that is followed is no longer owed: its visit has already passed it. -/
theorem paid_follow (next : follow arcs budget s v w = .ok t) :
    t.spent + t.owed arcs = s.spent + 1 + s.owed arcs := by
  obtain ⟨spent, paid, ⟨fresh, spent', paid', rfl⟩ | ⟨number, _, rfl⟩⟩ := follow_eq_ok next
  · have entered : (enter arcs { s with spent := spent' } w).owed arcs + 1 = s.owed arcs :=
      owed_enter (s := { s with spent := spent' }) fresh
    have total := WorkBudget.spend_eq_ok paid
    have total' := WorkBudget.spend_eq_ok paid'
    show spent' + _ = _
    omega
  · have total := WorkBudget.spend_eq_ok paid
    rw [← total]
    split <;> rfl

theorem owed_pass (visits : s.visits = ⟨v, w :: pending⟩ :: outer) :
    owed arcs { s with visits := ⟨v, pending⟩ :: outer } + 1 = s.owed arcs := by
  have fewer : left { s with visits := ⟨v, pending⟩ :: outer } + 1 = s.left := by
    simp only [left, visits, List.map_cons, total_cons, List.length_cons]
    omega
  rw [owed, owed, ← fewer]
  rfl

theorem spent_leave (s : Walk n) (v : Fin n) : (s.leave v).spent = s.spent := by
  have reported : (s.report v).spent = s.spent := by
    unfold report
    split <;> rfl
  unfold leave
  dsimp only
  split
  · exact reported
  · exact reported

theorem paid_leave (visits : s.visits = ⟨v, []⟩ :: outer) :
    Paid arcs s (leave { s with visits := outer } v) := by
  obtain ⟨same_visits, same_number⟩ := leave_frame { s with visits := outer } v
  have left_eq : left (leave { s with visits := outer } v) = s.left := by
    simp [left, same_visits, visits]
  have due_eq : ∀ w, due arcs (leave { s with visits := outer } v) w = s.due arcs w := by
    intro w
    rw [due, due, same_number]
  rw [Paid, spent_leave, owed, owed, left_eq]
  simp only [due_eq]

theorem paid_step (next : s.step arcs budget = .ok (.goOn t)) : Paid arcs s t := by
  unfold step at next
  split at next
  next => cases next
  next v w pending outer visits =>
    obtain ⟨t', followed, eq⟩ := map_eq_ok.mp next
    cases eq
    have passed : owed arcs _ + 1 = _ := owed_pass visits
    have paid := paid_follow followed
    rw [Paid, paid, ← passed]
    exact Nat.add_right_comm _ _ _
  next v outer visits =>
    cases next
    exact paid_leave visits

theorem paid_run (result : run arcs budget s = .ok t) : Paid arcs s t := by
  fun_induction run arcs budget s with
  | case1 s failure next => cases result
  | case2 s t' next =>
    cases result
    obtain ⟨rfl, _⟩ := step_finish next
    rfl
  | case3 s t' next _ ih => exact (paid_step next).trans (ih result)

theorem paid_fromRoot (result : fromRoot arcs budget s root = .ok t) : Paid arcs s t := by
  unfold fromRoot at result
  split at result
  next =>
    cases result
    rfl
  next fresh =>
    have fresh : s.number[root] = none := by simpa using fresh
    obtain ⟨s', hs, result⟩ := bind_eq_ok.mp result
    obtain ⟨spent, paid, rfl⟩ := Walk.spend_eq_ok hs
    have entered : (enter arcs { s with spent } root).owed arcs + 1 = s.owed arcs :=
      owed_enter (s := { s with spent }) fresh
    have total := WorkBudget.spend_eq_ok paid
    have begun : Paid arcs s (enter arcs { s with spent } root) := by
      show spent + _ = _
      omega
    exact begun.trans (paid_run result)

theorem paid_foldlM (result : roots.foldlM (fromRoot arcs budget) s = .ok t) : Paid arcs s t := by
  induction roots generalizing s with
  | nil =>
    cases result
    rfl
  | cons root roots ih =>
    obtain ⟨s', first, rest⟩ := foldlM_cons_eq_ok.mp result
    exact (paid_fromRoot first).trans (ih rest)

/-- A walk over all roots pays for every node and for every arc once. -/
theorem spent_all (result : all arcs budget = .ok t) :
    t.spent = n + ∑ v : Fin n, arcs[v].length := by
  obtain ⟨rested, _, entered⟩ := foldlM_rested ⟨.start arcs, rfl⟩ result
  have paid := paid_foldlM result
  have owed_start : (start n).owed arcs = n + ∑ v : Fin n, arcs[v].length := by
    simp [owed, due, left, start, Finset.sum_add_distrib, Nat.add_comm]
  have owed_end : t.owed arcs = 0 := by
    have all : ∀ v, t.due arcs v = 0 := fun v => if_pos (entered v (List.mem_finRange v))
    simp [owed, all, left, rested.visits]
  rw [Paid, owed_start, owed_end] at paid
  exact paid.trans (Nat.zero_add _)

/-! ## Walks under a limit -/

/-- The state, if no more has been paid for it than the limit. -/
def within (limit : Nat) (t : Walk n) : Except Failure (Walk n) :=
  if t.spent ≤ limit then .ok t else .error (.outOfWork limit)

/-- Without a limit the computation leads from `s` to `t`, and with one that `s` has kept to it does
so if `t` keeps to it. -/
structure Metered (s t : Walk n) (compute : WorkBudget → Except Failure (Walk n)) : Prop where
  free : compute .unbounded = .ok t
  spends : s.spent ≤ t.spent
  limited : ∀ limit, s.spent ≤ limit → compute ⟨some limit⟩ = t.within limit

/-- What costs nothing goes alike under every limit. -/
theorem Metered.ok (same : t.spent = s.spent) : Metered s t fun _ => .ok t where
  free := rfl
  spends := same.ge
  limited _ le := (if_pos (same.le.trans le)).symm

theorem Metered.bind {compute : WorkBudget → Except Failure (Walk n)}
    {go : WorkBudget → Walk n → Except Failure (Walk n)} (first : Metered s t compute)
    (rest : Metered t u fun budget => go budget t) :
    Metered s u fun budget => compute budget >>= go budget where
  free := bind_eq_ok.mpr ⟨t, first.free, rest.free⟩
  spends := first.spends.trans rest.spends
  limited limit le := by
    rw [first.limited limit le, within]
    split
    next kept => exact rest.limited limit kept
    next spent =>
      have more := rest.spends
      rw [within, if_neg (by omega)]
      rfl

theorem metered_spend (s : Walk n) :
    Metered s { s with spent := s.spent + 1 } fun budget => s.spend budget where
  free := rfl
  spends := Nat.le_succ _
  limited limit _ := by
    rw [spend, WorkBudget.spend, within]
    dsimp only
    split <;> rfl

/-- What is done at the end of an arc from `v` to `w` that has been paid for. -/
def arrive (arcs : Adjacency n) (budget : WorkBudget) (s : Walk n) (v w : Fin n) :
    Except Failure (Walk n) :=
  match s.number[w] with
  | none => s.spend budget >>= fun s => .ok (s.enter arcs w)
  | some number => .ok (if s.onStack[w] then s.lower v number else s)

theorem metered_arrive (arcs : Adjacency n) (s : Walk n) (v w : Fin n) :
    ∃ t, Metered s t fun budget => arrive arcs budget s v w := by
  unfold arrive
  split
  next => exact ⟨_, (metered_spend s).bind (.ok (t := enter arcs _ w) rfl)⟩
  next number entered =>
    refine ⟨_, .ok ?_⟩
    split <;> rfl

theorem metered_follow (arcs : Adjacency n) (s : Walk n) (v w : Fin n) :
    ∃ t, Metered s t fun budget => follow arcs budget s v w := by
  obtain ⟨t, arrived⟩ := metered_arrive arcs { s with spent := s.spent + 1 } v w
  exact ⟨t, (metered_spend s).bind arrived⟩

/-- A step that goes on does so at a cost that is the same under every limit. -/
theorem metered_step (arcs : Adjacency n) (s : Walk n) :
    (∀ budget, s.step arcs budget = .ok (.finish s)) ∨
      ∃ t compute, Metered s t compute ∧
        ∀ budget, s.step arcs budget = (compute budget).map .goOn := by
  unfold step
  split
  next => exact Or.inl fun _ => rfl
  next v w pending outer visits =>
    obtain ⟨t, metered⟩ := metered_follow arcs { s with visits := ⟨v, pending⟩ :: outer } v w
    exact Or.inr ⟨t, _, ⟨metered.free, metered.spends, metered.limited⟩, fun _ => rfl⟩
  next v outer visits =>
    have same : (leave { s with visits := outer } v).spent = s.spent := spent_leave _ v
    exact Or.inr ⟨_, _, .ok same, fun _ => rfl⟩

theorem run_of_goOn {next : Except Failure (Walk n)}
    (step : s.step arcs budget = next.map .goOn) :
    run arcs budget s = next >>= run arcs budget := by
  rw [run]
  cases next with
  | error failure =>
    split
    next eq =>
      cases step.symm.trans eq
      rfl
    next eq => cases step.symm.trans eq
    next eq => cases step.symm.trans eq
  | ok t =>
    split
    next eq => cases step.symm.trans eq
    next eq => cases step.symm.trans eq
    next eq =>
      cases step.symm.trans eq
      rfl

theorem run_of_finish (step : s.step arcs budget = .ok (.finish t)) :
    run arcs budget s = .ok t := by
  rw [run]
  split
  next eq => cases step.symm.trans eq
  next eq =>
    cases step.symm.trans eq
    rfl
  next eq => cases step.symm.trans eq

theorem metered_run (arcs : Adjacency n) (s : Walk n) :
    ∃ t, Metered s t fun budget => run arcs budget s := by
  fun_induction run arcs .unbounded s with
  | case1 s failure next =>
    rcases metered_step arcs s with finish | ⟨t, compute, metered, step⟩
    · cases (finish _).symm.trans next
    · rw [step, metered.free] at next
      cases next
  | case2 s t next =>
    rcases metered_step arcs s with finish | ⟨t, compute, metered, step⟩
    · refine ⟨s, ?_⟩
      simp only [run_of_finish (finish _)]
      exact .ok rfl
    · rw [step, metered.free] at next
      cases next
  | case3 s t next _ ih =>
    rcases metered_step arcs s with finish | ⟨t', compute, metered, step⟩
    · cases (finish _).symm.trans next
    · rw [step, metered.free] at next
      cases next
      obtain ⟨u, rest⟩ := ih
      refine ⟨u, ?_⟩
      simp only [run_of_goOn (step _)]
      exact metered.bind rest

theorem metered_fromRoot (arcs : Adjacency n) (s : Walk n) (root : Fin n) :
    ∃ t, Metered s t fun budget => fromRoot arcs budget s root := by
  unfold fromRoot
  split
  next => exact ⟨s, .ok rfl⟩
  next =>
    obtain ⟨t, rest⟩ := metered_run arcs (enter arcs { s with spent := s.spent + 1 } root)
    have entered : Metered { s with spent := s.spent + 1 }
        (enter arcs { s with spent := s.spent + 1 } root) fun _ => .ok _ := .ok rfl
    exact ⟨t, (metered_spend s).bind (entered.bind rest)⟩

theorem metered_foldlM (arcs : Adjacency n) (s : Walk n) (roots : List (Fin n)) :
    ∃ t, Metered s t fun budget => roots.foldlM (fromRoot arcs budget) s := by
  induction roots generalizing s with
  | nil => exact ⟨s, .ok rfl⟩
  | cons root roots ih =>
    obtain ⟨m, first⟩ := metered_fromRoot arcs s root
    obtain ⟨t, rest⟩ := ih m
    refine ⟨t, ?_⟩
    simp only [List.foldlM_cons]
    exact first.bind rest

/-- A limit lets the walk over all roots finish if there are not more nodes and arcs than units. -/
theorem all_within (arcs : Adjacency n) :
    ∃ t, all arcs .unbounded = .ok t ∧ ∀ limit, all arcs ⟨some limit⟩ =
      if n + ∑ v : Fin n, arcs[v].length ≤ limit then .ok t else .error (.outOfWork limit) := by
  obtain ⟨t, metered⟩ := metered_foldlM arcs (start n) (List.finRange n)
  refine ⟨t, metered.free, ?_⟩
  intro limit
  rw [← spent_all metered.free]
  exact metered.limited limit (Nat.zero_le _)

end Walk

namespace Graph

variable {ν δ : Type}

/-- Every edge is an arc of one node. -/
theorem sum_length_arcs (g : Graph ν δ) : ∑ v : Fin g.size, g.arcs[v].length = g.edgeCount := by
  have length : ∀ v : Fin g.size, g.arcs[v].length = g.outgoing[v].length := by
    intro v
    simp [arcs, targets]
  have outgoing : ∀ v : Fin g.size, g.outgoing[v].Nodup := by
    intro v
    rw [g.outgoing_eq]
    exact (List.nodup_finRange _).filter _
  have mirror : ∀ (v : Fin g.size) (e : Fin g.edgeCount),
      v ∈ [g.edges[e].source] ↔ e ∈ g.outgoing[v] := by
    intro v e
    rw [List.mem_singleton, g.mem_outgoing, eq_comm]
  have sources : ∑ v : Fin g.size, g.outgoing[v].length =
      ∑ e : Fin g.edgeCount, [g.edges[e].source].length :=
    sum_length_eq_sum_length outgoing (fun _ => List.nodup_singleton _) mirror
  simp only [length]
  rw [sources]
  simp

/-- A limit on the work fails exactly those graphs that have more nodes and edges than it has units,
and changes nothing for the others: neither their components nor their cycles. -/
theorem sccs_within_limit (g : Graph ν δ) (limit : Nat) :
    (∃ sccs, g.sccs .unbounded = .ok sccs ∧ SccPartition g.Arc sccs ∧ g.sccs ⟨some limit⟩ =
      if g.size + g.edgeCount ≤ limit then .ok sccs else .error (.outOfWork limit)) ∧
    ∃ all, g.Exhausts all ∧ ∀ limits : CycleLimits, ∃ result,
      g.cycles limits .unbounded = .ok result ∧
      result = (Capped.cut limits.maxCycles all).map (g.cycleOf limits.maxEdgesPerStep) ∧
      g.cycles limits ⟨some limit⟩ =
        if g.size + g.edgeCount ≤ limit then .ok result else .error (.outOfWork limit) := by
  obtain ⟨t, free, limited⟩ := Walk.all_within g.arcs
  have limited := limited limit
  rw [g.sum_length_arcs] at limited
  have sccs : ∃ sccs, g.sccs .unbounded = .ok sccs ∧ g.sccs ⟨some limit⟩ =
      if g.size + g.edgeCount ≤ limit then .ok sccs else .error (.outOfWork limit) := by
    refine ⟨_, map_eq_ok.mpr ⟨t, free, rfl⟩, ?_⟩
    rw [Graph.sccs, Adjacency.sccs, limited]
    split <;> rfl
  obtain ⟨sccs, free, limited⟩ := sccs
  refine ⟨⟨sccs, free, g.sccs_eq_ok free, limited⟩, ?_⟩
  obtain ⟨all, exhausts, cut⟩ := g.exists_exhausts
  refine ⟨all, exhausts, ?_⟩
  intro limits
  refine ⟨_, cut limits, rfl, ?_⟩
  have unlimited := cut limits
  rw [cycles, free] at unlimited
  rw [cycles, limited]
  split
  next => exact unlimited
  next => rfl

end Graph

end Coupling
