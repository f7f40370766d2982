import Coupling.Collection.Passes
import Coupling.Proofs.Scc.Steps

/-!
# Whole walks

The invariant holds at the end of every walk that its budget lets finish, when no visit is open and
every node has been entered; so the completed components are all there are (`all_condensed`).
Only the budget can keep a walk from finishing (`usedUp_of_all`, `exists_all`).
-/

namespace Coupling

/-- A limit of the budget has been reached, and this is the failure that says so. -/
def WorkBudget.UsedUp (budget : WorkBudget) (failure : Failure) : Prop :=
  ∃ limit, budget.limit = some limit ∧ failure = .outOfWork limit

theorem WorkBudget.usedUp_of_spend (budget : WorkBudget) {spent : Nat} {failure : Failure}
    (failed : budget.spend spent = .error failure) : budget.UsedUp failure := by
  unfold spend at failed
  split at failed
  next => cases failed
  next limit at_most =>
    split at failed
    next => cases failed
    next =>
      cases failed
      exact ⟨limit, at_most, rfl⟩

namespace Walk

variable {n : Nat} {arcs : Adjacency n} {budget : WorkBudget} {s t : Walk n}

/-- The invariant between two walks from different roots. -/
structure Rested (arcs : Adjacency n) (s : Walk n) : Prop where
  inv : Invariant arcs s
  visits : s.visits = []

/-- What one state has entered, the other has entered as well. -/
def Grows (s t : Walk n) : Prop :=
  ∀ v : Fin n, s.number[v].isSome = true → t.number[v].isSome = true

theorem Grows.refl (s : Walk n) : Grows s s := fun _ h => h

theorem Grows.trans {u : Walk n} (h : Grows s t) (h' : Grows t u) : Grows s u :=
  fun v hv => h' v (h v hv)

theorem grows_enter (arcs : Adjacency n) (s : Walk n) (w : Fin n) : Grows s (s.enter arcs w) :=
  fun v hv => (isSome_enter arcs s w v).mpr (Or.inr hv)

theorem step_grows (next : s.step arcs budget = .ok (.goOn t)) : Grows s t := by
  unfold step at next
  split at next
  next => cases next
  next v w pending outer visits =>
    obtain ⟨t', hf, eq⟩ := map_eq_ok.mp next
    cases eq
    obtain ⟨spent, _, ⟨_, spent', _, rfl⟩ | ⟨number, _, rfl⟩⟩ := follow_eq_ok hf
    · intro x hx
      exact (isSome_enter _ _ w x).mpr (Or.inr hx)
    · intro x hx
      split <;> exact hx
  next v outer visits =>
    cases next
    intro x hx
    rw [(leave_frame { s with visits := outer } v).2]
    exact hx

theorem step_finish (next : s.step arcs budget = .ok (.finish t)) : s = t ∧ t.visits = [] := by
  unfold step at next
  split at next
  next visits =>
    cases next
    exact ⟨rfl, visits⟩
  next v w pending outer visits =>
    obtain ⟨_, _, eq⟩ := map_eq_ok.mp next
    cases eq
  next => cases next

theorem run_rested (h : Invariant arcs s) (result : run arcs budget s = .ok t) :
    Rested arcs t ∧ Grows s t := by
  fun_induction run arcs budget s with
  | case1 s failure next => cases result
  | case2 s t' next =>
    cases result
    obtain ⟨rfl, visits⟩ := step_finish next
    exact ⟨⟨h, visits⟩, .refl s⟩
  | case3 s t' next _ ih =>
    obtain ⟨rested, grows⟩ := ih (h.step next) result
    exact ⟨rested, (step_grows next).trans grows⟩

theorem fromRoot_rested {root : Fin n} (h : Rested arcs s)
    (result : fromRoot arcs budget s root = .ok t) :
    Rested arcs t ∧ Grows s t ∧ t.number[root].isSome = true := by
  unfold fromRoot at result
  split at result
  next entered =>
    cases result
    exact ⟨h, .refl s, entered⟩
  next fresh =>
    have fresh : s.number[root] = none := by simpa using fresh
    obtain ⟨s', hs, result⟩ := bind_eq_ok.mp result
    obtain ⟨spent, _, rfl⟩ := spend_eq_ok hs
    have entered := (h.inv.withSpent spent).enter (w := root) fresh (by simp [h.visits])
    obtain ⟨rested, grows⟩ := run_rested entered result
    refine ⟨rested, (grows_enter arcs { s with spent } root).trans grows, ?_⟩
    exact grows root ((isSome_enter arcs _ root root).mpr (Or.inl rfl))

theorem foldlM_rested {roots : List (Fin n)} (h : Rested arcs s)
    (result : roots.foldlM (fromRoot arcs budget) s = .ok t) :
    Rested arcs t ∧ Grows s t ∧ ∀ v ∈ roots, t.number[v].isSome = true := by
  induction roots generalizing s with
  | nil =>
    cases result
    exact ⟨h, .refl t, by simp⟩
  | cons root roots ih =>
    obtain ⟨s', hr, result⟩ := foldlM_cons_eq_ok.mp result
    obtain ⟨rested, grows, entered⟩ := fromRoot_rested h hr
    obtain ⟨rested', grows', entered'⟩ := ih rested result
    refine ⟨rested', grows.trans grows', ?_⟩
    intro v hv
    rcases List.mem_cons.mp hv with rfl | hv
    · exact grows' v entered
    · exact entered' v hv

/-- The components of a walk over all roots are complete and hold every node. -/
theorem all_condensed (result : all arcs budget = .ok t) :
    arcs.Condensed t.components ∧ ∀ v, v ∈ t.components.flatten := by
  obtain ⟨rested, _, entered⟩ := foldlM_rested ⟨.start arcs, rfl⟩ result
  refine ⟨rested.inv.condensed, fun v => ?_⟩
  have stack : t.stack = [] := by
    have layers := rested.inv.layers
    rw [rested.visits] at layers
    exact layers
  refine ((rested.inv.entered v).mp (entered v (List.mem_finRange v))).resolve_left ?_
  rw [stack]
  exact List.not_mem_nil

/-! ## Running out of work

Nothing but the budget ends a walk early, so a walk without one is never cut short. -/

theorem usedUp_of_follow {v w : Fin n} {failure : Failure}
    (failed : follow arcs budget s v w = .error failure) : budget.UsedUp failure := by
  unfold follow at failed
  rcases bind_eq_error.mp failed with spending | ⟨s₁, _, failed⟩
  · exact budget.usedUp_of_spend (map_eq_error.mp spending)
  · split at failed
    next =>
      rcases bind_eq_error.mp failed with spending | ⟨s₂, _, entering⟩
      · exact budget.usedUp_of_spend (map_eq_error.mp spending)
      · cases entering
    next => cases failed

theorem usedUp_of_step {failure : Failure} (failed : s.step arcs budget = .error failure) :
    budget.UsedUp failure := by
  unfold step at failed
  split at failed
  next => cases failed
  next => exact usedUp_of_follow (map_eq_error.mp failed)
  next => cases failed

theorem usedUp_of_run {failure : Failure} (failed : run arcs budget s = .error failure) :
    budget.UsedUp failure := by
  fun_induction run arcs budget s with
  | case1 s failure' next =>
    cases failed
    exact usedUp_of_step next
  | case2 s t next => cases failed
  | case3 s t next _ ih => exact ih failed

theorem usedUp_of_fromRoot {root : Fin n} {failure : Failure}
    (failed : fromRoot arcs budget s root = .error failure) : budget.UsedUp failure := by
  unfold fromRoot at failed
  split at failed
  next => cases failed
  next =>
    rcases bind_eq_error.mp failed with spending | ⟨s', _, running⟩
    · exact budget.usedUp_of_spend (map_eq_error.mp spending)
    · exact usedUp_of_run running

theorem usedUp_of_all {failure : Failure} (failed : all arcs budget = .error failure) :
    budget.UsedUp failure := by
  obtain ⟨_, root, _, _, _, failed⟩ := foldlM_eq_error_iff.mp failed
  exact usedUp_of_fromRoot failed

theorem exists_all (arcs : Adjacency n) : ∃ t, all arcs .unbounded = .ok t := by
  cases result : all arcs .unbounded with
  | error failure =>
    obtain ⟨_, limit, _⟩ := usedUp_of_all result
    cases limit
  | ok t => exact ⟨t, rfl⟩

end Walk

/-- The order in which the components are completed is one in which none reaches a later one. -/
theorem Adjacency.condensation_completed {n : Nat} (arcs : Adjacency n) :
    arcs.Condensation arcs.completed := by
  obtain ⟨walk, result⟩ := Walk.exists_all arcs
  obtain ⟨condensed, covers⟩ := Walk.all_condensed result
  rw [completed, result]
  exact condensed.condensation covers

end Coupling
