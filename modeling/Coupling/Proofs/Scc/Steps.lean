import Coupling.Proofs.Scc.Invariant
import Mathlib.Data.List.TakeDrop

/-!
# The steps of the walk keep the invariant

One lemma for each thing a step can do: entering a node, lowering a low number, merging the layer of
a node that is left into the one around it, and taking the top layer off the stack as a component.
`Invariant.step` puts them together.
-/

namespace Coupling

open Relation

variable {n : Nat}

namespace Walk

variable {arcs : Adjacency n} {s t : Walk n} {u v w x : Fin n} {above below : List (Fin n)}
  {pending : List (Fin n)} {outer : List (Visit n)}

/-! ## Entering a node -/

theorem number_enter (arcs : Adjacency n) (s : Walk n) (w x : Fin n) :
    (s.enter arcs w).number[x] = if w = x then some s.entered else s.number[x] :=
  Adjacency.getElem_set_fin _ _ _ _

theorem low_enter (arcs : Adjacency n) (s : Walk n) (w x : Fin n) :
    (s.enter arcs w).low[x] = if w = x then s.entered else s.low[x] :=
  Adjacency.getElem_set_fin _ _ _ _

theorem onStack_enter (arcs : Adjacency n) (s : Walk n) (w x : Fin n) :
    (s.enter arcs w).onStack[x] = true ↔ w = x ∨ s.onStack[x] = true :=
  Adjacency.getElem_set_true s.onStack w x

theorem isSome_enter (arcs : Adjacency n) (s : Walk n) (w x : Fin n) :
    (s.enter arcs w).number[x].isSome = true ↔ w = x ∨ s.number[x].isSome = true := by
  rw [number_enter]
  by_cases h : w = x <;> simp [h]

theorem num_enter_self (arcs : Adjacency n) (s : Walk n) (w : Fin n) :
    (s.enter arcs w).num w = s.entered := by
  rw [num, number_enter, if_pos rfl]
  rfl

theorem keeps_enter (arcs : Adjacency n) (fresh : s.number[w] = none) :
    Keeps s (s.enter arcs w) where
  number x k h := by
    have ne : w ≠ x := by
      intro heq
      rw [← heq, fresh] at h
      cases h
    rw [number_enter, if_neg ne]
    exact h
  onStack x entered h := by
    refine ((onStack_enter arcs s w x).mp h).resolve_left ?_
    intro heq
    rw [← heq, fresh] at entered
    cases entered

namespace Invariant

theorem num_lt (h : Invariant arcs s) (hx : x ∈ s.stack) : s.num x < s.entered := by
  obtain ⟨k, hk⟩ := Option.isSome_iff_exists.mp (h.stacked_entered hx)
  rw [num, hk]
  exact h.number_lt x k hk

theorem fresh_not_mem (h : Invariant arcs s) (fresh : s.number[w] = none) :
    w ∉ s.stack ∧ w ∉ s.components.flatten := by
  have absent : ¬ s.number[w].isSome = true := by simp [fresh]
  rw [h.entered, not_or] at absent
  exact absent

theorem layers_enter (h : Invariant arcs s) (fresh : s.number[w] = none)
    (linked : ∀ u ∈ s.visits.head?, ReflTransGen arcs.Arc u.node w) :
    Layers arcs (s.enter arcs w) (s.enter arcs w).visits (s.enter arcs w).stack := by
  refine ⟨[], s.stack, rfl, ⟨?_, ⟨[], rfl, by simp⟩, by simp, linked⟩, ?_⟩
  · rw [num_enter_self, low_enter, if_pos rfl]
  · refine (keeps_enter arcs fresh).layers (fun _ => h.stacked_entered) ?_ h.layers
    intro x hx
    have ne : w ≠ x := fun heq => (h.fresh_not_mem fresh).1 (heq ▸ hx)
    rw [low_enter, if_neg ne]

theorem enter (h : Invariant arcs s) (fresh : s.number[w] = none)
    (linked : ∀ u ∈ s.visits.head?, ReflTransGen arcs.Arc u.node w) :
    Invariant arcs (s.enter arcs w) where
  number_lt x k hk := by
    change k < s.entered + 1
    rw [number_enter] at hk
    split at hk
    · cases hk
      omega
    · have := h.number_lt x k hk
      omega
  onStack x := by
    rw [onStack_enter, h.onStack, eq_comm]
    exact List.mem_cons.symm
  entered x := by
    rw [isSome_enter, h.entered, ← or_assoc, eq_comm]
    exact or_congr_left List.mem_cons.symm
  apart x hx := by
    rcases List.mem_cons.mp hx with rfl | hx
    · exact (h.fresh_not_mem fresh).2
    · exact h.apart x hx
  descending := by
    have same : ∀ x ∈ s.stack, (s.enter arcs w).num x = s.num x := fun x hx =>
      (keeps_enter arcs fresh).num (h.stacked_entered hx)
    refine List.pairwise_cons.mpr ⟨?_, ?_⟩
    · intro x hx
      rw [num_enter_self, same x hx]
      exact h.num_lt hx
    · refine h.descending.imp_of_mem fun {x y} hx hy lt => ?_
      rw [same x hx, same y hy]
      exact lt
  layers := h.layers_enter fresh linked
  witness x hx := by
    rcases List.mem_cons.mp hx with rfl | hx
    · refine ⟨x, List.mem_cons_self, ?_, .refl⟩
      rw [num_enter_self, low_enter, if_pos rfl]
    · obtain ⟨y, hy, num_eq, walk⟩ := h.witness x hx
      refine ⟨y, List.mem_cons_of_mem _ hy, ?_, walk⟩
      have ne : w ≠ x := fun heq => (h.fresh_not_mem fresh).1 (heq ▸ hx)
      rw [(keeps_enter arcs fresh).num (h.stacked_entered hy), low_enter, if_neg ne]
      exact num_eq
  condensed := h.condensed

/-- Entering the node to which the innermost visit has just followed an arc. -/
theorem enter_child (h : Invariant arcs s) (visits : s.visits = ⟨v, w :: pending⟩ :: outer)
    (arc : arcs.Arc v w) (fresh : s.number[w] = none) :
    Invariant arcs ({ s with visits := ⟨v, pending⟩ :: outer }.enter arcs w) := by
  have linked : ∀ u ∈ s.visits.head?, ReflTransGen arcs.Arc u.node w := by
    intro u hu
    rw [visits] at hu
    cases hu
    exact .single arc
  have entered := h.enter fresh linked
  obtain ⟨above, below, split, layer, rest⟩ := entered.layers
  have settled : (s.enter arcs w).Settled v w := by
    refine ⟨(isSome_enter arcs s w w).mpr (Or.inl rfl), fun _ => ?_⟩
    have stacked : v ∈ s.stack := by
      have layers := h.layers
      rw [visits] at layers
      obtain ⟨_, _, split, _⟩ := layers
      rw [split]
      simp
    have ne : w ≠ v := fun heq => (h.fresh_not_mem fresh).1 (heq ▸ stacked)
    rw [low_enter, if_neg ne, num_enter_self]
    exact (h.layers.low_le stacked).trans (h.num_lt stacked).le
  rw [visits] at rest
  have inner : Layer arcs (s.enter arcs w) ⟨w, arcs[w]⟩ (⟨v, pending⟩ :: outer) above := by
    refine ⟨layer.low_le, layer.followed, layer.finished, ?_⟩
    intro u hu
    cases hu
    exact .single arc
  have layers : Layers arcs (s.enter arcs w) (⟨w, arcs[w]⟩ :: ⟨v, pending⟩ :: outer)
      (s.enter arcs w).stack := ⟨above, below, split, inner, rest.pass settled⟩
  exact entered.withVisits layers

end Invariant

/-! ## Lowering a low number -/

theorem low_lower (s : Walk n) (v x : Fin n) (bound : Nat) :
    (s.lower v bound).low[x] = if v = x then min s.low[v] bound else s.low[x] :=
  Adjacency.getElem_set_fin _ _ _ _

theorem low_lower_of_ne (ne : v ≠ x) (bound : Nat) : (s.lower v bound).low[x] = s.low[x] := by
  rw [low_lower, if_neg ne]

theorem low_lower_le (s : Walk n) (v : Fin n) (bound : Nat) :
    (s.lower v bound).low[v] ≤ s.low[v] ∧ (s.lower v bound).low[v] ≤ bound := by
  rw [low_lower, if_pos rfl]
  omega

theorem lower_of_le {bound : Nat} (le : s.low[v] ≤ bound) : s.lower v bound = s := by
  have same : s.low.set v (min s.low[v] bound) v.isLt = s.low := by
    rw [Nat.min_eq_left le]
    exact Vector.set_getElem_self v.isLt
  rw [lower, same]

theorem keeps_lower (s : Walk n) (v : Fin n) (bound : Nat) : Keeps s (s.lower v bound) :=
  .of_eq rfl rfl

theorem Witnessed.lower (h : Witnessed arcs s) (hy : w ∈ s.stack)
    (walk : ReflTransGen arcs.Arc v w) : Witnessed arcs (s.lower v (s.num w)) := by
  by_cases le : s.low[v] ≤ s.num w
  · rw [lower_of_le le]
    exact h
  · intro x hx
    by_cases hv : v = x
    · refine ⟨w, hy, ?_, hv ▸ walk⟩
      rw [low_lower, if_pos hv, Nat.min_eq_right (by omega)]
      rfl
    · rw [low_lower_of_ne hv]
      exact h x hx

namespace Invariant

theorem top (h : Invariant arcs s) (visits : s.visits = ⟨v, pending⟩ :: outer) :
    ∃ above below, s.stack = above ++ v :: below ∧ Layer arcs s ⟨v, pending⟩ outer above ∧
      Layers arcs s outer below := by
  have layers := h.layers
  rw [visits] at layers
  exact layers

theorem not_mem_of_split (h : Invariant arcs s) (split : s.stack = above ++ v :: below) :
    v ∉ above ∧ v ∉ below := by
  have nodup := h.nodup
  rw [split, List.nodup_append] at nodup
  obtain ⟨_, nodup, apart⟩ := nodup
  refine ⟨fun mem => apart v mem v List.mem_cons_self rfl, ?_⟩
  exact (List.nodup_cons.mp nodup).1

theorem apart_of_split (h : Invariant arcs s) (split : s.stack = above ++ v :: below)
    (hx : x ∈ below) : x ∉ above ++ [v] := by
  have nodup := h.nodup
  rw [split, List.append_cons, List.nodup_append] at nodup
  intro mem
  exact nodup.2.2 x mem x hx rfl

theorem lower (h : Invariant arcs s) (visits : s.visits = ⟨v, pending⟩ :: outer)
    (hw : w ∈ s.stack) (walk : ReflTransGen arcs.Arc v w) :
    Invariant arcs (s.lower v (s.num w)) where
  number_lt := h.number_lt
  onStack := h.onStack
  entered := h.entered
  apart := h.apart
  descending := h.descending
  layers := by
    obtain ⟨above, below, split, layer, rest⟩ := h.top visits
    obtain ⟨notAbove, notBelow⟩ := h.not_mem_of_split split
    have keeps := keeps_lower s v (s.num w)
    have entered : ∀ x ∈ above ++ v :: below, s.number[x].isSome = true := fun x hx =>
      h.stacked_entered (split ▸ hx)
    change Layers arcs (s.lower v (s.num w)) s.visits s.stack
    rw [visits]
    refine ⟨above, below, split, keeps.layer ?_ ?_ ?_ (low_lower_le s v _).1 layer,
      keeps.layers ?_ ?_ rest⟩
    · exact fun x hx => entered x (List.mem_append_left _ hx)
    · exact entered v (List.mem_append_right _ List.mem_cons_self)
    · intro x hx
      have ne : v ≠ x := fun heq => notAbove (heq ▸ hx)
      exact low_lower_of_ne ne _
    · exact fun x hx => entered x (List.mem_append_right _ (List.mem_cons_of_mem _ hx))
    · intro x hx
      have ne : v ≠ x := fun heq => notBelow (heq ▸ hx)
      exact low_lower_of_ne ne _
  witness := h.witness.lower hw walk
  condensed := h.condensed

/-- Following an arc: to a node not yet entered, to one on the stack, or to one that has been
completed. -/
theorem follow {budget : WorkBudget} (h : Invariant arcs s)
    (visits : s.visits = ⟨v, w :: pending⟩ :: outer)
    (next : Walk.follow arcs budget { s with visits := ⟨v, pending⟩ :: outer } v w = .ok t) :
    Invariant arcs t := by
  have arc : arcs.Arc v w := by
    obtain ⟨_, _, _, layer, _⟩ := h.top visits
    obtain ⟨followed, split, _⟩ := layer.followed
    change w ∈ arcs[v]
    rw [split]
    simp
  have pass : ∀ s' : Walk n, Invariant arcs s' → s'.visits = ⟨v, w :: pending⟩ :: outer →
      s'.Settled v w → Invariant arcs { s' with visits := ⟨v, pending⟩ :: outer } := by
    intro s' h' visits' settled
    have layers := h'.layers
    rw [visits'] at layers
    exact h'.withVisits (layers.pass settled)
  obtain ⟨spent, _, ⟨fresh, spent', _, rfl⟩ | ⟨number, hn, rfl⟩⟩ := follow_eq_ok next
  · exact (h.withSpent spent').enter_child visits arc fresh
  · have h := h.withSpent spent
    have hn : s.number[w] = some number := hn
    have num_eq : Walk.num { s with spent } w = number := by
      change (s.number[w]).getD 0 = number
      rw [hn]
      rfl
    have entered : s.number[w].isSome = true := by
      rw [hn]
      rfl
    split
    next stacked =>
      have lowered := h.lower visits ((h.onStack w).mp stacked) (.single arc)
      rw [num_eq] at lowered
      refine pass _ lowered visits ⟨entered, fun _ => ?_⟩
      exact (low_lower_le { s with spent } v number).2.trans num_eq.ge
    next notStacked =>
      exact pass _ h visits ⟨entered, fun stacked => absurd stacked notStacked⟩

end Invariant

/-! ## Leaving a node -/

/-- When nothing is left to follow, every arc of the visited node has been taken into account. -/
theorem Layer.settled (layer : Layer arcs s ⟨v, []⟩ outer above) (arc : w ∈ arcs[v]) :
    s.Settled v w := by
  obtain ⟨followed, split, settled⟩ := layer.followed
  have all : arcs[v] = followed := by simpa using split
  rw [all] at arc
  exact settled w arc

/-- The whole layer is finished once its node turns out to reach a lower number than its own. -/
theorem Layer.finished_all (layer : Layer arcs s ⟨v, []⟩ outer above) (inner : s.low[v] < s.num v)
    (hx : x ∈ above ++ [v]) : Finished arcs s v x := by
  rcases List.mem_append.mp hx with hx | hx
  · exact layer.finished x hx
  · rw [List.mem_singleton.mp hx]
    exact ⟨.refl, inner, le_refl _, fun _ arc => layer.settled arc⟩

theorem number_eq_low_iff (entered : s.number[v].isSome = true) :
    s.number[v] = some s.low[v] ↔ s.low[v] = s.num v := by
  obtain ⟨k, hk⟩ := Option.isSome_iff_exists.mp entered
  rw [num, hk, Option.some.injEq, Option.getD_some, eq_comm]

namespace Invariant

theorem num_below_lt (h : Invariant arcs s) (split : s.stack = above ++ v :: below)
    (hx : x ∈ below) : s.num x < s.num v := by
  have descending := h.descending
  rw [split] at descending
  exact (List.pairwise_cons.mp (List.pairwise_append.mp descending).2.1).1 x hx

theorem num_above_lt (h : Invariant arcs s) (split : s.stack = above ++ v :: below)
    (hx : x ∈ above) : s.num v < s.num x := by
  have descending := h.descending
  rw [split] at descending
  exact (List.pairwise_append.mp descending).2.2 x hx v List.mem_cons_self

theorem mem_top_of_le (h : Invariant arcs s) (split : s.stack = above ++ v :: below)
    (hx : x ∈ s.stack) (le : s.num v ≤ s.num x) : x ∈ above ++ [v] := by
  rw [split, List.append_cons, List.mem_append] at hx
  refine hx.resolve_right fun mem => ?_
  have lt := h.num_below_lt split mem
  omega

/-- The nodes of the top layer reach its lowest node and are reached from it. -/
theorem top_strong (h : Invariant arcs s) (split : s.stack = above ++ v :: below)
    (layer : Layer arcs s ⟨v, pending⟩ outer above) (root : s.low[v] = s.num v)
    (hx : x ∈ above ++ [v]) : Mutual arcs.Arc v x := by
  induction hn : s.num x using Nat.strong_induction_on generalizing x with
  | _ number ih =>
    rcases List.mem_append.mp hx with above_x | mem
    · have finished := layer.finished x above_x
      have stacked : x ∈ s.stack := split ▸ List.mem_append_left _ above_x
      obtain ⟨y, hy, num_eq, walk⟩ := h.witness x stacked
      have low_lt := finished.low_lt
      have le_low : s.low[v] ≤ s.low[x] := finished.le_low
      have inside := h.mem_top_of_le split hy (by omega)
      exact ⟨finished.reached, walk.trans (ih (s.num y) (by omega) inside rfl).2⟩
    · rw [List.mem_singleton.mp mem]
      exact Mutual.refl v

/-- The arcs of the top layer stay inside it or lead to components completed before. -/
theorem top_closed (h : Invariant arcs s) (split : s.stack = above ++ v :: below)
    (layer : Layer arcs s ⟨v, []⟩ outer above) (root : s.low[v] = s.num v)
    (hx : x ∈ above ++ [v]) (arc : w ∈ arcs[x]) :
    w ∈ above ++ [v] ∨ w ∈ s.components.flatten := by
  have settled : s.Settled v w := by
    rcases List.mem_append.mp hx with hx | hx
    · exact (layer.finished x hx).settled w arc
    · rw [List.mem_singleton.mp hx] at arc
      exact layer.settled arc
  obtain ⟨entered, bound⟩ := settled
  rcases (h.entered w).mp entered with stacked | completed
  · have le := bound ((h.onStack w).mpr stacked)
    exact Or.inl (h.mem_top_of_le split stacked (by omega))
  · exact Or.inr completed

end Invariant

theorem foldl_unstack (component : List (Fin n)) (onStack : Vector Bool n) (x : Fin n) :
    (component.foldl unstack onStack)[x] = true ↔ onStack[x] = true ∧ x ∉ component := by
  induction component generalizing onStack with
  | nil => simp
  | cons v component ih =>
    rw [List.foldl_cons, ih, unstack, Adjacency.getElem_set_false, List.mem_cons, not_or,
      ← ne_eq x v, ne_comm, and_assoc, and_left_comm]

/-- The state after `component` has been taken off the stack, which leaves `below`. -/
def taken (s : Walk n) (component below : List (Fin n)) : Walk n :=
  { s with
    stack := below
    onStack := component.foldl unstack s.onStack
    components := component :: s.components }

theorem keeps_taken (s : Walk n) (visits : List (Visit n)) (component below : List (Fin n)) :
    Keeps s (Walk.taken { s with visits } component below) where
  number _ _ h := h
  onStack x _ h := ((foldl_unstack component s.onStack x).mp h).1

theorem complete_eq (split : s.stack = above ++ v :: below) (hv : v ∉ above) :
    s.complete v = s.taken (above ++ [v]) below := by
  have others : ∀ x ∈ above, decide (x ≠ v) = true := by
    intro x hx
    have ne : x ≠ v := fun heq => hv (heq ▸ hx)
    simpa using ne
  have span : s.stack.span (· ≠ v) = (above, v :: below) := by
    rw [split, List.span_eq_takeWhile_dropWhile, List.takeWhile_append_of_pos others,
      List.dropWhile_append_of_pos others]
    simp
  rw [complete, span]
  rfl

namespace Invariant

/-- What the nodes below the top layer reach at a low number is not in the top layer. -/
theorem witness_below (h : Invariant arcs s) (split : s.stack = above ++ v :: below)
    (hx : x ∈ below) : ∃ y ∈ below, s.num y = s.low[x] ∧ ReflTransGen arcs.Arc x y := by
  have stacked : x ∈ s.stack := by simp [split, hx]
  obtain ⟨y, hy, num_eq, walk⟩ := h.witness x stacked
  have low_le := h.layers.low_le stacked
  have below_lt := h.num_below_lt split hx
  rw [split, List.append_cons, List.mem_append] at hy
  rcases hy with top | hy
  · have le_num : s.num v ≤ s.num y := by
      rcases List.mem_append.mp top with top | top
      · exact (h.num_above_lt split top).le
      · rw [List.mem_singleton.mp top]
    omega
  · exact ⟨y, hy, num_eq, walk⟩

/-- The top layer is a component if its node has no lower number than its own. -/
theorem condense (h : Invariant arcs s) (split : s.stack = above ++ v :: below)
    (layer : Layer arcs s ⟨v, []⟩ outer above) (root : s.low[v] = s.num v) :
    arcs.Condensed ((above ++ [v]) :: s.components) := by
  have nodup := h.nodup
  rw [split, List.append_cons, List.nodup_append] at nodup
  apply Adjacency.Condensed.cons (by simp) nodup.1 _ _ _ h.condensed
  · intro x hx
    have stacked : x ∈ s.stack := by
      rw [split, List.append_cons]
      exact List.mem_append_left _ hx
    exact h.apart x stacked
  · intro x hx y hy
    have there := h.top_strong split layer root hx
    exact (there.symm.trans (h.top_strong split layer root hy)).1
  · intro x hx w arc
    exact h.top_closed split layer root hx arc

theorem taken (h : Invariant arcs s) (split : s.stack = above ++ v :: below)
    (layer : Layer arcs s ⟨v, []⟩ outer above) (rest : Layers arcs s outer below)
    (root : s.low[v] = s.num v) :
    Invariant arcs (Walk.taken { s with visits := outer } (above ++ [v]) below) where
  number_lt := h.number_lt
  onStack x := by
    show ((above ++ [v]).foldl unstack s.onStack)[x] = true ↔ x ∈ below
    rw [foldl_unstack, h.onStack, split, List.append_cons, List.mem_append]
    constructor
    · intro hx
      exact hx.1.resolve_left hx.2
    · intro hx
      exact ⟨Or.inr hx, h.apart_of_split split hx⟩
  entered x := by
    show s.number[x].isSome = true ↔ x ∈ below ∨ x ∈ (above ++ [v]) ++ s.components.flatten
    rw [h.entered, split, List.append_cons, List.mem_append, List.mem_append (s := above ++ [v]),
      or_left_comm, or_assoc]
  apart x hx mem := by
    rcases List.mem_append.mp mem with mem | mem
    · exact h.apart_of_split split hx mem
    · have stacked : x ∈ s.stack := split ▸ List.mem_append_right _ (List.mem_cons_of_mem _ hx)
      exact h.apart x stacked mem
  descending := by
    have descending := h.descending
    rw [split] at descending
    exact (List.pairwise_cons.mp (List.pairwise_append.mp descending).2.1).2
  layers := by
    have keeps := keeps_taken s outer (above ++ [v]) below
    apply keeps.layers _ (fun _ _ => rfl) rest
    intro x hx
    exact h.stacked_entered (split ▸ List.mem_append_right _ (List.mem_cons_of_mem _ hx))
  witness x hx := h.witness_below split hx
  condensed := h.condense split layer root

theorem complete (h : Invariant arcs s) (visits : s.visits = ⟨v, []⟩ :: outer)
    (root : s.low[v] = s.num v) : Invariant arcs (Walk.complete { s with visits := outer } v) := by
  obtain ⟨above, below, split, layer, rest⟩ := h.top visits
  rw [complete_eq (s := { s with visits := outer }) split (h.not_mem_of_split split).1]
  exact h.taken split layer rest root

/-- The layer of a node that reaches a lower number than its own becomes part of the one around
it. -/
theorem merge (h : Invariant arcs s) (visits : s.visits = ⟨v, []⟩ :: ⟨u, pending⟩ :: outer)
    (inner : s.low[v] < s.num v) :
    Invariant arcs (Walk.lower { s with visits := ⟨u, pending⟩ :: outer } u s.low[v]) := by
  obtain ⟨above, below, split, layer, above', below', rfl, layer', rest⟩ := h.top visits
  obtain ⟨notAbove, notBelow⟩ := h.not_mem_of_split split
  have split' : s.stack = (above ++ v :: above') ++ u :: below' := by simp [split]
  obtain ⟨notAbove', notBelow'⟩ := h.not_mem_of_split split'
  have stacked : v ∈ s.stack := by simp [split]
  have linked : ReflTransGen arcs.Arc u v := layer.linked _ rfl
  obtain ⟨y, hy, num_eq, walk⟩ := h.witness v stacked
  let t := Walk.lower { s with visits := ⟨u, pending⟩ :: outer } u s.low[v]
  have keeps : Keeps s t := .of_eq rfl rfl
  have same : ∀ x, x ≠ u → t.low[x] = s.low[x] := fun x hx =>
    low_lower_of_ne (s := { s with visits := ⟨u, pending⟩ :: outer }) (Ne.symm hx) _
  have low_le := low_lower_le { s with visits := ⟨u, pending⟩ :: outer } u s.low[v]
  have entered : ∀ x ∈ (above ++ v :: above') ++ u :: below', s.number[x].isSome = true :=
    fun x hx => h.stacked_entered (split' ▸ hx)
  have sameAbove : ∀ x ∈ above ++ v :: above', t.low[x] = s.low[x] := by
    intro x hx
    exact same x fun heq => notAbove' (heq ▸ hx)
  have outerLayer : Layer arcs t ⟨u, pending⟩ outer above' := by
    refine keeps.layer ?_ (entered u (by simp)) ?_ low_le.1 layer'
    · exact fun x hx => entered x (by simp [hx])
    · exact fun x hx => sameAbove x (by simp [hx])
  have joined : Layer arcs t ⟨u, pending⟩ outer (above ++ v :: above') := by
    refine ⟨outerLayer.low_le, outerLayer.followed, ?_, outerLayer.linked⟩
    intro x hx
    have sameX := sameAbove x hx
    rw [List.append_cons] at hx
    rcases List.mem_append.mp hx with hx | hx
    · have enteredX := entered x (by simpa [or_assoc] using Or.inl hx)
      exact keeps.finished enteredX sameX low_le.2 linked (layer.finished_all inner hx)
    · exact outerLayer.finished x hx
  refine ⟨h.number_lt, h.onStack, h.entered, h.apart, h.descending, ?_, ?_, h.condensed⟩
  · refine ⟨above ++ v :: above', below', split', joined, keeps.layers ?_ ?_ rest⟩
    · exact fun x hx => entered x (by simp [hx])
    · exact fun x hx => same x fun heq => notBelow' (heq ▸ hx)
  · have lowered := h.witness.lower hy (linked.trans walk)
    rw [num_eq] at lowered
    exact lowered

/-- The lowest layer has nothing below it whose number its node could reach. -/
theorem root_of_bottom (h : Invariant arcs s) (split : s.stack = above ++ [v]) :
    s.low[v] = s.num v := by
  obtain ⟨y, hy, num_eq, _⟩ := h.witness v (by simp [split])
  have low_le := h.layers.low_le (show v ∈ s.stack by simp [split])
  rw [split] at hy
  rcases List.mem_append.mp hy with hy | hy
  · have lt := h.num_above_lt split hy
    omega
  · rw [List.mem_singleton.mp hy] at num_eq
    exact num_eq.symm

theorem leave (h : Invariant arcs s) (visits : s.visits = ⟨v, []⟩ :: outer) :
    Invariant arcs (Walk.leave { s with visits := outer } v) := by
  obtain ⟨above, below, split, layer, rest⟩ := h.top visits
  have stacked : v ∈ s.stack := by simp [split]
  have check := number_eq_low_iff (h.stacked_entered stacked)
  cases outer with
  | nil =>
    have bottom : below = [] := rest
    have root := h.root_of_bottom (bottom ▸ split)
    show Invariant arcs (if s.number[v] = some s.low[v] then _ else _)
    rw [if_pos (check.mpr root)]
    exact h.complete visits root
  | cons visit outer =>
    obtain ⟨u, pending⟩ := visit
    obtain ⟨above', below', rfl, layer', _⟩ := rest
    have u_lt : s.num u < s.num v := h.num_below_lt split (by simp)
    have u_low : s.low[u] ≤ s.num u := layer'.low_le
    have low_le := h.layers.low_le stacked
    have reported : report { s with visits := ⟨u, pending⟩ :: outer } v
        = Walk.lower { s with visits := ⟨u, pending⟩ :: outer } u s.low[v] := rfl
    unfold Walk.leave
    rw [reported]
    by_cases root : s.low[v] = s.num v
    · have le : s.low[u] ≤ s.low[v] := by omega
      have quiet : Walk.lower { s with visits := ⟨u, pending⟩ :: outer } u s.low[v]
          = { s with visits := ⟨u, pending⟩ :: outer } := lower_of_le le
      rw [quiet]
      exact (if_pos (check.mpr root)).symm ▸ h.complete visits root
    · have ne : u ≠ v := by
        intro heq
        rw [heq] at u_lt
        omega
      have same := low_lower_of_ne (s := { s with visits := ⟨u, pending⟩ :: outer }) ne s.low[v]
      have moved : ¬ (Walk.lower { s with visits := ⟨u, pending⟩ :: outer } u s.low[v]).number[v]
          = some (Walk.lower { s with visits := ⟨u, pending⟩ :: outer } u s.low[v]).low[v] := by
        rw [same]
        intro eq
        exact root (check.mp eq)
      exact (if_neg moved).symm ▸ h.merge visits (by omega)

theorem step {budget : WorkBudget} (h : Invariant arcs s)
    (next : s.step arcs budget = .ok (.goOn t)) : Invariant arcs t := by
  unfold Walk.step at next
  split at next
  next => cases next
  next v w pending outer visits =>
    obtain ⟨t', hf, eq⟩ := map_eq_ok.mp next
    cases eq
    exact h.follow visits hf
  next v outer visits =>
    cases next
    exact h.leave visits

end Invariant

end Walk

end Coupling
