import Coupling.Graph.Basic
import Mathlib.Data.List.Nodup

/-!
# Successors and first edges

A successor stands where the first edge to it stands: of two successors of a node, the one that
comes earlier is the one with the earlier first edge (`Graph.successorBefore_iff`).
-/

namespace Coupling

section FirstOccurrences

variable {α : Type}

/-- Some `a` comes before every `b`. -/
inductive FirstBefore (a b : α) : List α → Prop where
  | here {l : List α} (ne : a ≠ b) : FirstBefore a b (a :: l)
  | later {c : α} {l : List α} (ne : c ≠ b) (h : FirstBefore a b l) : FirstBefore a b (c :: l)

theorem FirstBefore.of_filter {a b : α} {l : List α} {p : α → Bool} (hb : p b = true)
    (h : FirstBefore a b (l.filter p)) : FirstBefore a b l := by
  induction l with
  | nil => exact h
  | cons c l ih =>
    by_cases hc : p c = true
    · rw [List.filter_cons_of_pos hc] at h
      cases h with
      | here ne => exact .here ne
      | later ne h => exact .later ne (ih h)
    · rw [List.filter_cons_of_neg hc] at h
      apply FirstBefore.later _ (ih h)
      intro eq
      exact hc (eq ▸ hb)

theorem pairwise_eraseDups [DecidableEq α] (l : List α) :
    l.eraseDups.Pairwise fun a b => FirstBefore a b l := by
  match l with
  | [] => exact .nil
  | a :: l =>
    rw [List.eraseDups_cons, List.pairwise_cons]
    have other : ∀ b ∈ (l.filter fun b => !b == a).eraseDups, b ≠ a := by
      intro b hb
      have mem := List.mem_eraseDups.mp hb
      simpa using (List.mem_filter.mp mem).2
    constructor
    · intro b hb
      exact .here (other b hb).symm
    · apply (pairwise_eraseDups (l.filter fun b => !b == a)).imp_of_mem
      intro b c _ hc h
      have ne := other c hc
      exact .later ne.symm (h.of_filter (by simpa using ne))
  termination_by l.length
  decreasing_by
    have le := List.length_filter_le (fun b => !b == a) l
    simp
    omega

theorem FirstBefore.exists_lt {m : Nat} {f : Fin m → α} {a b : α} {l : List (Fin m)}
    (ascending : l.Pairwise (· < ·)) (h : FirstBefore a b (l.map f)) :
    ∃ e ∈ l, f e = a ∧ ∀ e' ∈ l, f e' = b → e < e' := by
  induction l with
  | nil => cases h
  | cons e l ih =>
    obtain ⟨below, ascending⟩ := List.pairwise_cons.mp ascending
    rw [List.map_cons] at h
    generalize hc : f e = c at h
    cases h with
    | here ne =>
      refine ⟨e, List.mem_cons_self, hc, ?_⟩
      intro e' he' target
      rcases List.mem_cons.mp he' with rfl | he'
      · exact absurd (hc.symm.trans target) ne
      · exact below e' he'
    | later ne h =>
      obtain ⟨first, mem, source, before⟩ := ih ascending h
      refine ⟨first, List.mem_cons_of_mem _ mem, source, ?_⟩
      intro e' he' target
      rcases List.mem_cons.mp he' with rfl | he'
      · exact absurd (hc.symm.trans target) ne
      · exact before e' he' target

/-- In a list without repeats that stands in an order, the order is that of the positions. -/
theorem idxOf_lt_iff [DecidableEq α] {R : α → α → Prop} {l : List α} (nodup : l.Nodup)
    (ordered : l.Pairwise R) (asymm : ∀ a b, R a b → ¬ R b a) {a b : α} (ha : a ∈ l)
    (hb : b ∈ l) : l.idxOf a < l.idxOf b ↔ R a b := by
  obtain ⟨i, hi, rfl⟩ := List.getElem_of_mem ha
  obtain ⟨j, hj, rfl⟩ := List.getElem_of_mem hb
  have increasing := List.pairwise_iff_getElem.mp ordered
  rw [nodup.idxOf_getElem, nodup.idxOf_getElem]
  constructor
  · intro lt
    exact increasing i j hi hj lt
  · intro before
    rcases Nat.lt_trichotomy i j with lt | rfl | gt
    · exact lt
    · exact absurd before (asymm _ _ before)
    · exact absurd (increasing j i hj hi gt) (asymm _ _ before)

end FirstOccurrences

namespace Graph

variable {ν δ : Type} (g : Graph ν δ)

/-- `w` stands before `w'` among the successors of `v`. -/
def SuccessorBefore (v w w' : Fin g.size) : Prop :=
  (g.successors v).idxOf w < (g.successors v).idxOf w'

/-- Some edge from `v` to `w` comes before every edge from `v` to `w'`. -/
def FirstEdgeBefore (v w w' : Fin g.size) : Prop :=
  ∃ e : Fin g.edgeCount, (g.edges[e].source = v ∧ g.edges[e].target = w) ∧
    ∀ e' : Fin g.edgeCount, g.edges[e'].source = v ∧ g.edges[e'].target = w' → e < e'

theorem FirstEdgeBefore.asymm {g : Graph ν δ} {v w w' : Fin g.size}
    (h : g.FirstEdgeBefore v w w') : ¬ g.FirstEdgeBefore v w' w := by
  intro back
  obtain ⟨e', he', before'⟩ := back
  obtain ⟨e, he, before⟩ := h
  have lt := before e' he'
  have gt := before' e he
  omega

theorem nodup_successors (v : Fin g.size) : (g.successors v).Nodup :=
  IndexedSet.nodup_toList _

theorem outgoing_ascending (v : Fin g.size) : g.outgoing[v].Pairwise (· < ·) := by
  rw [g.outgoing_eq]
  exact (List.pairwise_lt_finRange _).filter _

theorem pairwise_successors (v : Fin g.size) :
    (g.successors v).Pairwise (g.FirstEdgeBefore v) := by
  rw [successors_eq]
  apply (pairwise_eraseDups (g.targets v)).imp
  intro w w' h
  obtain ⟨e, he, target, before⟩ := h.exists_lt (g.outgoing_ascending v)
  refine ⟨e, ⟨(g.mem_outgoing v e).mp he, target⟩, ?_⟩
  intro e' ends
  exact before e' ((g.mem_outgoing v e').mpr ends.1) ends.2

theorem successorBefore_iff {v w w' : Fin g.size} (hw : w ∈ g.successors v)
    (hw' : w' ∈ g.successors v) : g.SuccessorBefore v w w' ↔ g.FirstEdgeBefore v w w' :=
  idxOf_lt_iff (g.nodup_successors v) (g.pairwise_successors v)
    (fun _ _ h => FirstEdgeBefore.asymm h) hw hw'

end Graph

end Coupling
