import Coupling.Cycle.Basic
import Coupling.Proofs.Graph.Reachability
import Mathlib.Data.Finset.Max
import Mathlib.Data.List.Rotate
import Mathlib.Data.Set.Finite.List

/-!
# Elementary circuits

An elementary circuit visits no node twice and is written from its smallest node. The nodes of one
circuit reach each other, and every arc between nodes that reach each other lies on one
(`exists_circuit_through`), so that a graph without elementary circuits has no closed walk at all.
-/

namespace Coupling

open Relation

section ClosedPairs

variable {α : Type} {R : α → α → Prop}

theorem forall_zip_iff_isChain {a b : α} {l : List α} :
    (∀ p ∈ (a :: l).zip (l ++ [b]), R p.1 p.2) ↔ List.IsChain R (a :: (l ++ [b])) := by
  induction l generalizing a with
  | nil => simp
  | cons c l ih =>
    rw [List.cons_append, List.zip_cons_cons, List.forall_mem_cons, ih, List.isChain_cons_cons]

theorem forall_closedPairs_cons {v : α} {l : List α} :
    (∀ p ∈ closedPairs (v :: l), R p.1 p.2) ↔ List.IsChain R (v :: (l ++ [v])) :=
  forall_zip_iff_isChain

theorem mem_zip_last {a b c : α} {l : List α} (last : (a :: l).getLast? = some c) :
    (c, b) ∈ (a :: l).zip (l ++ [b]) := by
  induction l generalizing a with
  | nil =>
    cases last
    exact List.mem_singleton.mpr rfl
  | cons d l ih =>
    rw [List.cons_append, List.zip_cons_cons]
    exact List.mem_cons_of_mem _ (ih (by simpa using last))

theorem closedPairs_eq_zip_rotate (l : List α) : closedPairs l = l.zip (l.rotate 1) := by
  cases l with
  | nil => rfl
  | cons a l => simp [closedPairs]

theorem closedPairs_rotate (l : List α) (i : Nat) :
    closedPairs (l.rotate i) = (closedPairs l).rotate i := by
  rw [closedPairs_eq_zip_rotate, closedPairs_eq_zip_rotate]
  change List.zipWith Prod.mk _ _ = (List.zipWith Prod.mk _ _).rotate i
  rw [List.zipWith_rotate_distrib _ _ _ _ (by simp), List.rotate_rotate, List.rotate_rotate,
    Nat.add_comm]

theorem fst_mem_of_mem_closedPairs {l : List α} {p : α × α} (h : p ∈ closedPairs l) : p.1 ∈ l :=
  (List.of_mem_zip h).1

theorem snd_mem_of_mem_closedPairs {l : List α} {p : α × α} (h : p ∈ closedPairs l) :
    p.2 ∈ l := by
  rw [closedPairs_eq_zip_rotate] at h
  exact List.mem_rotate.mp (List.of_mem_zip h).2

/-- The nodes of a closed walk reach each other. -/
theorem mutual_of_closedPairs {c : List α} (arcs : ∀ p ∈ closedPairs c, R p.1 p.2) {v w : α}
    (hv : v ∈ c) (hw : w ∈ c) : Mutual R v w := by
  obtain ⟨u, l, rfl⟩ := List.exists_cons_of_ne_nil (List.ne_nil_of_mem hv)
  have walk := forall_closedPairs_cons.mp arcs
  have start : ∀ x ∈ u :: l, Mutual R u x := fun x hx =>
    ⟨reaches_of_isChain_cons walk (List.mem_append_left [u] hx),
      reaches_of_isChain_append (l := u :: l) walk hx⟩
  exact (start v hv).symm.trans (start w hw)

end ClosedPairs

variable {n : Nat} {R : Fin n → Fin n → Prop}

/-- The nodes of a closed walk that repeats none of them, from the smallest one on. -/
structure ElementaryCircuit (R : Fin n → Fin n → Prop) (c : List (Fin n)) : Prop where
  ne_nil : c ≠ []
  nodup : c.Nodup
  arcs : ∀ p ∈ closedPairs c, R p.1 p.2
  least : ∀ v ∈ c.head?, ∀ w ∈ c, v ≤ w

theorem elementaryCircuit_cons {v : Fin n} {l : List (Fin n)} :
    ElementaryCircuit R (v :: l) ↔
      (v :: l).Nodup ∧ List.IsChain R (v :: (l ++ [v])) ∧ ∀ w ∈ l, v ≤ w := by
  constructor
  · intro h
    exact ⟨h.nodup, forall_closedPairs_cons.mp h.arcs,
      fun w hw => h.least v rfl w (List.mem_cons_of_mem _ hw)⟩
  · intro h
    obtain ⟨nodup, walk, least⟩ := h
    refine ⟨List.cons_ne_nil _ _, nodup, forall_closedPairs_cons.mpr walk, ?_⟩
    intro x hx w hw
    cases hx
    rcases List.mem_cons.mp hw with rfl | hw
    · exact le_refl w
    · exact least w hw

/-- The nodes of a circuit reach each other. -/
theorem ElementaryCircuit.mutual_of_mem {c : List (Fin n)} (h : ElementaryCircuit R c) {v w : Fin n}
    (hv : v ∈ c) (hw : w ∈ c) : Mutual R v w :=
  mutual_of_closedPairs h.arcs hv hw

/-- Without loops a circuit takes more than one node. -/
theorem ElementaryCircuit.exists_ne {c : List (Fin n)} (h : ElementaryCircuit R c)
    (irreflexive : ∀ v, ¬ R v v) : ∃ v ∈ c, ∃ w ∈ c, v ≠ w := by
  obtain ⟨v, l, rfl⟩ := List.exists_cons_of_ne_nil h.ne_nil
  cases l with
  | nil => exact absurd (h.arcs (v, v) (List.mem_singleton.mpr rfl)) (irreflexive v)
  | cons w l =>
    have fresh : v ∉ w :: l := (List.nodup_cons.mp h.nodup).1
    refine ⟨v, List.mem_cons_self, w, List.mem_cons_of_mem v List.mem_cons_self, ?_⟩
    exact List.ne_of_not_mem_cons fresh

theorem exists_least {l : List (Fin n)} (h : l ≠ []) : ∃ m ∈ l, ∀ v ∈ l, m ≤ v := by
  have nonempty : l.toFinset.Nonempty := List.toFinset_nonempty_iff l |>.mpr h
  refine ⟨l.toFinset.min' nonempty, List.mem_toFinset.mp (Finset.min'_mem _ _), ?_⟩
  exact fun v hv => Finset.min'_le _ _ (List.mem_toFinset.mpr hv)

/-- A closed walk without repeated nodes becomes an elementary circuit when it is written from its
smallest node. -/
theorem exists_rotation {c : List (Fin n)} (ne_nil : c ≠ []) (nodup : c.Nodup)
    (arcs : ∀ p ∈ closedPairs c, R p.1 p.2) : ∃ i, ElementaryCircuit R (c.rotate i) := by
  obtain ⟨m, mem, least⟩ := exists_least ne_nil
  obtain ⟨s, t, rfl⟩ := List.append_of_mem mem
  refine ⟨s.length, ?_, List.nodup_rotate.mpr nodup, ?_, ?_⟩
  · simp
  · intro p hp
    rw [closedPairs_rotate, List.mem_rotate] at hp
    exact arcs p hp
  · intro v hv w hw
    rw [List.rotate_append_length_eq] at hv
    cases hv
    exact least w (List.mem_rotate.mp hw)

/-- An arc that can be closed to a walk lies on an elementary circuit. -/
theorem exists_circuit_through {v w : Fin n} (arc : R v w) (back : ReflTransGen R w v) :
    ∃ c, ElementaryCircuit R c ∧ (v, w) ∈ closedPairs c := by
  obtain ⟨l, nodup, walk, last⟩ := exists_simple_path back
  have closed : List.IsChain R (w :: (l ++ [w])) := by
    rw [← List.cons_append]
    refine walk.append (.singleton w) ?_
    intro x hx y hy
    rw [last] at hx
    cases hx
    cases hy
    exact arc
  obtain ⟨i, circuit⟩ := exists_rotation (List.cons_ne_nil w l) nodup
    (forall_closedPairs_cons.mpr closed)
  refine ⟨_, circuit, ?_⟩
  rw [closedPairs_rotate, List.mem_rotate]
  exact mem_zip_last last

/-- A node lies on a circuit if and only if some walk of at least one arc leads back to it. -/
theorem exists_circuit_at_iff {v : Fin n} :
    (∃ c, ElementaryCircuit R c ∧ v ∈ c) ↔ TransGen R v v := by
  constructor
  · intro h
    obtain ⟨c, circuit, hv⟩ := h
    obtain ⟨u, l, rfl⟩ := List.exists_cons_of_ne_nil circuit.ne_nil
    have mem : ((u :: l).getLast (List.cons_ne_nil _ _), u) ∈ closedPairs (u :: l) :=
      mem_zip_last (List.getLast?_eq_getLast_of_ne_nil _)
    have there := (circuit.mutual_of_mem hv (List.getLast_mem (List.cons_ne_nil u l))).1
    have back := (circuit.mutual_of_mem List.mem_cons_self hv).1
    exact (TransGen.tail' there (circuit.arcs _ mem)).trans_left back
  · intro walk
    obtain ⟨w, arc, back⟩ := TransGen.head'_iff.mp walk
    obtain ⟨c, circuit, mem⟩ := exists_circuit_through arc back
    exact ⟨c, circuit, fst_mem_of_mem_closedPairs mem⟩

/-- No walk of at least one arc leads back to where it starts. -/
def Acyclic {α : Type} (R : α → α → Prop) : Prop := ∀ v, ¬ TransGen R v v

theorem acyclic_iff_no_circuit : Acyclic R ↔ ∀ c, ¬ ElementaryCircuit R c := by
  constructor
  · intro acyclic c h
    obtain ⟨v, hv⟩ := List.exists_mem_of_ne_nil c h.ne_nil
    exact acyclic v (exists_circuit_at_iff.mp ⟨c, h, hv⟩)
  · intro none v walk
    obtain ⟨c, circuit, _⟩ := exists_circuit_at_iff.mpr walk
    exact none c circuit

theorem finite_elementaryCircuits (R : Fin n → Fin n → Prop) :
    {c | ElementaryCircuit R c}.Finite :=
  (List.finite_length_le (Fin n) n).subset fun _ h => by
    simpa using h.nodup.length_le_card

end Coupling
