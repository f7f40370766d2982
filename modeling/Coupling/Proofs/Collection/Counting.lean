import Coupling.Collection.Total
import Mathlib.Algebra.BigOperators.Fin
import Mathlib.Combinatorics.Enumerative.DoubleCounting
import Mathlib.Data.Set.Card

/-!
# Counting with lists
-/

namespace Coupling

/-- A set has as many members as a list that holds each of them once. -/
theorem ncard_eq_length {α : Type} {s : Set α} {l : List α} (nodup : l.Nodup)
    (mem : ∀ a, a ∈ l ↔ a ∈ s) : s.ncard = l.length := by
  classical
  have eq : s = ↑l.toFinset := by
    ext a
    simp [mem a]
  rw [eq, Set.ncard_coe_finset, List.toFinset_card_of_nodup nodup]

theorem total_eq_sum (l : List Nat) : total l = l.sum := by
  induction l with
  | nil => rfl
  | cons n l ih => rw [total_cons, List.sum_cons, ih]

theorem total_map_finRange {n : Nat} (f : Fin n → Nat) :
    total ((List.finRange n).map f) = ∑ i, f i := by
  rw [total_eq_sum, Fin.sum_univ_def]

/-- Pairs are counted alike by their first and by their second members. -/
theorem sum_length_eq_sum_length {n m : Nat} {rows : Fin n → List (Fin m)}
    {columns : Fin m → List (Fin n)} (nodup : ∀ i, (rows i).Nodup) (nodup' : ∀ j, (columns j).Nodup)
    (mirror : ∀ i j, i ∈ columns j ↔ j ∈ rows i) :
    ∑ i, (rows i).length = ∑ j, (columns j).length := by
  have row : ∀ i, (rows i).length =
      (Finset.univ.bipartiteAbove (fun i j => j ∈ rows i) i).card := by
    intro i
    rw [← List.toFinset_card_of_nodup (nodup i)]
    congr 1
    ext j
    simp [Finset.bipartiteAbove]
  have column : ∀ j, (columns j).length =
      (Finset.univ.bipartiteBelow (fun i j => j ∈ rows i) j).card := by
    intro j
    rw [← List.toFinset_card_of_nodup (nodup' j)]
    congr 1
    ext i
    simp [Finset.bipartiteBelow, mirror]
  simp only [row, column]
  exact Finset.sum_card_bipartiteAbove_eq_sum_card_bipartiteBelow _

/-- The pairs of a relation, counted by their first and by their second members. -/
theorem sum_ncard_eq_sum_ncard {n m : Nat} (R : Fin n → Fin m → Prop) :
    ∑ i, {j | R i j}.ncard = ∑ j, {i | R i j}.ncard := by
  classical
  simp only [Set.ncard_eq_toFinset_card', Set.toFinset_ofPred]
  exact Finset.sum_card_bipartiteAbove_eq_sum_card_bipartiteBelow R

end Coupling
