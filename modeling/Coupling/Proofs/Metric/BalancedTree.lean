import Coupling.Proofs.Metric.Dependence
import Mathlib

/-!
# The dependency of a balanced tree

Numbered from one and level by level, component `i` of a balanced tree has `2 * i` and `2 * i + 1`
below it. What `balancedTreeDependency` adds up are the numbers of components from which each
component is reached, which are its ancestors and itself (`ncard_ancestors`); counted by sources the
same pairs make up the cumulative dependency of the tree (`sum_ncard_descendants`), and with all
dependencies turned around they are its cumulative dependency at once. So the metrics of the tree,
whichever way it is directed and in whatever order its strongly connected components are listed,
come to the reference value (`balanced_tree_exact`). Added up in words, the value is the same for
trees of up to `largestTree` components, and no value at all for larger ones.
-/

namespace Coupling

open Checked Relation

/-! ## The sum of the levels -/

theorem balancedTreeDependency_succ (n : Nat) :
    balancedTreeDependency (n + 1) = balancedTreeDependency n + ((n + 1).log2 + 1) := by
  simp [balancedTreeDependency, Nat.fold_succ]

theorem balancedTreeDependency_eq_sum (n : Nat) :
    balancedTreeDependency n = ∑ i : Fin n, ((i.val + 1).log2 + 1) := by
  induction n with
  | zero => rfl
  | succ n ih =>
    rw [balancedTreeDependency_succ, ih, Fin.sum_univ_castSucc]
    rfl

theorem strictMono_balancedTreeDependency : StrictMono balancedTreeDependency := by
  apply strictMono_nat_of_lt_succ
  intro n
  rw [balancedTreeDependency_succ]
  omega

theorem balancedTreeDependency_pos {n : Nat} (pos : 0 < n) : 0 < balancedTreeDependency n :=
  strictMono_balancedTreeDependency pos

/-- A number begins a level of its own if it is a power of two, else it stands on the level of the
number before it. -/
theorem log2_succ (n : Nat) :
    (n + 1).log2 = n.log2 ∨ ((n + 1).log2 = n.log2 + 1 ∧ n + 1 = 2 ^ (n.log2 + 1)) := by
  rcases Nat.eq_zero_or_pos n with rfl | pos
  · exact Or.inl rfl
  · have least := Nat.log2_self_le (Nat.ne_of_gt pos)
    have greatest : n < 2 ^ (n.log2 + 1) := Nat.lt_log2_self
    rcases Nat.lt_or_eq_of_le (Nat.succ_le_of_lt greatest) with within | first
    · exact Or.inl ((Nat.log2_eq_iff (Nat.succ_ne_zero n)).mpr ⟨by omega, within⟩)
    · refine Or.inr ⟨(Nat.log2_eq_iff (Nat.succ_ne_zero n)).mpr ⟨first.ge, ?_⟩, first⟩
      rw [pow_succ, ← first]
      omega

/-- Without the subtraction, the sum of the levels in closed form. -/
theorem balancedTreeDependency_add (n : Nat) :
    balancedTreeDependency n + 2 ^ (n.log2 + 1) = (n + 1) * (n.log2 + 1) + 1 := by
  induction n with
  | zero => rfl
  | succ n ih =>
    rw [balancedTreeDependency_succ]
    rcases log2_succ n with same | ⟨next, first⟩
    · rw [same]
      linarith
    · have double : 2 ^ (n.log2 + 1 + 1) = 2 ^ (n.log2 + 1) + (n + 1) := by
        rw [pow_succ, ← first]
        ring
      rw [next, double]
      linarith

/-! ## The sum in words -/

/-- The sum of the levels, added up in words. -/
def checkedTreeDependency (n : Nat) : Checked Nat :=
  Checked.sum ((List.range n).map fun i => (i + 1).log2 + 1)

/-- The cumulative dependency, added up in words. -/
def LakosMetrics.checkedCumulative {ρ : Type} (m : LakosMetrics ρ) : Checked Nat :=
  Checked.sum (m.perComponent.map DependsOn.count)

/-- The largest tree whose reference value fits a word. -/
def largestTree : Nat := 322427200440897882

theorem checkedTreeDependency_eq (n : Nat) :
    checkedTreeDependency n =
      if balancedTreeDependency n < UInt64.size then pure (balancedTreeDependency n)
      else fault .overflow := by
  have levels : total ((List.range n).map fun i => (i + 1).log2 + 1) = balancedTreeDependency n := by
    rw [balancedTreeDependency_eq_sum, ← total_map_finRange, ← List.map_coe_finRange_eq_range,
      List.map_map]
    rfl
  rw [checkedTreeDependency, sum_eq, levels]

theorem lt_size_iff_le_largestTree {n : Nat} :
    balancedTreeDependency n < UInt64.size ↔ n ≤ largestTree := by
  -- the sums are generalized lest they be evaluated
  have last : balancedTreeDependency largestTree < UInt64.size := by
    have sum := balancedTreeDependency_add largestTree
    have level : largestTree.log2 = 58 := by decide
    generalize balancedTreeDependency largestTree = value at sum ⊢
    rw [level] at sum
    norm_num [largestTree, UInt64.size] at sum ⊢
    omega
  have next : UInt64.size ≤ balancedTreeDependency (largestTree + 1) := by
    have sum := balancedTreeDependency_add (largestTree + 1)
    have level : (largestTree + 1).log2 = 58 := by decide
    generalize balancedTreeDependency (largestTree + 1) = value at sum ⊢
    rw [level] at sum
    norm_num [largestTree, UInt64.size] at sum ⊢
    omega
  constructor
  · intro fits
    exact Nat.lt_succ_iff.mp (strictMono_balancedTreeDependency.lt_iff_lt.mp (fits.trans_le next))
  · intro le
    exact (strictMono_balancedTreeDependency.monotone le).trans_lt last

/-! ## Ancestors and descendants -/

/-- Counting from one, the second component is one of the two below the first one. -/
def TreeArc {n : Nat} (i j : Fin n) : Prop :=
  j.val + 1 = 2 * (i.val + 1) ∨ j.val + 1 = 2 * (i.val + 1) + 1

section Tree

variable {n : Nat} {i j : Fin n}

theorem TreeArc.lt (h : TreeArc i j) : i < j := by
  rw [Fin.lt_def]
  unfold TreeArc at h
  omega

theorem treeArc_iff : TreeArc i j ↔ i.val + 1 = (j.val + 1) / 2 := by
  unfold TreeArc
  omega

/-- All components but the first stand below one other component. -/
theorem exists_above (pos : 0 < j.val) : ∃ i : Fin n, TreeArc i j :=
  ⟨⟨(j.val + 1) / 2 - 1, by omega⟩, treeArc_iff.mpr (by simp only; omega)⟩

theorem TreeArc.unique {i' : Fin n} (h : TreeArc i j) (h' : TreeArc i' j) : i = i' := by
  rw [treeArc_iff] at h h'
  omega

theorem le_of_reaches (walk : ReflTransGen TreeArc i j) : i ≤ j := by
  induction walk with
  | refl => exact le_rfl
  | tail _ arc ih => exact ih.trans arc.lt.le

theorem ancestors_of_arc (above : TreeArc i j) :
    {a | ReflTransGen TreeArc a j} = insert j {a | ReflTransGen TreeArc a i} := by
  ext a
  rw [Set.mem_insert_iff, Set.mem_ofPred_eq, ReflTransGen.cases_tail_iff, eq_comm]
  apply or_congr_right
  constructor
  · rintro ⟨b, walk, arc⟩
    exact arc.unique above ▸ walk
  · intro walk
    exact ⟨i, walk, above⟩

/-- A component is reached from itself and from one component on each level above it. -/
theorem ncard_ancestors (j : Fin n) :
    {i | ReflTransGen TreeArc i j}.ncard = (j.val + 1).log2 + 1 := by
  induction size : j.val using Nat.strong_induction_on generalizing j with
  | _ size ih =>
    subst size
    rcases Nat.eq_zero_or_pos j.val with first | pos
    · have alone : {i | ReflTransGen TreeArc i j} = {j} := by
        ext i
        constructor
        · intro walk
          exact Fin.le_antisymm (le_of_reaches walk) (Fin.le_def.mpr (by omega))
        · rintro rfl
          exact .refl
      rw [alone, Set.ncard_singleton, first]
      rfl
    · -- the component itself and the ancestors of the one above, which stands one level higher
      obtain ⟨i, above⟩ := exists_above pos
      have away : j ∉ {a | ReflTransGen TreeArc a i} := fun walk =>
        absurd (le_of_reaches walk) (not_le.mpr above.lt)
      have level : (j.val + 1).log2 = (i.val + 1).log2 + 1 := by
        rw [Nat.log2_def, if_pos (by omega), treeArc_iff.mp above]
      rw [ancestors_of_arc above, Set.ncard_insert_of_notMem away, ih i.val above.lt i rfl, level]

/-- The pairs of a component and one that it reaches, counted by the components reached. -/
theorem sum_ncard_ancestors (n : Nat) :
    ∑ j : Fin n, {i | ReflTransGen TreeArc i j}.ncard = balancedTreeDependency n := by
  simp only [ncard_ancestors, balancedTreeDependency_eq_sum]

theorem sum_ncard_descendants (n : Nat) :
    ∑ i : Fin n, {j | ReflTransGen TreeArc i j}.ncard = balancedTreeDependency n := by
  rw [← sum_ncard_ancestors]
  exact sum_ncard_eq_sum_ncard _

end Tree

/-! ## The components of the tree -/

/-- The numbers from one on as identifiers. -/
def numerals (n : Nat) : List String := (List.range n).map fun i => (i + 1).repr

/-- Component `i` depends on `2 * i` and `2 * i + 1`, as far as these exist. -/
def treeEdges (n : Nat) : List (String × String) :=
  (List.range n).flatMap fun i =>
    ([2 * (i + 1), 2 * (i + 1) + 1].filter (· ≤ n)).map fun j => ((i + 1).repr, j.repr)

theorem nodup_numerals (n : Nat) : (numerals n).Nodup := by
  apply List.Nodup.map _ List.nodup_range
  intro i j same
  exact Nat.succ_injective (Nat.repr_inj.mp same)

theorem isBlank_of_isDigit {c : Char} (digit : c.isDigit = true) : Text.isBlank c = false := by
  simp only [Char.isDigit, Bool.and_eq_true, decide_eq_true_eq, ge_iff_le,
    UInt32.le_iff_toNat_le] at digit
  have least : 48 ≤ c.toNat := digit.1
  have greatest : c.toNat ≤ 57 := digit.2
  simp only [Text.isBlank, Bool.or_eq_false_iff, Bool.and_eq_false_iff, decide_eq_false_iff_not]
  omega

theorem isBlankText_repr (n : Nat) : Text.isBlankText n.repr = false := by
  obtain ⟨c, rest, digits⟩ := List.exists_cons_of_ne_nil (Nat.toDigits_ne_nil (n := n) (b := 10))
  have digit : c.isDigit = true :=
    Nat.isDigit_of_mem_toDigits (by decide) (by decide) (digits ▸ List.mem_cons_self)
  rw [Text.isBlankText, Nat.repr_eq_ofList_toDigits, String.toList_ofList, digits, List.all_cons,
    isBlank_of_isDigit digit, Bool.false_and]

namespace ComponentGraph

variable {ε : Type} {n : Nat} {l : List (Component ε)} {cs : Components ε} {i j : Fin cs.size}

theorem exists_numbered (named : l.map Component.id = numerals n) :
    ∃ cs, Components.ofList l = .ok cs ∧ cs.toList.map Component.id = numerals n := by
  have shown : ∀ c ∈ l, Text.isBlankText c.id = false := by
    intro c mem
    have listed : c.id ∈ numerals n := named ▸ List.mem_map_of_mem mem
    obtain ⟨i, _, name⟩ := List.mem_map.mp listed
    rw [← name]
    exact isBlankText_repr _
  obtain ⟨cs, accepted⟩ := Components.exists_ofList shown (named ▸ nodup_numerals n)
  exact ⟨cs, accepted, by rw [Components.ofList_eq_ok accepted, named]⟩

theorem size_of_numbered (named : cs.toList.map Component.id = numerals n) : cs.size = n := by
  have length := congrArg List.length named
  rwa [List.length_map, Components.length_toList, numerals, List.length_map,
    List.length_range] at length

theorem id_of_numbered (named : cs.toList.map Component.id = numerals n) (i : Fin cs.size) :
    (cs.get i).id = (i.val + 1).repr := by
  have at_i := congrArg (fun ids => ids[i.val]?) named
  have lt : i.val < n := size_of_numbered named ▸ i.isLt
  simpa [Components.toList_eq_map_get, numerals, lt] using at_i

theorem mem_treeEdges (named : cs.toList.map Component.id = numerals n) :
    ((cs.get i).id, (cs.get j).id) ∈ treeEdges n ↔ TreeArc i j := by
  have i_lt := i.isLt
  have j_lt := j.isLt
  have size := size_of_numbered named
  simp only [treeEdges, id_of_numbered named, TreeArc, List.mem_flatMap, List.mem_map,
    List.mem_filter, List.mem_range, Prod.mk.injEq, Nat.repr_inj]
  constructor
  · rintro ⟨a, _, b, ⟨below, _⟩, source, target⟩
    simp only [List.mem_cons, List.not_mem_nil, or_false] at below
    omega
  · intro arc
    refine ⟨i.val, by omega, j.val + 1, ⟨?_, by simp; omega⟩, rfl, rfl⟩
    simpa using arc

theorem known_of_treeEdges (named : cs.toList.map Component.id = numerals n)
    {edge : String × String} (mem : edge ∈ treeEdges n) :
    (∃ i, (cs.get i).id = edge.1) ∧ ∃ j, (cs.get j).id = edge.2 := by
  have size := size_of_numbered named
  have number : ∀ a, 0 < a → a ≤ n → ∃ i, (cs.get i).id = a.repr := by
    intro a pos le
    refine ⟨⟨a - 1, by omega⟩, ?_⟩
    rw [id_of_numbered named, Nat.sub_add_cancel pos]
  simp only [treeEdges, List.mem_flatMap, List.mem_map, List.mem_filter, List.mem_range,
    decide_eq_true_eq] at mem
  obtain ⟨i, lt, j, ⟨below, le⟩, rfl⟩ := mem
  have pos : 0 < j := by
    simp only [List.mem_cons, List.not_mem_nil, or_false] at below
    omega
  exact ⟨number (i + 1) (Nat.succ_pos i) lt, number j pos le⟩

/-- Edges between known components that mean a relation between distinct ones are its arcs. -/
theorem exists_drawn {edges : List (String × String)} {R : Fin cs.size → Fin cs.size → Prop}
    (known : ∀ edge ∈ edges, (∃ i, (cs.get i).id = edge.1) ∧ ∃ j, (cs.get j).id = edge.2)
    (meant : ∀ i j, ((cs.get i).id, (cs.get j).id) ∈ edges ↔ R i j) (apart : ∀ i j, R i j → i ≠ j) :
    ∃ g, ofIds cs edges = .ok g ∧ g.successors.Arc = R := by
  obtain ⟨g, built, linked⟩ := exists_ofIds known
  refine ⟨g, built, ?_⟩
  funext i j
  apply propext
  rw [Adjacency.Arc, linked, meant]
  exact and_iff_right_of_imp (apart i j)

theorem exists_tree (named : cs.toList.map Component.id = numerals n) :
    ∃ g, ofIds cs (treeEdges n) = .ok g ∧ g.successors.Arc = TreeArc :=
  exists_drawn (fun _ mem => known_of_treeEdges named mem) (fun _ _ => mem_treeEdges named)
    fun _ _ arc => Fin.ne_of_lt arc.lt

/-- The tree with all dependencies turned around. -/
theorem exists_tree_up (named : cs.toList.map Component.id = numerals n) :
    ∃ g, ofIds cs ((treeEdges n).map Prod.swap) = .ok g ∧
      g.successors.Arc = Function.swap TreeArc := by
  apply exists_drawn
  · intro edge mem
    obtain ⟨turned, listed, rfl⟩ := List.mem_map.mp mem
    exact (known_of_treeEdges named listed).symm
  · intro i j
    rw [List.mem_map_of_involutive Prod.swap_swap, Prod.swap_prod_mk]
    exact mem_treeEdges named
  · intro i j arc
    exact Fin.ne_of_gt arc.lt

/-! ## The metrics of the tree -/

section Cumulative

variable {ρ : Type} [Quantity ρ] {g : ComponentGraph cs} {order : List (List (Fin cs.size))}

/-- In words the cumulative dependency is the same, or none. -/
theorem checkedCumulative_of_eq (sum : (g.lakosAlong order : LakosMetrics ρ).cumulative =
    balancedTreeDependency n) :
    (g.lakosAlong order : LakosMetrics ρ).checkedCumulative = checkedTreeDependency n := by
  rw [cumulative_lakosAlong, toList_eq_map_finRange] at sum
  rw [checkedTreeDependency_eq, ← sum, LakosMetrics.checkedCumulative, perComponent_lakosAlong,
    List.map_map, sum_eq]
  rfl

theorem cumulative_eq_sum (condensation : g.successors.Condensation order) :
    (g.lakosAlong order : LakosMetrics ρ).cumulative =
      ∑ i, {j | ReflTransGen g.successors.Arc i j}.ncard := by
  rw [cumulative_lakosAlong, toList_eq_map_finRange, total_map_finRange]
  simp only [Adjacency.reachCounts_eq_ncard condensation]

theorem cumulative_tree (condensation : g.successors.Condensation order)
    (arcs : g.successors.Arc = TreeArc) :
    (g.lakosAlong order : LakosMetrics ρ).cumulative = balancedTreeDependency cs.size := by
  rw [cumulative_eq_sum condensation, arcs, sum_ncard_descendants]

theorem cumulative_tree_up (condensation : g.successors.Condensation order)
    (arcs : g.successors.Arc = Function.swap TreeArc) :
    (g.lakosAlong order : LakosMetrics ρ).cumulative = balancedTreeDependency cs.size := by
  rw [cumulative_eq_sum condensation, arcs]
  simp only [reflTransGen_swap, sum_ncard_ancestors]

end Cumulative

/-- The reference value in closed form; it is positive and grows with the number of components, and
words hold it up to the largest tree; and it is what the metrics of a balanced tree come to, whether
dependencies lead down or up. -/
theorem balanced_tree_exact {n : Nat} (pos : 0 < n) :
    (balancedTreeDependency n : ℤ) = (n + 1) * (n.log2 + 1) - 2 ^ (n.log2 + 1) + 1 ∧
      0 < balancedTreeDependency n ∧
      (∀ m < n, balancedTreeDependency m < balancedTreeDependency n) ∧
      (checkedTreeDependency n =
        if n ≤ largestTree then pure (balancedTreeDependency n) else fault .overflow) ∧
      ∀ (ε ρ : Type) [Quantity ρ] (l : List (Component ε)), l.map Component.id = numerals n →
        ∃ (cs : Components ε) (down up : ComponentGraph cs), Components.ofList l = .ok cs ∧
          ofIds cs (treeEdges n) = .ok down ∧ ofIds cs ((treeEdges n).map Prod.swap) = .ok up ∧
          (∀ order, down.successors.Condensation order →
            (down.lakosAlong order : LakosMetrics ρ).cumulative = balancedTreeDependency n ∧
            (down.lakosAlong order : LakosMetrics ρ).checkedCumulative =
              checkedTreeDependency n) ∧
          ∀ order, up.successors.Condensation order →
            (up.lakosAlong order : LakosMetrics ρ).cumulative = balancedTreeDependency n ∧
            (up.lakosAlong order : LakosMetrics ρ).checkedCumulative =
              checkedTreeDependency n := by
  refine ⟨?_, balancedTreeDependency_pos pos, fun m lt => strictMono_balancedTreeDependency lt, ?_,
    ?_⟩
  · have closed : (balancedTreeDependency n : ℤ) + 2 ^ (n.log2 + 1) =
        (n + 1) * (n.log2 + 1) + 1 := by
      exact_mod_cast balancedTreeDependency_add n
    linarith
  · simp only [checkedTreeDependency_eq, lt_size_iff_le_largestTree]
  · intro ε ρ _ l listed
    obtain ⟨cs, accepted, named⟩ := exists_numbered listed
    obtain ⟨down, builtDown, arcsDown⟩ := exists_tree named
    obtain ⟨up, builtUp, arcsUp⟩ := exists_tree_up named
    refine ⟨cs, down, up, accepted, builtDown, builtUp, ?_, ?_⟩
    · intro order condensation
      have sum := cumulative_tree (ρ := ρ) condensation arcsDown
      rw [size_of_numbered named] at sum
      exact ⟨sum, checkedCumulative_of_eq sum⟩
    · intro order condensation
      have sum := cumulative_tree_up (ρ := ρ) condensation arcsUp
      rw [size_of_numbered named] at sum
      exact ⟨sum, checkedCumulative_of_eq sum⟩

/-- The last level of the tree with six components has room for one more. -/
theorem balanced_tree_exact_six :
    treeEdges 6 = [("1", "2"), ("1", "3"), ("2", "4"), ("2", "5"), ("3", "6")] ∧
      checkedTreeDependency 6 = pure 14 ∧
      ∃ (cs : Components String) (down up : ComponentGraph cs),
        Components.ofList ((numerals 6).map .hollow) = .ok cs ∧
          ofIds cs (treeEdges 6) = .ok down ∧ ofIds cs ((treeEdges 6).map Prod.swap) = .ok up ∧
          (down.lakos : LakosMetrics Float).cumulative = 14 ∧
          (down.lakos : LakosMetrics Float).checkedCumulative = pure 14 ∧
          (up.lakos : LakosMetrics Float).cumulative = 14 ∧
          (up.lakos : LakosMetrics Float).checkedCumulative = pure 14 := by
  obtain ⟨-, -, -, words, tree⟩ := balanced_tree_exact (show 0 < 6 by decide)
  obtain ⟨cs, down, up, accepted, builtDown, builtUp, sumDown, sumUp⟩ :=
    tree String Float ((numerals 6).map .hollow) (by decide)
  obtain ⟨exactDown, wordsDown⟩ := sumDown _ down.successors.condensation_completed
  obtain ⟨exactUp, wordsUp⟩ := sumUp _ up.successors.condensation_completed
  exact ⟨by decide, words, cs, down, up, accepted, builtDown, builtUp, exactDown,
    wordsDown.trans words, exactUp, wordsUp.trans words⟩

end ComponentGraph

end Coupling
