import Coupling.Proofs.Metric.BalancedTree
import Coupling.Proofs.Component.Dependencies
import Mathlib

/-!
# The metrics in exact fractions

In fractions the share of a part in a whole lies between zero and one, and a share times its whole
is the part again, also where there is nothing to take a part of (`ratio_mul`). So the overall share
of visible elements is the mean of the shares of the components weighted by their sizes, and with
all sizes the same it is their mean.

A fraction in `Guarded` form is lost at the first division by zero and stays lost; the metrics come
out in this form as they do in plain fractions, so they divide by zero nowhere.
-/

namespace Coupling

instance instQuantityRat : Quantity ℚ where
  ofNat n := n
  abs x := |x|

/-- A fraction, or nothing once a division by zero has gone into it. -/
def Guarded : Type := Option ℚ

namespace Guarded

def of (x : ℚ) : Guarded := some x

instance instQuantity : Quantity Guarded where
  add a b := Option.map₂ (· + ·) a b
  sub a b := Option.map₂ (· - ·) a b
  div a b := Option.bind a fun x => Option.bind b fun y => if y = 0 then none else some (x / y)
  ofNat n := of n
  abs a := Option.map (|·|) a

theorem of_add (x y : ℚ) : of x + of y = of (x + y) := rfl

theorem of_sub (x y : ℚ) : of x - of y = of (x - y) := rfl

theorem of_div (x : ℚ) {y : ℚ} (ne : y ≠ 0) : of x / of y = of (x / y) := by
  show (if y = 0 then none else some (x / y)) = _
  rw [if_neg ne]
  rfl

theorem abs_of (x : ℚ) : Quantity.abs (of x) = of |x| := rfl

theorem ofNat_eq (n : Nat) : (Quantity.ofNat n : Guarded) = of n := rfl

end Guarded

/-! ## Shares and means -/

section Shares

variable {part whole : Nat}

theorem ratio_eq (part whole : Nat) : (ratio part whole : ℚ) = part / whole := by
  unfold ratio
  split
  next none =>
    rw [none, Nat.cast_zero, div_zero]
    rfl
  next => rfl

theorem ratio_guarded (part whole : Nat) :
    (ratio part whole : Guarded) = .of (ratio part whole) := by
  unfold ratio
  split
  next => rfl
  next some => exact Guarded.of_div _ (Nat.cast_ne_zero.mpr some)

theorem ratio_mul (le : part ≤ whole) : (ratio part whole : ℚ) * whole = part := by
  rw [ratio_eq]
  apply div_mul_cancel_of_imp
  intro none
  have : whole = 0 := by exact_mod_cast none
  have : part = 0 := by omega
  exact_mod_cast this

theorem ratio_mem_Icc (le : part ≤ whole) : (ratio part whole : ℚ) ∈ Set.Icc 0 1 := by
  rw [ratio_eq]
  constructor
  · positivity
  · exact div_le_one_of_le₀ (by exact_mod_cast le) (Nat.cast_nonneg whole)

theorem ratio_eq_zero_iff (le : part ≤ whole) : (ratio part whole : ℚ) = 0 ↔ part = 0 := by
  constructor
  · intro zero
    have product := ratio_mul le
    rw [zero, zero_mul] at product
    exact_mod_cast product.symm
  · rintro rfl
    rw [ratio_eq, Nat.cast_zero, zero_div]

theorem mean_eq (l : List ℚ) : mean l = l.sum / l.length := by
  unfold mean
  split
  next empty =>
    rw [List.isEmpty_iff.mp empty, List.sum_nil, zero_div]
    rfl
  next =>
    rw [List.sum_eq_foldl]
    rfl

theorem mean_guarded {α : Type} (f : α → ℚ) (l : List α) :
    mean (l.map fun a => Guarded.of (f a)) = .of (mean (l.map f)) := by
  unfold mean
  simp only [List.isEmpty_map, List.length_map]
  split
  next => rfl
  next some =>
    have sum : (l.map fun a => Guarded.of (f a)).foldl (· + ·) (.of 0) =
        .of ((l.map f).foldl (· + ·) 0) := by
      rw [List.foldl_map, List.foldl_map]
      exact List.foldl_hom Guarded.of fun x a => Guarded.of_add x (f a)
    have ne : (l.length : ℚ) ≠ 0 := by
      simpa using some
    exact (congrArg (· / _) sum).trans (Guarded.of_div _ ne)

theorem mean_mem_Icc {l : List ℚ} (within : ∀ x ∈ l, x ∈ Set.Icc 0 1) :
    mean l ∈ Set.Icc 0 1 := by
  rw [mean_eq]
  constructor
  · exact div_nonneg (List.sum_nonneg fun x mem => (within x mem).1) (Nat.cast_nonneg _)
  · apply div_le_one_of_le₀ _ (Nat.cast_nonneg _)
    simpa using List.sum_le_card_nsmul l 1 fun x mem => (within x mem).2

theorem cast_total_map {α : Type} (f : α → Nat) (l : List α) :
    (total (l.map f) : ℚ) = (l.map fun a => (f a : ℚ)).sum := by
  rw [total_eq_sum, Nat.cast_list_sum, List.map_map]
  rfl

end Shares

/-! ## Visible elements -/

def ComponentVisibility.map {ρ σ : Type} (f : ρ → σ) (v : ComponentVisibility ρ) :
    ComponentVisibility σ where
  component := v.component
  visible := v.visible
  total := v.total
  relative := f v.relative

def VisibilityMetrics.map {ρ σ : Type} (f : ρ → σ) (m : VisibilityMetrics ρ) :
    VisibilityMetrics σ where
  components := m.components.map (ComponentVisibility.map f)
  average := f m.average
  overall := f m.overall

theorem visibility_guarded {ε : Type} (cs : Components ε) (isVisible : ε → Bool) :
    (cs.visibility isVisible : VisibilityMetrics Guarded) =
      (cs.visibility isVisible : VisibilityMetrics ℚ).map .of := by
  simp only [Components.visibility, Component.visibility, VisibilityMetrics.map,
    ComponentVisibility.map, List.map_map, Function.comp_def, ratio_guarded, mean_guarded]

namespace VisibilityMetrics

/-- The shares are taken of the counts beside them. -/
structure Tallied (m : VisibilityMetrics ℚ) : Prop where
  visible_le : ∀ v ∈ m.components, v.visible ≤ v.total
  relative : ∀ v ∈ m.components, v.relative = ratio v.visible v.total
  average : m.average = mean (m.components.map (·.relative))
  overall : m.overall = ratio (total (m.components.map (·.visible)))
    (total (m.components.map (·.total)))

theorem tallied_visibility {ε : Type} (cs : Components ε) (isVisible : ε → Bool) :
    (cs.visibility isVisible : VisibilityMetrics ℚ).Tallied where
  visible_le v mem := by
    obtain ⟨c, -, rfl⟩ := List.mem_map.mp mem
    exact List.countP_le_length
  relative v mem := by
    obtain ⟨c, -, rfl⟩ := List.mem_map.mp mem
    rfl
  average := rfl
  overall := rfl

variable {m : VisibilityMetrics ℚ} {v : ComponentVisibility ℚ}

theorem Tallied.relative_mul_total (h : m.Tallied) (mem : v ∈ m.components) :
    v.relative * v.total = v.visible := by
  rw [h.relative v mem, ratio_mul (h.visible_le v mem)]

theorem Tallied.relative_mem_Icc (h : m.Tallied) (mem : v ∈ m.components) :
    v.relative ∈ Set.Icc 0 1 := by
  rw [h.relative v mem]
  exact ratio_mem_Icc (h.visible_le v mem)

theorem Tallied.average_mem_Icc (h : m.Tallied) : m.average ∈ Set.Icc 0 1 := by
  rw [h.average]
  apply mean_mem_Icc
  intro x mem
  obtain ⟨v, listed, rfl⟩ := List.mem_map.mp mem
  exact h.relative_mem_Icc listed

theorem Tallied.total_visible_le (h : m.Tallied) :
    total (m.components.map (·.visible)) ≤ total (m.components.map (·.total)) := by
  rw [total_eq_sum, total_eq_sum]
  exact List.sum_le_sum h.visible_le

theorem Tallied.overall_mem_Icc (h : m.Tallied) : m.overall ∈ Set.Icc 0 1 := by
  rw [h.overall]
  exact ratio_mem_Icc h.total_visible_le

/-- The overall share is the mean of the shares weighted by the sizes of the components. -/
theorem Tallied.overall_mul_total (h : m.Tallied) :
    m.overall * (m.components.map fun v => (v.total : ℚ)).sum =
      (m.components.map fun v => v.relative * (v.total : ℚ)).sum := by
  have parts : (m.components.map fun v => v.relative * (v.total : ℚ)) =
      m.components.map fun v => (v.visible : ℚ) :=
    List.map_congr_left fun v mem => h.relative_mul_total mem
  rw [parts, ← cast_total_map, ← cast_total_map, h.overall]
  exact ratio_mul h.total_visible_le

theorem sum_total_pos (filled : ∃ v ∈ m.components, 0 < v.total) :
    0 < (m.components.map fun v => (v.total : ℚ)).sum := by
  obtain ⟨v, mem, pos⟩ := filled
  rw [← cast_total_map, total_eq_sum]
  exact_mod_cast lt_of_lt_of_le pos (List.single_le_sum (by simp) _ (List.mem_map_of_mem mem))

/-- Components without elements do not pull the overall share out of the range of the others. -/
theorem Tallied.overall_mem_range {x y : ℚ} (h : m.Tallied)
    (filled : ∃ v ∈ m.components, 0 < v.total)
    (range : ∀ v ∈ m.components, 0 < v.total → v.relative ∈ Set.Icc x y) :
    m.overall ∈ Set.Icc x y := by
  have weighed : ∀ v ∈ m.components,
      v.relative * v.total ∈ Set.Icc (x * (v.total : ℚ)) (y * (v.total : ℚ)) := by
    intro v mem
    rcases Nat.eq_zero_or_pos v.total with none | pos
    · -- without elements a component weighs nothing, whatever its share
      simp [none]
    · have size : (0 : ℚ) ≤ v.total := Nat.cast_nonneg _
      exact ⟨mul_le_mul_of_nonneg_right (range v mem pos).1 size,
        mul_le_mul_of_nonneg_right (range v mem pos).2 size⟩
  constructor
  · apply le_of_mul_le_mul_right _ (sum_total_pos filled)
    rw [h.overall_mul_total, ← List.sum_map_mul_left]
    exact List.sum_le_sum fun v mem => (weighed v mem).1
  · apply le_of_mul_le_mul_right _ (sum_total_pos filled)
    rw [h.overall_mul_total, ← List.sum_map_mul_left]
    exact List.sum_le_sum fun v mem => (weighed v mem).2

/-- With all sizes the same, the mean of the shares is the overall share. -/
theorem Tallied.average_eq_overall {size : Nat} (h : m.Tallied)
    (uniform : ∀ v ∈ m.components, v.total = size) : m.average = m.overall := by
  -- a quotient by zero is zero in fractions, so that the size zero is no case of its own
  have shares : m.components.map (·.relative) =
      m.components.map fun v => (v.visible : ℚ) * (size : ℚ)⁻¹ := by
    apply List.map_congr_left
    intro v mem
    rw [h.relative v mem, ratio_eq, uniform v mem, div_eq_mul_inv]
  have sizes : m.components.map (·.total) = m.components.map fun _ => size :=
    List.map_congr_left uniform
  have whole : (total (m.components.map (·.total)) : ℚ) = m.components.length * size := by
    rw [sizes, total_eq_sum]
    simp
  calc
    m.average = (m.components.map fun v => (v.visible : ℚ)).sum * (size : ℚ)⁻¹ /
        m.components.length := by
      rw [h.average, mean_eq, shares, List.sum_map_mul_right, List.length_map]
    _ = total (m.components.map (·.visible)) / total (m.components.map (·.total)) := by
      rw [whole, cast_total_map, ← div_eq_mul_inv, div_div, mul_comm]
    _ = m.overall := by
      rw [h.overall, ratio_eq]

/-- The shares of the components that have elements lie between two of them, and so does the
overall share. -/
theorem Tallied.exists_least_greatest (h : m.Tallied) (filled : ∃ v ∈ m.components, 0 < v.total) :
    ∃ least ∈ m.components, ∃ greatest ∈ m.components, 0 < least.total ∧ 0 < greatest.total ∧
      (∀ v ∈ m.components, 0 < v.total → v.relative ∈ Set.Icc least.relative greatest.relative) ∧
      m.overall ∈ Set.Icc least.relative greatest.relative := by
  have finite : {v | v ∈ m.components ∧ 0 < v.total}.Finite :=
    (List.finite_toSet m.components).subset fun v mem => mem.1
  obtain ⟨least, hl, below⟩ := Set.exists_min_image _ (·.relative) finite filled
  obtain ⟨greatest, hg, above⟩ := Set.exists_max_image _ (·.relative) finite filled
  have range : ∀ v ∈ m.components, 0 < v.total →
      v.relative ∈ Set.Icc least.relative greatest.relative :=
    fun v mem pos => ⟨below v ⟨mem, pos⟩, above v ⟨mem, pos⟩⟩
  exact ⟨least, hl.1, greatest, hg.1, hl.2, hg.2, range, h.overall_mem_range filled range⟩

/-- The shares of visible elements, those of the components of a set and the two over all of them,
fit together. -/
structure Apportioned (m : VisibilityMetrics ℚ) {ε : Type} (cs : Components ε)
    (isVisible : ε → Bool) : Prop where
  counts : m.components.map (fun v => (v.component, v.visible, v.total)) =
    cs.toList.map fun c => (c.id, c.elements.countP isVisible, c.elements.length)
  visible_le : ∀ v ∈ m.components, v.visible ≤ v.total
  share : ∀ v ∈ m.components, v.relative * v.total = v.visible
  relative : ∀ v ∈ m.components, v.relative ∈ Set.Icc 0 1
  average : m.average ∈ Set.Icc 0 1
  overall : m.overall ∈ Set.Icc 0 1
  weighted : m.overall * (m.components.map fun v => (v.total : ℚ)).sum =
    (m.components.map fun v => v.relative * (v.total : ℚ)).sum
  bounded : (∃ v ∈ m.components, 0 < v.total) →
    ∃ least ∈ m.components, ∃ greatest ∈ m.components, 0 < least.total ∧ 0 < greatest.total ∧
      (∀ v ∈ m.components, 0 < v.total → v.relative ∈ Set.Icc least.relative greatest.relative) ∧
      m.overall ∈ Set.Icc least.relative greatest.relative
  uniform : ∀ size, (∀ v ∈ m.components, v.total = size) → m.average = m.overall

theorem apportioned_visibility {ε : Type} (cs : Components ε) (isVisible : ε → Bool) :
    (cs.visibility isVisible : VisibilityMetrics ℚ).Apportioned cs isVisible :=
  have h := tallied_visibility cs isVisible
  { counts := by
      rw [Components.visibility, List.map_map]
      rfl
    visible_le := h.visible_le
    share := fun _ => h.relative_mul_total
    relative := fun _ => h.relative_mem_Icc
    average := h.average_mem_Icc
    overall := h.overall_mem_Icc
    weighted := h.overall_mul_total
    bounded := h.exists_least_greatest
    uniform := fun _ => h.average_eq_overall }

end VisibilityMetrics

/-! ## Couplings -/

def ComponentCoupling.map {ρ σ : Type} (f : ρ → σ) (m : ComponentCoupling ρ) :
    ComponentCoupling σ where
  component := m.component
  efferent := m.efferent
  afferent := m.afferent
  instability := f m.instability
  abstractness := f m.abstractness
  distance := f m.distance

def CouplingMetrics.map {ρ σ : Type} (f : ρ → σ) (m : CouplingMetrics ρ) : CouplingMetrics σ where
  components := m.components.map (ComponentCoupling.map f)

/-- The metrics of component `c` are shares between zero and one of what is counted in it; `outward`
tells whether it depends on another component. -/
structure ComponentCoupling.Apportioned (m : ComponentCoupling ℚ) {ε : Type} (c : Component ε)
    (isVisible isAbstract : ε → Bool) (outward : Prop) : Prop where
  component : m.component = c.id
  abstract_le : c.elements.countP (fun x => isVisible x && isAbstract x) ≤
    c.elements.countP isVisible
  share : m.abstractness * c.elements.countP isVisible =
    c.elements.countP fun x => isVisible x && isAbstract x
  abstractness : m.abstractness ∈ Set.Icc 0 1
  instability : m.instability ∈ Set.Icc 0 1
  distance : m.distance ∈ Set.Icc 0 1
  stable : m.instability = 0 ↔ ¬ outward

theorem distance_mem_Icc {a i : ℚ} (ha : a ∈ Set.Icc 0 1) (hi : i ∈ Set.Icc 0 1) :
    |a + i - 1| ∈ Set.Icc (0 : ℚ) 1 := by
  refine ⟨abs_nonneg _, abs_le.mpr ⟨?_, ?_⟩⟩
  · linarith [ha.1, hi.1]
  · linarith [ha.2, hi.2]

section Coupling

variable {ε : Type} (id : String) (efferent afferent : Nat) (visible : List ε)
  (isAbstract : ε → Bool)

theorem coupling_guarded :
    (coupling id efferent afferent visible isAbstract : ComponentCoupling Guarded) =
      (coupling id efferent afferent visible isAbstract : ComponentCoupling ℚ).map .of := by
  simp only [coupling, ComponentCoupling.map, ratio_guarded, Guarded.ofNat_eq, Guarded.of_add,
    Guarded.of_sub, Guarded.abs_of]
  rfl

theorem apportioned_coupling (c : Component ε) (isVisible : ε → Bool) {outward : Prop}
    (depends : outward ↔ efferent ≠ 0) :
    (coupling c.id efferent afferent (c.elements.filter isVisible) isAbstract :
      ComponentCoupling ℚ).Apportioned c isVisible isAbstract outward := by
  have filtered : (c.elements.filter isVisible).countP isAbstract =
      c.elements.countP fun x => isVisible x && isAbstract x := by
    rw [List.countP_filter]
    simp only [Bool.and_comm]
  have abstract_le : (c.elements.filter isVisible).countP isAbstract ≤
      (c.elements.filter isVisible).length := List.countP_le_length
  have abstractness := ratio_mem_Icc abstract_le
  have instability := ratio_mem_Icc (Nat.le_add_right efferent afferent)
  exact
    { component := rfl
      abstract_le := by
        rwa [filtered, ← List.countP_eq_length_filter] at abstract_le
      share := by
        rw [← filtered, List.countP_eq_length_filter]
        exact ratio_mul abstract_le
      abstractness
      instability
      distance := distance_mem_Icc abstractness instability
      stable := by
        rw [depends, not_not]
        exact ratio_eq_zero_iff (Nat.le_add_right efferent afferent) }

end Coupling

/-! ## Graphs -/

def LakosMetrics.map {ρ σ : Type} (f : ρ → σ) (m : LakosMetrics ρ) : LakosMetrics σ where
  cumulative := m.cumulative
  average := f m.average
  relativeAverage := f m.relativeAverage
  normalized := f m.normalized
  perComponent := m.perComponent

namespace ComponentGraph

variable {ε : Type} {cs : Components ε} {g : ComponentGraph cs}
  {related : Fin cs.size → Fin cs.size → Prop}

theorem couplings_guarded (g : ComponentGraph cs) (isVisible isAbstract : ε → Bool) :
    (g.couplings isVisible isAbstract : CouplingMetrics Guarded) =
      (g.couplings isVisible isAbstract : CouplingMetrics ℚ).map .of := by
  simp only [couplings, CouplingMetrics.map, List.map_map, Function.comp_def, coupling_guarded]

theorem lakosAlong_guarded (g : ComponentGraph cs) (order : List (List (Fin cs.size))) :
    (g.lakosAlong order : LakosMetrics Guarded) =
      (g.lakosAlong order : LakosMetrics ℚ).map .of := by
  unfold lakosAlong
  dsimp only
  split
  next => rfl
  next some =>
    have size : (cs.size : ℚ) ≠ 0 := Nat.cast_ne_zero.mpr some
    have tree : (balancedTreeDependency cs.size : ℚ) ≠ 0 :=
      Nat.cast_ne_zero.mpr (balancedTreeDependency_pos (Nat.pos_of_ne_zero some)).ne'
    simp only [LakosMetrics.map, Guarded.ofNat_eq, Guarded.of_div _ size, Guarded.of_div _ tree]
    rfl

/-- The metrics of a graph that shows `related` are shares between zero and one, of which only the
instability depends on the graph; and in no metric anything is divided by zero. -/
structure Apportioned (g : ComponentGraph cs) (related : Fin cs.size → Fin cs.size → Prop)
    (isVisible isAbstract : ε → Bool) : Prop where
  couplings_guarded : (g.couplings isVisible isAbstract : CouplingMetrics Guarded) =
    (g.couplings isVisible isAbstract : CouplingMetrics ℚ).map .of
  lakos_guarded : ∀ order, (g.lakosAlong order : LakosMetrics Guarded) =
    (g.lakosAlong order : LakosMetrics ℚ).map .of
  couplings : ∀ i : Fin cs.size, ∃ m,
    (g.couplings isVisible isAbstract : CouplingMetrics ℚ).components[i.val]? = some m ∧
      m.Apportioned (cs.get i) isVisible isAbstract (∃ j, i ≠ j ∧ related i j)

theorem Depicts.apportioned (h : g.Depicts related) (isVisible isAbstract : ε → Bool) :
    g.Apportioned related isVisible isAbstract where
  couplings_guarded := g.couplings_guarded isVisible isAbstract
  lakos_guarded := g.lakosAlong_guarded
  couplings i := by
    have depends : (∃ j, i ≠ j ∧ related i j) ↔ g.successors[i].length ≠ 0 := by
      simp only [← h.successors, ne_eq, List.length_eq_zero_iff, List.eq_nil_iff_forall_not_mem,
        not_forall, not_not]
    refine ⟨_, ?_, apportioned_coupling _ g.predecessors[i].length isAbstract (cs.get i) isVisible
      depends⟩
    simp [ComponentGraph.couplings]

/-- In exact fractions nothing is divided by zero, and the shares of every component set, with
either kind of graph over it, are what they are said to be: between zero and one, an instability of
zero where nothing else is depended on, an overall share that weighs the others by size. -/
theorem fractions_exact [DecidableEq ε] [Hashable ε] (cs : Components ε)
    (isVisible isAbstract : ε → Bool) :
    (cs.visibility isVisible : VisibilityMetrics Guarded) =
        (cs.visibility isVisible : VisibilityMetrics ℚ).map .of ∧
      (cs.visibility isVisible : VisibilityMetrics ℚ).Apportioned cs isVisible ∧
      (∀ dependencies : List (ε × ε), (ofElements cs dependencies).Apportioned (fun i j =>
        ∃ d ∈ dependencies, d.1 ∈ (cs.get i).elements ∧ d.2 ∈ (cs.get j).elements)
        isVisible isAbstract) ∧
      ∀ edges g, ofIds cs edges = .ok g →
        g.Apportioned (fun i j => ((cs.get i).id, (cs.get j).id) ∈ edges) isVisible isAbstract :=
  ⟨visibility_guarded cs isVisible, VisibilityMetrics.apportioned_visibility cs isVisible,
    fun dependencies => (depicts_ofElements dependencies).apportioned isVisible isAbstract,
    fun _ _ built => (depicts_of_ofIds built).apportioned isVisible isAbstract⟩

/-- A component whose only element is visible, one with four elements of which one is, and one
without elements. -/
def uneven : List (Component Nat) :=
  [⟨"small", [0], by decide⟩, ⟨"large", [2, 3, 5, 7], by decide⟩, ⟨"hollow", [], by decide⟩]

theorem fractions_exact_uneven :
    ∃ (cs : Components Nat) (g : ComponentGraph cs), Components.ofList uneven = .ok cs ∧
      ofIds cs [("small", "large")] = .ok g ∧
      g.Apportioned (fun i j => ((cs.get i).id, (cs.get j).id) ∈ [("small", "large")])
        (· % 2 = 0) (· = 0) ∧
      (cs.visibility (· % 2 = 0) : VisibilityMetrics ℚ).Apportioned cs (· % 2 = 0) ∧
      (cs.visibility (· % 2 = 0) : VisibilityMetrics ℚ).average = 5 / 12 ∧
      (cs.visibility (· % 2 = 0) : VisibilityMetrics ℚ).overall = 2 / 5 := by
  obtain ⟨cs, accepted⟩ := Components.exists_ofList (l := uneven) (by decide) (by decide)
  have listed := Components.ofList_eq_ok accepted
  have named : ∀ id ∈ uneven.map Component.id, ∃ i, (cs.get i).id = id := by
    intro id mem
    rwa [← Components.mem_ids, listed]
  have ends : ∀ edge ∈ [("small", "large")],
      (∃ i, (cs.get i).id = edge.1) ∧ ∃ j, (cs.get j).id = edge.2 := by
    intro edge mem
    rw [List.mem_singleton.mp mem]
    exact ⟨named "small" (by decide), named "large" (by decide)⟩
  obtain ⟨g, built, _⟩ := exists_ofIds ends
  obtain ⟨-, visibility, -, graphs⟩ := fractions_exact cs (fun x => x % 2 = 0) (fun x => x = 0)
  refine ⟨cs, g, accepted, built, graphs _ _ built, visibility, ?_, ?_⟩
  · rw [Components.visibility, listed]
    decide +kernel
  · rw [Components.visibility, listed]
    decide +kernel

end ComponentGraph

end Coupling
