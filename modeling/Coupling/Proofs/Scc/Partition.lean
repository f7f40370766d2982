import Coupling.Proofs.Scc.Run
import Mathlib.Data.List.Nodup
import Mathlib.Data.List.Perm.Basic
import Mathlib.Data.List.Sort

/-!
# The partition into strongly connected components

`Graph.sccs` sorts the completed components and the members of each. What comes out is a
`SccPartition`: it holds every node once, two nodes share a component exactly when they reach each
other, and the flag of a component tells whether a closed walk stays inside it.
-/

namespace Coupling

open Relation

variable {n : Nat}

/-- Arcs that stay among some nodes. -/
def Inside (R : Fin n → Fin n → Prop) (members : List (Fin n)) (v w : Fin n) : Prop :=
  R v w ∧ v ∈ members ∧ w ∈ members

/-- The components stand in the order of their smallest members. -/
structure SccPartition (R : Fin n → Fin n → Prop) (sccs : List (Scc n)) : Prop where
  covers : ∀ v, v ∈ sccs.flatMap Scc.members
  nodup : (sccs.flatMap Scc.members).Nodup
  ne_nil : ∀ s ∈ sccs, s.members ≠ []
  classes : ∀ s ∈ sccs, ∀ v ∈ s.members, ∀ w, w ∈ s.members ↔ Mutual R v w
  ascending : ∀ s ∈ sccs, s.members.Pairwise (· < ·)
  ordered : sccs.Pairwise fun s t => ∃ v ∈ s.members, ∀ w ∈ t.members, v < w
  cyclic : ∀ s ∈ sccs, s.cyclic = true ↔ ∃ v, TransGen (Inside R s.members) v v

theorem SccPartition.exists_mem {R : Fin n → Fin n → Prop} {sccs : List (Scc n)}
    (h : SccPartition R sccs) (v : Fin n) : ∃ s ∈ sccs, v ∈ s.members :=
  List.mem_flatMap.mp (h.covers v)

theorem SccPartition.share_iff {R : Fin n → Fin n → Prop} {sccs : List (Scc n)}
    (h : SccPartition R sccs) (v w : Fin n) :
    (∃ s ∈ sccs, v ∈ s.members ∧ w ∈ s.members) ↔ Mutual R v w := by
  constructor
  · intro shared
    obtain ⟨s, hs, hv, hw⟩ := shared
    exact (h.classes s hs v hv w).mp hw
  · intro both
    obtain ⟨s, hs, hv⟩ := h.exists_mem v
    exact ⟨s, hs, hv, (h.classes s hs v hv w).mpr both⟩

section Unique

variable {R : Fin n → Fin n → Prop} {sccs sccs' : List (Scc n)}

/-- What a component holds is settled by any one of its members. -/
theorem SccPartition.eq_of_mem (h : SccPartition R sccs) (h' : SccPartition R sccs') {s s' : Scc n}
    (hs : s ∈ sccs) (hs' : s' ∈ sccs') {v : Fin n} (hv : v ∈ s.members) (hv' : v ∈ s'.members) :
    s = s' := by
  have members : s.members = s'.members := by
    apply (h.ascending s hs).eq_of_mem_iff (h'.ascending s' hs')
    intro w
    rw [h.classes s hs v hv w, h'.classes s' hs' v hv' w]
  have cyclic : s.cyclic = s'.cyclic := by
    rw [Bool.eq_iff_iff, h.cyclic s hs, h'.cyclic s' hs', members]
  cases s
  cases s'
  cases members
  cases cyclic
  rfl

theorem SccPartition.mem_of_mem (h : SccPartition R sccs) (h' : SccPartition R sccs') {s : Scc n}
    (hs : s ∈ sccs) : s ∈ sccs' := by
  obtain ⟨v, hv⟩ := List.exists_mem_of_ne_nil _ (h.ne_nil s hs)
  obtain ⟨s', hs', hv'⟩ := h'.exists_mem v
  rw [h.eq_of_mem h' hs hs' hv hv']
  exact hs'

/-- Only one list partitions the nodes and stands in order. -/
theorem SccPartition.unique (h : SccPartition R sccs) (h' : SccPartition R sccs') :
    sccs = sccs' := by
  have asymm : Std.Asymm fun s t : Scc n => ∃ v ∈ s.members, ∀ w ∈ t.members, v < w := by
    constructor
    intro s t before after
    obtain ⟨v, hv, below⟩ := before
    obtain ⟨w, hw, above⟩ := after
    have lt := below w hw
    have gt := above v hv
    omega
  apply h.ordered.eq_of_mem_iff h'.ordered
  intro s
  exact ⟨h.mem_of_mem h', h'.mem_of_mem h⟩

end Unique

theorem closed_singleton {R : Fin n → Fin n → Prop} {v : Fin n} :
    (∃ w, TransGen (Inside R [v]) w w) ↔ R v v := by
  constructor
  · intro h
    obtain ⟨w, walk⟩ := h
    obtain ⟨x, ⟨arc, hw, hx⟩, _⟩ := TransGen.head'_iff.mp walk
    rw [List.mem_singleton.mp hw, List.mem_singleton.mp hx] at arc
    exact arc
  · intro loop
    exact ⟨v, .single ⟨loop, by simp, by simp⟩⟩

namespace Adjacency

variable {arcs : Adjacency n} {c : List (Fin n)}

theorem members_perm (arcs : Adjacency n) (c : List (Fin n)) : (arcs.sccOf c).members.Perm c :=
  List.mergeSort_perm c _

theorem mem_members (arcs : Adjacency n) (c : List (Fin n)) (v : Fin n) :
    v ∈ (arcs.sccOf c).members ↔ v ∈ c :=
  (members_perm arcs c).mem_iff

theorem members_ascending (nodup : c.Nodup) : (arcs.sccOf c).members.Pairwise (· < ·) := by
  have sorted : (arcs.sccOf c).members.Pairwise fun v w => decide (v ≤ w) = true := by
    apply List.pairwise_mergeSort
    · intro u v w
      simp
      omega
    · intro v w
      simp
      omega
  have distinct : (arcs.sccOf c).members.Nodup := (members_perm arcs c).nodup_iff.mpr nodup
  apply (sorted.and distinct).imp
  intro v w h
  have le : v ≤ w := by simpa using h.1
  have ne : v ≠ w := h.2
  omega

/-- One of at least two members comes back to itself on a walk that visits the other. -/
theorem closed_inside {v w : Fin n} (ne : v ≠ w) (whole : ∀ x, x ∈ c ↔ Mutual arcs.Arc v x)
    (both : Mutual arcs.Arc v w) :
    TransGen (Inside arcs.Arc c) v v := by
  have there : ReflTransGen (Inside arcs.Arc c) v w := by
    apply ReflTransGen.mono ?_ v w (Mutual.walk_stays both.1 both.2)
    intro x y h
    exact ⟨h.1, (whole x).mpr h.2.1, (whole y).mpr h.2.2⟩
  have back : ReflTransGen (Inside arcs.Arc c) w v := by
    apply ReflTransGen.mono ?_ w v (Mutual.walk_stays both.2 both.1)
    intro x y h
    exact ⟨h.1, (whole x).mpr (both.trans h.2.1), (whole y).mpr (both.trans h.2.2)⟩
  rcases reflTransGen_iff_eq_or_transGen.mp there with eq | there
  · exact absurd eq.symm ne
  · exact there.trans_left back

theorem cyclic_sccOf (ne_nil : c ≠ []) (nodup : c.Nodup)
    (classes : ∀ v ∈ c, ∀ w, w ∈ c ↔ Mutual arcs.Arc v w) :
    (arcs.sccOf c).cyclic = true ↔ ∃ v, TransGen (Inside arcs.Arc c) v v := by
  match c, ne_nil with
  | [v], _ =>
    rw [closed_singleton]
    simp [sccOf, Arc]
  | v :: w :: c, _ =>
    have ne : v ≠ w := by
      intro eq
      simp [eq] at nodup
    have both := (classes v List.mem_cons_self w).mp (by simp)
    constructor
    · intro _
      exact ⟨v, closed_inside ne (classes v List.mem_cons_self) both⟩
    · intro _
      rfl

/-! ## Sorting by the smallest member -/

theorem firstLe_trans (a b c : Scc n) (hab : firstLe a b = true) (hbc : firstLe b c = true) :
    firstLe a c = true := by
  unfold firstLe at *
  split at hab <;> split at hbc <;> simp_all
  omega

theorem firstLe_total (a b : Scc n) : (firstLe a b || firstLe b a) = true := by
  unfold firstLe
  cases a.members with
  | nil => simp
  | cons v _ =>
    cases b.members with
    | nil => simp
    | cons w _ =>
      simp
      omega

/-- Of two components without common members the first has the smaller smallest member. -/
theorem lt_of_firstLe {a b : Scc n} (le : firstLe a b = true) (ne_nil : a.members ≠ [])
    (sorted : b.members.Pairwise (· < ·)) (apart : ∀ v ∈ a.members, v ∉ b.members) :
    ∃ v ∈ a.members, ∀ w ∈ b.members, v < w := by
  obtain ⟨v, l, ha⟩ := List.exists_cons_of_ne_nil ne_nil
  have mem : v ∈ a.members := by simp [ha]
  refine ⟨v, mem, ?_⟩
  cases hb : b.members with
  | nil => simp
  | cons u l' =>
    have first : v ≤ u := by simpa [firstLe, ha, hb] using le
    have ne : v ≠ u := by
      intro eq
      apply apart v mem
      simp [hb, eq]
    rw [hb, List.pairwise_cons] at sorted
    intro w hw
    rcases List.mem_cons.mp hw with rfl | hw
    · omega
    · have above := sorted.1 w hw
      omega

section Sorted

variable {components : List (List (Fin n))}

theorem mem_sorted {s : Scc n} :
    s ∈ (components.map arcs.sccOf).mergeSort firstLe ↔ ∃ c ∈ components, arcs.sccOf c = s := by
  rw [(List.mergeSort_perm _ _).mem_iff, List.mem_map]

theorem flatMap_members_perm (arcs : Adjacency n) (components : List (List (Fin n))) :
    (((components.map arcs.sccOf).mergeSort firstLe).flatMap Scc.members).Perm
      components.flatten := by
  apply ((List.mergeSort_perm _ _).flatMap_right Scc.members).trans
  rw [List.flatMap_map, ← List.flatMap_id]
  exact List.Perm.flatMap_left _ fun c _ => members_perm arcs c

theorem Condensed.nodup_of_mem (h : arcs.Condensed components) (hc : c ∈ components) : c.Nodup :=
  (List.nodup_flatten.mp h.nodup_flatten).1 c hc

theorem Condensed.members_ne_nil (h : arcs.Condensed components) (hc : c ∈ components) :
    (arcs.sccOf c).members ≠ [] := by
  intro nil
  have perm := members_perm arcs c
  rw [nil] at perm
  exact h.ne_nil_of_mem hc perm.nil_eq.symm

theorem Condensed.ordered_sorted (h : arcs.Condensed components) :
    ((components.map arcs.sccOf).mergeSort firstLe).Pairwise
      fun s t => ∃ v ∈ s.members, ∀ w ∈ t.members, v < w := by
  have le := List.pairwise_mergeSort firstLe_trans firstLe_total (components.map arcs.sccOf)
  have nodup := (flatMap_members_perm arcs components).nodup_iff.mpr h.nodup_flatten
  have apart := (List.pairwise_flatMap.mp nodup).2
  apply (le.and apart).imp_of_mem
  intro s t hs ht both
  obtain ⟨c, hc, rfl⟩ := mem_sorted.mp hs
  obtain ⟨d, hd, rfl⟩ := mem_sorted.mp ht
  apply lt_of_firstLe both.1 (h.members_ne_nil hc) (members_ascending (h.nodup_of_mem hd))
  intro v hv hv'
  exact both.2 v hv v hv' rfl

theorem Condensed.partition (h : arcs.Condensed components)
    (covers : ∀ v, v ∈ components.flatten) :
    SccPartition arcs.Arc ((components.map arcs.sccOf).mergeSort firstLe) where
  covers v := (flatMap_members_perm arcs components).mem_iff.mpr (covers v)
  nodup := (flatMap_members_perm arcs components).nodup_iff.mpr h.nodup_flatten
  ne_nil s hs := by
    obtain ⟨c, hc, rfl⟩ := mem_sorted.mp hs
    exact h.members_ne_nil hc
  classes s hs v hv w := by
    obtain ⟨c, hc, rfl⟩ := mem_sorted.mp hs
    rw [mem_members] at hv ⊢
    exact h.mem_iff_mutual hc hv
  ascending s hs := by
    obtain ⟨c, hc, rfl⟩ := mem_sorted.mp hs
    exact members_ascending (h.nodup_of_mem hc)
  ordered := h.ordered_sorted
  cyclic s hs := by
    obtain ⟨c, hc, rfl⟩ := mem_sorted.mp hs
    have same : Inside arcs.Arc (arcs.sccOf c).members = Inside arcs.Arc c := by
      funext v w
      simp only [Inside, mem_members]
    rw [same]
    apply cyclic_sccOf (h.ne_nil_of_mem hc) (h.nodup_of_mem hc)
    intro v hv w
    exact h.mem_iff_mutual hc hv

end Sorted

theorem sccs_eq_ok {budget : WorkBudget} {sccs : List (Scc n)}
    (result : arcs.sccs budget = .ok sccs) : SccPartition arcs.Arc sccs := by
  obtain ⟨walk, hw, rfl⟩ := map_eq_ok.mp result
  obtain ⟨condensed, covers⟩ := Walk.all_condensed hw
  exact condensed.partition covers

theorem exists_sccs (arcs : Adjacency n) : ∃ sccs, arcs.sccs .unbounded = .ok sccs := by
  obtain ⟨walk, hw⟩ := Walk.exists_all arcs
  rw [Adjacency.sccs, hw]
  exact ⟨_, rfl⟩

end Adjacency

namespace Graph

variable {ν δ : Type}

theorem sccs_eq_ok (g : Graph ν δ) {budget : WorkBudget} {sccs : List (Scc g.size)}
    (result : g.sccs budget = .ok sccs) : SccPartition g.Arc sccs := by
  have h := Adjacency.sccs_eq_ok result
  rw [arc_arcs] at h
  exact h

theorem exists_sccs (g : Graph ν δ) : ∃ sccs, g.sccs .unbounded = .ok sccs :=
  g.arcs.exists_sccs

theorem hasSelfLoop_iff (g : Graph ν δ) (v : Fin g.size) :
    g.hasSelfLoop v = true ↔ g.Arc v v := by
  have mem := g.mem_outgoing v
  simp [hasSelfLoop, edgesBetween, Arc] at mem ⊢
  simp [mem]

/-- The decomposition of a graph without a bound on the work. -/
theorem sccs_exact (g : Graph ν δ) :
    ∃ sccs, g.sccs .unbounded = .ok sccs ∧
      (∀ v, (sccs.flatMap Scc.members).count v = 1) ∧
      (∀ s ∈ sccs, s.members ≠ []) ∧
      (∀ v w, (∃ s ∈ sccs, v ∈ s.members ∧ w ∈ s.members) ↔
        ReflTransGen g.Arc v w ∧ ReflTransGen g.Arc w v) ∧
      (∀ s ∈ sccs, s.members.Pairwise (· < ·)) ∧
      (sccs.Pairwise fun s t => ∃ v ∈ s.members, ∀ w ∈ t.members, v < w) ∧
      (∀ s ∈ sccs, s.cyclic = true ↔ ∃ v, TransGen (Inside g.Arc s.members) v v) ∧
      ∀ s ∈ sccs, ∀ v, s.members = [v] → (s.cyclic = true ↔ g.hasSelfLoop v = true) := by
  obtain ⟨sccs, result⟩ := g.exists_sccs
  have h := g.sccs_eq_ok result
  refine ⟨sccs, result, ?_, h.ne_nil, h.share_iff, h.ascending, h.ordered, h.cyclic, ?_⟩
  · intro v
    exact List.count_eq_one_of_mem h.nodup (h.covers v)
  · intro s hs v single
    rw [h.cyclic s hs, single, closed_singleton, hasSelfLoop_iff]

end Graph

end Coupling
