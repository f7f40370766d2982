import Coupling.Cycle.Basic
import Coupling.Proofs.Circuit.Listing
import Coupling.Proofs.Graph.Successors
import Coupling.Proofs.Scc.Partition

/-!
# The order in which cycles are reported

`Graph.CircuitBefore` compares two elementary circuits by the smallest nodes of their components,
then by their first nodes, then by where their closed walks part. It is a strict order
(`CircuitBefore.asymm`), and what the searches in all cyclic components list stands in it
(`pairwise_listing`).
-/

namespace Coupling

open Relation

theorem Parts.head_eq {α : Type} {earlier : α → α → α → Prop} {l l' : List α}
    (h : Parts earlier l l') : ∃ v m m', l = v :: m ∧ l' = v :: m' := by
  cases h with
  | here => exact ⟨_, _, _, rfl, rfl⟩
  | later => exact ⟨_, _, _, rfl, rfl⟩

theorem Parts.asymm {α : Type} {earlier : α → α → α → Prop}
    (asymm : ∀ v w w', earlier v w w' → ¬ earlier v w' w) {l l' : List α}
    (h : Parts earlier l l') : ¬ Parts earlier l' l := by
  induction h with
  | @here v w w' m m' h =>
    intro back
    cases back with
    | here h' => exact asymm v w w' h h'
    | later deeper =>
      obtain ⟨_, _, _, eq, eq'⟩ := deeper.head_eq
      cases eq
      cases eq'
      exact asymm v w w h h
  | @later v m m' deeper ih =>
    intro back
    cases back with
    | here h' =>
      obtain ⟨_, _, _, eq, eq'⟩ := deeper.head_eq
      cases eq
      cases eq'
      exact asymm _ _ _ h' h'
    | later back => exact ih back

namespace Graph

variable {ν δ : Type} (g : Graph ν δ)

/-- `m` is the smallest node of the strongly connected component of `v`. -/
def Smallest (v m : Fin g.size) : Prop := Mutual g.Arc v m ∧ ∀ w, Mutual g.Arc v w → m ≤ w

/-- The order of elementary circuits: by the smallest nodes of their components, then by their
first nodes, then by the successors with which their closed walks part. -/
def CircuitBefore (c d : List (Fin g.size)) : Prop :=
  ∃ v ∈ c.head?, ∃ w ∈ d.head?, ∃ a b, g.Smallest v a ∧ g.Smallest w b ∧
    (a < b ∨ (a = b ∧
      (v < w ∨ (v = w ∧ Parts g.SuccessorBefore (closedWalk c) (closedWalk d)))))

variable {g}

theorem Smallest.unique {v a b : Fin g.size} (ha : g.Smallest v a) (hb : g.Smallest v b) :
    a = b := by
  have le := ha.2 b hb.1
  have ge := hb.2 a ha.1
  omega

theorem CircuitBefore.asymm {c d : List (Fin g.size)} (h : g.CircuitBefore c d) :
    ¬ g.CircuitBefore d c := by
  intro back
  obtain ⟨v, hv, w, hw, a, b, ha, hb, order⟩ := h
  obtain ⟨w', hw', v', hv', b', a', hb', ha', order'⟩ := back
  cases hv.symm.trans hv'
  cases hw.symm.trans hw'
  cases ha.unique ha'
  cases hb.unique hb'
  rcases order with lt | ⟨rfl, lt | ⟨rfl, parts⟩⟩
  · rcases order' with gt | ⟨eq, _⟩ <;> omega
  · rcases order' with gt | ⟨_, gt | ⟨eq, _⟩⟩ <;> omega
  · rcases order' with gt | ⟨_, gt | ⟨_, back⟩⟩
    · omega
    · omega
    · apply parts.asymm _ back
      intro u x y lt gt
      simp only [SuccessorBefore] at lt gt
      omega

/-! ## Everything there is to report -/

variable {sccs : List (Scc g.size)}

/-- What the searches in the cyclic components list when nothing is cut. -/
def listing (g : Graph ν δ) (sccs : List (Scc g.size)) : List (List (Fin g.size)) :=
  (sccs.filter Scc.cyclic).flatMap fun s => g.adjacency.listingAmong s.members

theorem circuits_eq_cut (g : Graph ν δ) (sccs : List (Scc g.size)) (cap : Nat) :
    g.circuits sccs cap = .cut cap (g.listing sccs) := by
  apply Capped.gather_eq_cut
  intro s _ cap
  exact g.adjacency.circuitsAmong_eq_cut s.members cap

theorem getElem_adjacency (g : Graph ν δ) (v : Fin g.size) : g.adjacency[v] = g.successors v := by
  simp [adjacency]

theorem earlier_adjacency (g : Graph ν δ) : g.adjacency.Earlier = g.SuccessorBefore := by
  funext v w w'
  simp only [Adjacency.Earlier, SuccessorBefore, getElem_adjacency]

/-- A component with an elementary circuit inside it is cyclic. -/
theorem cyclic_of_circuit (h : SccPartition g.Arc sccs) {s : Scc g.size} (hs : s ∈ sccs)
    {c : List (Fin g.size)} (circuit : ElementaryCircuit g.Arc c)
    (inside : ∀ v ∈ c, v ∈ s.members) : s.cyclic = true := by
  have within : ElementaryCircuit (Inside g.Arc s.members) c := by
    apply ElementaryCircuit.mk circuit.ne_nil circuit.nodup _ circuit.least
    intro p hp
    exact ⟨circuit.arcs p hp, inside p.1 (fst_mem_of_mem_closedPairs hp),
      inside p.2 (snd_mem_of_mem_closedPairs hp)⟩
  rw [h.cyclic s hs]
  by_contra none
  have acyclic : Acyclic (Inside g.Arc s.members) := fun v walk => none ⟨v, walk⟩
  exact acyclic_iff_no_circuit.mp acyclic c within

theorem mem_listing (h : SccPartition g.Arc sccs) {c : List (Fin g.size)} :
    c ∈ g.listing sccs ↔ ElementaryCircuit g.Arc c := by
  simp only [listing, List.mem_flatMap, List.mem_filter]
  constructor
  · intro listed
    obtain ⟨s, ⟨hs, _⟩, hc⟩ := listed
    rw [Adjacency.mem_listingAmong (h.ascending s hs), arc_adjacency] at hc
    exact hc.1
  · intro circuit
    obtain ⟨v, l, rfl⟩ := List.exists_cons_of_ne_nil circuit.ne_nil
    obtain ⟨s, hs, hv⟩ := h.exists_mem v
    have inside : ∀ w ∈ v :: l, w ∈ s.members := by
      intro w hw
      exact (h.classes s hs v hv w).mpr (circuit.mutual_of_mem List.mem_cons_self hw)
    refine ⟨s, ⟨hs, cyclic_of_circuit h hs circuit inside⟩, ?_⟩
    rw [Adjacency.mem_listingAmong (h.ascending s hs), arc_adjacency]
    exact ⟨circuit, inside⟩

/-- The head of a circuit listed in a component lies in it. -/
theorem head_mem_members (h : SccPartition g.Arc sccs) {s : Scc g.size} (hs : s ∈ sccs)
    {c : List (Fin g.size)} (hc : c ∈ g.adjacency.listingAmong s.members) :
    ∃ v ∈ c.head?, v ∈ s.members := by
  rw [Adjacency.mem_listingAmong (h.ascending s hs)] at hc
  obtain ⟨v, l, rfl⟩ := List.exists_cons_of_ne_nil hc.1.ne_nil
  exact ⟨v, rfl, hc.2 v List.mem_cons_self⟩

/-- The smallest member of a component is the smallest node for each of its members. -/
theorem exists_smallest (h : SccPartition g.Arc sccs) {s : Scc g.size} (hs : s ∈ sccs) :
    ∃ m ∈ s.members, (∀ v ∈ s.members, m ≤ v) ∧ ∀ v ∈ s.members, g.Smallest v m := by
  obtain ⟨m, hm, least⟩ := exists_least (h.ne_nil s hs)
  refine ⟨m, hm, least, ?_⟩
  intro v hv
  have whole := h.classes s hs v hv
  exact ⟨(whole m).mp hm, fun w both => least w ((whole w).mpr both)⟩

theorem pairwise_listing (h : SccPartition g.Arc sccs) :
    (g.listing sccs).Pairwise g.CircuitBefore := by
  rw [listing, List.pairwise_flatMap]
  constructor
  · intro s hs
    have hs : s ∈ sccs := (List.mem_filter.mp hs).1
    obtain ⟨m, _, _, smallest⟩ := exists_smallest h hs
    have nodup : ∀ v : Fin g.size, g.adjacency[v].Nodup := by
      intro v
      rw [getElem_adjacency]
      exact g.nodup_successors v
    apply (Adjacency.pairwise_listingAmong nodup (h.ascending s hs)).imp_of_mem
    intro c d hc hd starts
    obtain ⟨v, hv, w, hw, order⟩ := starts
    obtain ⟨v', hv', mem⟩ := head_mem_members h hs hc
    obtain ⟨w', hw', mem'⟩ := head_mem_members h hs hd
    cases hv.symm.trans hv'
    cases hw.symm.trans hw'
    rw [earlier_adjacency] at order
    exact ⟨v, hv, w, hw, m, m, smallest v mem, smallest w mem', Or.inr ⟨rfl, order⟩⟩
  · apply (h.ordered.filter Scc.cyclic).imp_of_mem
    intro s t hs ht below c hc d hd
    have hs : s ∈ sccs := (List.mem_filter.mp hs).1
    have ht : t ∈ sccs := (List.mem_filter.mp ht).1
    obtain ⟨a, _, least, smallest⟩ := exists_smallest h hs
    obtain ⟨b, hb, _, smallest'⟩ := exists_smallest h ht
    obtain ⟨v, hv, mem⟩ := head_mem_members h hs hc
    obtain ⟨w, hw, mem'⟩ := head_mem_members h ht hd
    have lt : a < b := by
      obtain ⟨x, hx, above⟩ := below
      have le := least x hx
      have lt := above b hb
      omega
    exact ⟨v, hv, w, hw, a, b, smallest v mem, smallest' w mem', Or.inl lt⟩

end Graph

end Coupling
