import Coupling.Component.Graph
import Coupling.Proofs.Component.Basic

/-!
# Linking components

A component graph is made by linking pairs of components one after the other. Every link adds one
successor and one predecessor and changes nothing else (`mem_successors_linkAll`), so the two
directions stay in step (`Coherent.linkAll`), whether the pairs come from identifiers or from
elements.
-/

namespace Coupling

/-- No component has this identifier, and all names before it in the list are known. -/
def Components.FirstUnknown {ε : Type} (cs : Components ε) (names : List String) (id : String) :
    Prop :=
  ∃ i, names[i]? = some id ∧ (¬ ∃ j, (cs.get j).id = id) ∧
    ∀ earlier ∈ names.take i, ∃ j, (cs.get j).id = earlier

/-- The names in a list of edges as they are read, the source of an edge before its target. -/
def readingOrder (edges : List (String × String)) : List String :=
  edges.flatMap fun edge => [edge.1, edge.2]

theorem pairwise_insertAscending {n : Nat} {v : Fin n} {l : List (Fin n)}
    (ascending : l.Pairwise (· < ·)) : (insertAscending v l).Pairwise (· < ·) := by
  induction l with
  | nil => exact List.pairwise_singleton _ _
  | cons w l ih =>
    obtain ⟨above, rest⟩ := List.pairwise_cons.mp ascending
    unfold insertAscending
    split
    next lt =>
      refine List.pairwise_cons.mpr ⟨?_, ascending⟩
      intro x hx
      rcases List.mem_cons.mp hx with rfl | hx
      · exact lt
      · have := above x hx
        omega
    next ge =>
      split
      next => exact ascending
      next ne =>
        refine List.pairwise_cons.mpr ⟨?_, ih rest⟩
        intro x hx
        rcases mem_insertAscending.mp hx with rfl | hx
        · omega
        · exact above x hx

namespace ComponentGraph

variable {ε : Type} {cs : Components ε}

/-! ## One link after the other -/

theorem mem_successors_link (g : ComponentGraph cs) (i j a b : Fin cs.size) :
    b ∈ (g.link i j).successors[a] ↔ b ∈ g.successors[a] ∨ (i ≠ j ∧ a = i ∧ b = j) := by
  unfold link
  by_cases same : i = j
  · simp [same]
  · rw [if_neg same]
    show b ∈ (g.successors.set i (insertAscending j g.successors[i]) i.isLt)[a] ↔ _
    rw [Adjacency.getElem_set_fin]
    by_cases eq : i = a
    · subst eq
      rw [if_pos rfl, mem_insertAscending]
      simp [same, or_comm]
    · have ne : a ≠ i := fun e => eq e.symm
      simp [eq, ne]

theorem mem_predecessors_link (g : ComponentGraph cs) (i j a b : Fin cs.size) :
    a ∈ (g.link i j).predecessors[b] ↔ a ∈ g.predecessors[b] ∨ (i ≠ j ∧ a = i ∧ b = j) := by
  unfold link
  by_cases same : i = j
  · simp [same]
  · rw [if_neg same]
    show a ∈ (g.predecessors.set j (insertAscending i g.predecessors[j]) j.isLt)[b] ↔ _
    rw [Adjacency.getElem_set_fin]
    by_cases eq : j = b
    · subst eq
      rw [if_pos rfl, mem_insertAscending]
      simp [same, or_comm]
    · have ne : b ≠ j := fun e => eq e.symm
      simp [eq, ne]

theorem mem_successors_linkAll (g : ComponentGraph cs) (pairs : List (Fin cs.size × Fin cs.size))
    (i j : Fin cs.size) :
    j ∈ (g.linkAll pairs).successors[i] ↔ j ∈ g.successors[i] ∨ (i ≠ j ∧ (i, j) ∈ pairs) := by
  induction pairs generalizing g with
  | nil => simp [linkAll]
  | cons pair pairs ih =>
    obtain ⟨a, b⟩ := pair
    show j ∈ ((g.link a b).linkAll pairs).successors[i] ↔ _
    rw [ih, mem_successors_link, List.mem_cons, Prod.mk.injEq, or_assoc]
    apply or_congr_right
    constructor
    · rintro (⟨ne, rfl, rfl⟩ | ⟨ne, later⟩)
      · exact ⟨ne, Or.inl ⟨rfl, rfl⟩⟩
      · exact ⟨ne, Or.inr later⟩
    · rintro ⟨ne, ⟨rfl, rfl⟩ | later⟩
      · exact Or.inl ⟨ne, rfl, rfl⟩
      · exact Or.inr ⟨ne, later⟩

/-- Both directions show the same edges, none of them from a component to itself, and list every
component once and in ascending order. -/
structure Coherent (g : ComponentGraph cs) : Prop where
  mirror : ∀ i j : Fin cs.size, i ∈ g.predecessors[j] ↔ j ∈ g.successors[i]
  irreflexive : ∀ i : Fin cs.size, i ∉ g.successors[i]
  successors : ∀ i : Fin cs.size, g.successors[i].Pairwise (· < ·)
  predecessors : ∀ i : Fin cs.size, g.predecessors[i].Pairwise (· < ·)

theorem Coherent.empty (cs : Components ε) : (ComponentGraph.empty cs).Coherent := by
  constructor <;> simp [ComponentGraph.empty]

theorem Coherent.link {g : ComponentGraph cs} (h : g.Coherent) (a b : Fin cs.size) :
    (g.link a b).Coherent where
  mirror i j := by rw [mem_predecessors_link, mem_successors_link, h.mirror]
  irreflexive i := by
    rw [mem_successors_link, not_or]
    refine ⟨h.irreflexive i, ?_⟩
    rintro ⟨ne, rfl, rfl⟩
    exact ne rfl
  successors i := by
    unfold ComponentGraph.link
    split
    · exact h.successors i
    · rw [Adjacency.getElem_set_fin]
      split
      · exact pairwise_insertAscending (h.successors a)
      · exact h.successors i
  predecessors i := by
    unfold ComponentGraph.link
    split
    · exact h.predecessors i
    · rw [Adjacency.getElem_set_fin]
      split
      · exact pairwise_insertAscending (h.predecessors b)
      · exact h.predecessors i

theorem Coherent.linkAll {g : ComponentGraph cs} (h : g.Coherent)
    (pairs : List (Fin cs.size × Fin cs.size)) : (g.linkAll pairs).Coherent := by
  induction pairs generalizing g with
  | nil => exact h
  | cons pair pairs ih => exact ih (h.link pair.1 pair.2)

/-! ## Edges between identifiers -/

theorem resolve_eq_ok {id : String} {i : Fin cs.size} :
    resolve cs id = .ok i ↔ (cs.get i).id = id := by
  rw [← Components.position?_eq_some_iff]
  unfold resolve
  cases cs.position? id with
  | none => simp
  | some j => simp

theorem resolve_eq_error {id : String} {failure : Failure} :
    resolve cs id = .error failure ↔
      (¬ ∃ i, (cs.get i).id = id) ∧ failure = .unusable (.unknownComponent id) := by
  simp only [← Components.position?_eq_some_iff, not_exists, ← Option.eq_none_iff_forall_ne_some]
  unfold resolve
  cases cs.position? id with
  | none => simp [eq_comm]
  | some j => simp

/-- Looks up both ends of an edge, the source first. -/
def resolveEnds (cs : Components ε) (edge : String × String) :
    Except Failure (Fin cs.size × Fin cs.size) := do
  return (← resolve cs edge.1, ← resolve cs edge.2)

theorem resolveEnds_eq_ok {edge : String × String} {pair : Fin cs.size × Fin cs.size} :
    resolveEnds cs edge = .ok pair ↔ ((cs.get pair.1).id, (cs.get pair.2).id) = edge := by
  obtain ⟨i, j⟩ := pair
  simp only [resolveEnds, bind_eq_ok, resolve_eq_ok, pure, Except.pure, Except.ok.injEq,
    Prod.ext_iff]
  constructor
  · rintro ⟨_, hi, _, hj, rfl, rfl⟩
    exact ⟨hi, hj⟩
  · rintro ⟨hi, hj⟩
    exact ⟨i, hi, j, hj, rfl, rfl⟩

/-- Whatever the identifiers, they are all looked up before anything is linked. -/
theorem ofIds_eq (cs : Components ε) (edges : List (String × String)) :
    ofIds cs edges = (edges.mapM (resolveEnds cs)).map (empty cs).linkAll := by
  apply foldlM_eq_mapM
  intro g edge
  simp only [resolveEnds]
  cases resolve cs edge.1 with
  | error e => rfl
  | ok i => cases resolve cs edge.2 <;> rfl

theorem mapM_resolveEnds_eq_error {edges : List (String × String)} {failure : Failure} :
    edges.mapM (resolveEnds cs) = .error failure ↔
      (readingOrder edges).mapM (resolve cs) = .error failure := by
  induction edges with
  | nil => simp [readingOrder, pure, Except.pure]
  | cons edge edges ih =>
    have order : readingOrder (edge :: edges) = edge.1 :: edge.2 :: readingOrder edges := rfl
    rw [order, mapM_cons_eq_error, mapM_cons_eq_error, mapM_cons_eq_error, ih]
    unfold resolveEnds
    cases resolve cs edge.1 with
    | error e => simp [bind, Except.bind]
    | ok i =>
      cases resolve cs edge.2 <;> simp [bind, Except.bind, pure, Except.pure]

theorem ofIds_eq_error {edges : List (String × String)} {failure : Failure} :
    ofIds cs edges = .error failure ↔ ∃ id, cs.FirstUnknown (readingOrder edges) id ∧
      failure = .unusable (.unknownComponent id) := by
  rw [ofIds_eq, map_eq_error, mapM_resolveEnds_eq_error, mapM_eq_error_iff]
  simp only [resolve_eq_error, resolve_eq_ok, Components.FirstUnknown]
  constructor
  · rintro ⟨i, id, at_i, ⟨unknown, rfl⟩, known⟩
    exact ⟨id, ⟨i, at_i, unknown, known⟩, rfl⟩
  · rintro ⟨id, ⟨i, at_i, unknown, known⟩, rfl⟩
    exact ⟨i, id, at_i, ⟨unknown, rfl⟩, known⟩

theorem map_ids_of_resolved {edges : List (String × String)}
    {pairs : List (Fin cs.size × Fin cs.size)}
    (resolved : edges.mapM (resolveEnds cs) = .ok pairs) :
    pairs.map (fun pair => ((cs.get pair.1).id, (cs.get pair.2).id)) = edges := by
  have named := map_of_mapM_eq_ok (k := id) (fun _ _ => resolveEnds_eq_ok.mp) resolved
  rwa [List.map_id] at named

theorem ofIds_eq_ok {edges : List (String × String)} {g : ComponentGraph cs}
    (built : ofIds cs edges = .ok g) :
    g.Coherent ∧
      ∀ i j, j ∈ g.successors[i] ↔ i ≠ j ∧ ((cs.get i).id, (cs.get j).id) ∈ edges := by
  rw [ofIds_eq] at built
  obtain ⟨pairs, resolved, rfl⟩ := map_eq_ok.mp built
  refine ⟨(Coherent.empty cs).linkAll pairs, ?_⟩
  intro i j
  have mem : (i, j) ∈ pairs ↔ ((cs.get i).id, (cs.get j).id) ∈ edges := by
    rw [← map_ids_of_resolved resolved, List.mem_map]
    constructor
    · intro listed
      exact ⟨(i, j), listed, rfl⟩
    · rintro ⟨⟨a, b⟩, listed, same⟩
      rw [Prod.mk.injEq, Components.id_eq_iff, Components.id_eq_iff] at same
      rw [← same.1, ← same.2]
      exact listed
  rw [mem_successors_linkAll, mem]
  simp [empty]

theorem exists_ofIds {edges : List (String × String)}
    (known : ∀ edge ∈ edges, (∃ i, (cs.get i).id = edge.1) ∧ ∃ j, (cs.get j).id = edge.2) :
    ∃ g, ofIds cs edges = .ok g ∧
      ∀ i j, j ∈ g.successors[i] ↔ i ≠ j ∧ ((cs.get i).id, (cs.get j).id) ∈ edges := by
  have each : ∀ edge ∈ edges, ∃ pair, resolveEnds cs edge = .ok pair := by
    intro edge mem
    obtain ⟨⟨i, hi⟩, ⟨j, hj⟩⟩ := known edge mem
    exact ⟨(i, j), resolveEnds_eq_ok.mpr (Prod.ext hi hj)⟩
  obtain ⟨pairs, resolved⟩ := exists_mapM each
  have built : ofIds cs edges = .ok ((empty cs).linkAll pairs) := by
    rw [ofIds_eq, resolved]
    rfl
  exact ⟨_, built, (ofIds_eq_ok built).2⟩

theorem mem_readingOrder {edges : List (String × String)} {id : String} :
    id ∈ readingOrder edges ↔ ∃ edge ∈ edges, id = edge.1 ∨ id = edge.2 := by
  simp [readingOrder]

theorem ofIds_succeeds_iff {edges : List (String × String)} :
    (∃ g, ofIds cs edges = .ok g) ↔ ∀ id ∈ readingOrder edges, ∃ i, (cs.get i).id = id := by
  constructor
  · intro h id mem
    obtain ⟨g, built⟩ := h
    rw [ofIds_eq] at built
    obtain ⟨pairs, resolved, _⟩ := map_eq_ok.mp built
    rw [← map_ids_of_resolved resolved] at mem
    obtain ⟨edge, listed, here⟩ := mem_readingOrder.mp mem
    obtain ⟨⟨i, j⟩, _, rfl⟩ := List.mem_map.mp listed
    cases here with
    | inl source => exact ⟨i, source.symm⟩
    | inr target => exact ⟨j, target.symm⟩
  · intro known
    have ends : ∀ edge ∈ edges, (∃ i, (cs.get i).id = edge.1) ∧ ∃ j, (cs.get j).id = edge.2 := by
      intro edge mem
      exact ⟨known edge.1 (mem_readingOrder.mpr ⟨edge, mem, Or.inl rfl⟩),
        known edge.2 (mem_readingOrder.mpr ⟨edge, mem, Or.inr rfl⟩)⟩
    obtain ⟨g, built, _⟩ := exists_ofIds ends
    exact ⟨g, built⟩

end ComponentGraph

end Coupling
