import Coupling.Proofs.Graph.Redrawing

/-!
# Graphs and plain scans of their input

Nodes are found by hashing and outgoing edges through an index. `Graph.Scanned` says that both
answer what a scan of the two input lists would answer, in the order of the lists; `ofLists_exact`
says that a graph is built exactly when no end of an edge is missing among the nodes, and which end
is named if one is.
-/

namespace Coupling

namespace Graph

variable {ν δ : Type}

/-- The edge as it is listed, with its place in the list. -/
def placed (g : Graph ν δ) (e : Fin g.edgeCount) : (ν × ν × δ) × Nat := (g.listed g.edges[e], e)

/-- The endpoint that is missed at an edge, which is the source if both are missing. -/
inductive Dangling (nodes : List ν) (edge : ν × ν × δ) : ν → Prop where
  | source (missing : edge.1 ∉ nodes) : Dangling nodes edge edge.1
  | target (known : edge.1 ∈ nodes) (missing : edge.2.1 ∉ nodes) : Dangling nodes edge edge.2.1

/-- What a graph answers is what scans of its nodes and edges answer. -/
structure Scanned [DecidableEq ν] [Hashable ν] (nodes : List ν) (edges : List (ν × ν × δ))
    (g : Graph ν δ) : Prop where
  nodes_eq : g.nodes.toList = nodes.eraseDups
  nodeId : ∀ a v, g.nodeId? a = some v ↔ g.node v = a
  known : ∀ a, (∃ v, g.nodeId? a = some v) ↔ a ∈ nodes
  /-- The index that is kept while the nodes are read finds them at the same places. -/
  position : ∀ a, ((IndexedSet.ofList nodes).position? a).map Fin.val = (g.nodeId? a).map Fin.val
  edges_eq : g.edges.toList.map g.listed = edges
  outgoing : ∀ v : Fin g.size,
    g.outgoing[v].map g.placed = edges.zipIdx.filter fun edge => edge.1.1 = g.node v
  edgesBetween : ∀ v w,
    (g.edgesBetween v w).map g.placed =
      edges.zipIdx.filter fun edge => edge.1.1 = g.node v && edge.1.2.1 = g.node w
  successors : ∀ v, (g.successors v).map g.node =
    ((edges.filter fun edge => edge.1 = g.node v).map fun edge => edge.2.1).eraseDups
  hasSelfLoop : ∀ v, g.hasSelfLoop v = true ↔ ∃ d, (g.node v, g.node v, d) ∈ edges

section Answers

variable (g : Graph ν δ)

theorem map_placed_finRange :
    (List.finRange g.edgeCount).map g.placed = (g.edges.toList.map g.listed).zipIdx := by
  apply List.ext_getElem
  · simp
  · intro i _ _
    simp [placed]

/-- Picking edges by their ends is picking them from the list by the names of their ends. -/
theorem map_placed_filter (p : ν × ν × δ → Bool) :
    ((List.finRange g.edgeCount).filter fun e => p (g.listed g.edges[e])).map g.placed =
      (g.edges.toList.map g.listed).zipIdx.filter fun edge => p edge.1 := by
  rw [← map_placed_finRange, List.filter_map]
  rfl

theorem map_placed_outgoing [DecidableEq ν] (v : Fin g.size) :
    g.outgoing[v].map g.placed =
      (g.edges.toList.map g.listed).zipIdx.filter fun edge => edge.1.1 = g.node v := by
  rw [← g.map_placed_filter fun edge => edge.1 = g.node v, outgoing_eq]
  simp only [listed, g.node_injective.eq_iff]

theorem map_placed_edgesBetween [DecidableEq ν] (v w : Fin g.size) :
    (g.edgesBetween v w).map g.placed =
      (g.edges.toList.map g.listed).zipIdx.filter fun edge =>
        edge.1.1 = g.node v && edge.1.2.1 = g.node w := by
  rw [← g.map_placed_filter fun edge => edge.1 = g.node v && edge.2.1 = g.node w, edgesBetween_eq]
  simp only [listed, g.node_injective.eq_iff]

theorem nodeId?_eq_some_iff [DecidableEq ν] (a : ν) (v : Fin g.size) :
    g.nodeId? a = some v ↔ g.node v = a := by
  constructor
  · intro found
    have named := List.find?_some found
    exact of_decide_eq_true named
  · intro named
    rw [← named, nodeId?_node]

theorem exists_node_iff (a : ν) : (∃ v, g.node v = a) ↔ a ∈ g.nodes.toList := by
  rw [Vector.mem_toList_iff, Vector.mem_iff_getElem]
  constructor
  · intro h
    obtain ⟨v, named⟩ := h
    exact ⟨v.val, v.isLt, named⟩
  · intro h
    obtain ⟨i, hi, named⟩ := h
    exact ⟨⟨i, hi⟩, named⟩

end Answers

section Building

variable [DecidableEq ν] [Hashable ν] [Label ν] {nodes : List ν} {edges : List (ν × ν × δ)}
  {g : Graph ν δ}

theorem position?_ofList (built : ofLists nodes edges = .ok g) (a : ν) :
    ((IndexedSet.ofList nodes).position? a).map Fin.val = (g.nodeId? a).map Fin.val := by
  obtain ⟨out, _, rfl⟩ := map_eq_ok.mp built
  cases found : (IndexedSet.ofList nodes).position? a with
  | none =>
    cases scanned : (assemble (IndexedSet.ofList nodes) out).nodeId? a with
    | none => rfl
    | some v =>
      have named : (IndexedSet.ofList nodes).get v = a := (nodeId?_eq_some_iff _ a v).mp scanned
      rw [IndexedSet.position?_eq_some_iff.mpr named] at found
      cases found
  | some v =>
    have named : (assemble (IndexedSet.ofList nodes) out).node v = a :=
      IndexedSet.position?_eq_some_iff.mp found
    rw [(nodeId?_eq_some_iff _ a v).mpr named]
    rfl

theorem scanned_of_built (built : ofLists nodes edges = .ok g) : g.Scanned nodes edges := by
  obtain ⟨names, listed⟩ := ofLists_eq_ok built
  refine ⟨names, g.nodeId?_eq_some_iff, ?_, position?_ofList built, listed, ?_, ?_, ?_, ?_⟩
  · intro a
    simp only [nodeId?_eq_some_iff, exists_node_iff, names, List.mem_eraseDups]
  · intro v
    rw [map_placed_outgoing, listed]
  · intro v w
    rw [map_placed_edgesBetween, listed]
  · intro v
    rw [map_node_successors, listed, firstTargets, List.filter_map, List.map_map]
    rfl
  · intro v
    rw [← listed, ← arc_iff_listed, ← edgesBetween_ne_nil, hasSelfLoop]
    simp

/-! ## Refusal -/

omit [Label ν] in
theorem position?_ofList_eq_none_iff {a : ν} :
    (IndexedSet.ofList nodes).position? a = none ↔ a ∉ nodes := by
  rw [IndexedSet.position?_eq_none_iff, IndexedSet.mem_toList_ofList]

omit [Label ν] in
theorem exists_position?_ofList_iff {a : ν} :
    (∃ v, (IndexedSet.ofList nodes).position? a = some v) ↔ a ∈ nodes := by
  simp only [IndexedSet.position?_eq_some_iff, ← IndexedSet.mem_toList_iff,
    IndexedSet.mem_toList_ofList]

theorem exists_resolve_iff {edge : (ν × ν × δ) × Nat} :
    (∃ e, resolve (IndexedSet.ofList nodes) edge = .ok e) ↔
      edge.1.1 ∈ nodes ∧ edge.1.2.1 ∈ nodes := by
  constructor
  · intro h
    obtain ⟨e, resolved⟩ := h
    have ends := resolve_eq_ok resolved
    have known : ∀ v, (IndexedSet.ofList nodes).get v ∈ nodes := fun v =>
      IndexedSet.mem_toList_ofList.mp (IndexedSet.mem_toList_iff.mpr ⟨v, rfl⟩)
    rw [← ends]
    exact ⟨known e.source, known e.target⟩
  · intro known
    exact exists_resolve (IndexedSet.mem_toList_ofList.mpr known.1)
      (IndexedSet.mem_toList_ofList.mpr known.2)

theorem resolve_eq_error {edge : (ν × ν × δ) × Nat} {failure : Failure} :
    resolve (IndexedSet.ofList nodes) edge = .error failure ↔
      ∃ endpoint, Dangling nodes edge.1 endpoint ∧
        failure = .unusable (.unknownNode edge.2 (Label.quoted endpoint)) := by
  obtain ⟨⟨source, target, descriptor⟩, position⟩ := edge
  constructor
  · intro refused
    unfold resolve at refused
    dsimp only at refused
    split at refused
    next => cases refused
    next missing =>
      cases refused
      exact ⟨source, .source (position?_ofList_eq_none_iff.mp missing), rfl⟩
    next s found missing =>
      cases refused
      exact ⟨target, .target (exists_position?_ofList_iff.mp ⟨s, found⟩)
        (position?_ofList_eq_none_iff.mp missing), rfl⟩
  · intro h
    obtain ⟨endpoint, dangling, rfl⟩ := h
    cases dangling with
    | source missing =>
      unfold resolve
      simp only [position?_ofList_eq_none_iff.mpr missing]
    | target known missing =>
      obtain ⟨s, found⟩ := exists_position?_ofList_iff.mpr known
      unfold resolve
      simp only [found, position?_ofList_eq_none_iff.mpr missing]

theorem ofLists_eq_error {failure : Failure} :
    ofLists nodes edges = .error failure ↔
      ∃ position edge endpoint, edges[position]? = some edge ∧ Dangling nodes edge endpoint ∧
        (∀ earlier ∈ edges.take position, earlier.1 ∈ nodes ∧ earlier.2.1 ∈ nodes) ∧
        failure = .unusable (.unknownNode position (Label.quoted endpoint)) := by
  have before : ∀ i, (∀ edge ∈ edges.zipIdx.take i,
      ∃ e, resolve (IndexedSet.ofList nodes) edge = .ok e) ↔
        ∀ earlier ∈ edges.take i, earlier.1 ∈ nodes ∧ earlier.2.1 ∈ nodes := by
    intro i
    have places : (edges.zipIdx.take i).map Prod.fst = edges.take i := by
      rw [List.map_take, List.zipIdx_map_fst]
    rw [← places, List.forall_mem_map]
    exact forall₂_congr fun edge _ => exists_resolve_iff
  rw [ofLists, map_eq_error, mapM_eq_error_iff]
  simp only [before, List.getElem?_zipIdx, Option.map_eq_some_iff, resolve_eq_error]
  constructor
  · rintro ⟨i, _, ⟨edge, at_i, rfl⟩, ⟨endpoint, dangling, rfl⟩, known⟩
    exact ⟨i, edge, endpoint, at_i, dangling, known, by rw [Nat.zero_add]⟩
  · rintro ⟨i, edge, endpoint, at_i, dangling, known, rfl⟩
    exact ⟨i, _, ⟨edge, at_i, rfl⟩, ⟨endpoint, dangling, by rw [Nat.zero_add]⟩, known⟩

/-- A graph is built exactly when all ends of edges are nodes, and then answers as scans of the
input would. Otherwise the first edge with a missing end is named. -/
theorem ofLists_exact (nodes : List ν) (edges : List (ν × ν × δ)) :
    ((∃ g, ofLists nodes edges = .ok g) ↔
        ∀ edge ∈ edges, edge.1 ∈ nodes ∧ edge.2.1 ∈ nodes) ∧
      (∀ failure, ofLists nodes edges = .error failure ↔
        ∃ position edge endpoint, edges[position]? = some edge ∧ Dangling nodes edge endpoint ∧
          (∀ earlier ∈ edges.take position, earlier.1 ∈ nodes ∧ earlier.2.1 ∈ nodes) ∧
          failure = .unusable (.unknownNode position (Label.quoted endpoint))) ∧
      ∀ g, ofLists nodes edges = .ok g → g.Scanned nodes edges := by
  refine ⟨⟨?_, exists_ofLists⟩, fun _ => ofLists_eq_error, fun _ => scanned_of_built⟩
  intro h edge mem
  obtain ⟨g, built⟩ := h
  exact ends_known built mem

end Building

/-- A self-loop and parallel edges around other edges. -/
def looped : List (String × String × Nat) :=
  [("a", "b", 0), ("b", "b", 1), ("a", "b", 2), ("a", "a", 3)]

theorem ofLists_exact_looped :
    (∃ g, ofLists ["a", "b", "a"] looped = .ok g ∧ g.Scanned ["a", "b", "a"] looped ∧
        g.nodes.toList = ["a", "b"]) ∧
      ofLists ["a"] [("a", "a", 0), ("a", "ghost", 1), ("ghost", "b", 2)] =
        .error (.unusable (.unknownNode 1 (Label.quoted "ghost"))) := by
  constructor
  · obtain ⟨builds, _, scanned⟩ := ofLists_exact ["a", "b", "a"] looped
    obtain ⟨g, built⟩ := builds.mpr (by decide)
    exact ⟨g, built, scanned g built, (scanned g built).nodes_eq⟩
  · obtain ⟨_, refused, _⟩ :=
      ofLists_exact ["a"] [("a", "a", 0), ("a", "ghost", 1), ("ghost", "b", 2)]
    rw [refused]
    exact ⟨1, ("a", "ghost", 1), "ghost", rfl, .target (by decide) (by decide), by decide, rfl⟩

end Graph

end Coupling
