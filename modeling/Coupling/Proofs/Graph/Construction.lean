import Coupling.Collection.Passes
import Coupling.Proofs.Graph.Reachability
import Mathlib.Data.List.Nodup

/-!
# Building a graph from lists

A graph built from a list of nodes and a list of edges has the nodes without their repeats and the
edges as they are listed, each with its endpoints found among the nodes.
-/

namespace Coupling

namespace Graph

variable {ν δ : Type}

/-- An edge as it is listed: by the names of its ends. -/
def listed (g : Graph ν δ) (e : Edge g.size δ) : ν × ν × δ :=
  (g.node e.source, g.node e.target, e.descriptor)

theorem node_injective (g : Graph ν δ) : Function.Injective g.node := by
  intro v w eq
  have hv : v.val < g.nodes.toList.length := by simp
  have hw : w.val < g.nodes.toList.length := by simp
  have at_eq : g.nodes.toList[v.val] = g.nodes.toList[w.val] := by
    simpa [node] using eq
  exact Fin.ext ((List.Nodup.getElem_inj_iff g.nodup).mp at_eq)

theorem nodeId?_node [DecidableEq ν] (g : Graph ν δ) (v : Fin g.size) :
    g.nodeId? (g.node v) = some v := by
  cases found : g.nodeId? (g.node v) with
  | none =>
    have absent := List.find?_eq_none.mp found v (List.mem_finRange v)
    simp at absent
  | some w =>
    have same := List.find?_some found
    rw [g.node_injective (of_decide_eq_true same)]

/-- Some edge leads from `v` to `w` exactly when one is listed between their names. -/
theorem arc_iff_listed (g : Graph ν δ) (v w : Fin g.size) :
    g.Arc v w ↔ ∃ d, (g.node v, g.node w, d) ∈ g.edges.toList.map g.listed := by
  constructor
  · intro h
    obtain ⟨e, source, target⟩ := h
    refine ⟨g.edges[e].descriptor, List.mem_map.mpr ⟨g.edges[e], ?_, ?_⟩⟩
    · exact Vector.mem_toList_iff.mpr (Vector.getElem_mem e.isLt)
    · rw [listed, source, target]
  · intro h
    obtain ⟨d, mem⟩ := h
    obtain ⟨edge, hedge, eq⟩ := List.mem_map.mp mem
    obtain ⟨i, hi, rfl⟩ := Vector.getElem_of_mem (Vector.mem_toList_iff.mp hedge)
    simp only [listed, Prod.mk.injEq] at eq
    exact ⟨⟨i, hi⟩, g.node_injective eq.1, g.node_injective eq.2.1⟩

variable [DecidableEq ν] [Hashable ν] [Label ν]

theorem resolve_eq_ok {nodes : IndexedSet ν} {edge : (ν × ν × δ) × Nat}
    {e : Edge nodes.size δ} (h : resolve nodes edge = .ok e) :
    (nodes.get e.source, nodes.get e.target, e.descriptor) = edge.1 := by
  unfold resolve at h
  dsimp only at h
  split at h
  next s t hs ht =>
    cases h
    rw [IndexedSet.position?_eq_some_iff.mp hs, IndexedSet.position?_eq_some_iff.mp ht]
  next => cases h
  next => cases h

theorem exists_resolve {nodes : IndexedSet ν} {edge : (ν × ν × δ) × Nat}
    (hs : edge.1.1 ∈ nodes.toList) (ht : edge.1.2.1 ∈ nodes.toList) :
    ∃ e, resolve nodes edge = .ok e := by
  obtain ⟨s, hs⟩ := IndexedSet.mem_toList_iff.mp hs
  obtain ⟨t, ht⟩ := IndexedSet.mem_toList_iff.mp ht
  unfold resolve
  dsimp only
  rw [IndexedSet.position?_eq_some_iff.mpr hs, IndexedSet.position?_eq_some_iff.mpr ht]
  exact ⟨_, rfl⟩

theorem ofLists_eq_ok {nodes : List ν} {edges : List (ν × ν × δ)} {g : Graph ν δ}
    (h : ofLists nodes edges = .ok g) :
    g.nodes.toList = nodes.eraseDups ∧ g.edges.toList.map g.listed = edges := by
  obtain ⟨out, resolved, rfl⟩ := map_eq_ok.mp h
  constructor
  · rw [← IndexedSet.toList_ofList]
    rfl
  · have triples := map_of_mapM_eq_ok (fun _ _ => resolve_eq_ok) resolved
    rw [List.zipIdx_map_fst] at triples
    exact triples

theorem exists_ofLists {nodes : List ν} {edges : List (ν × ν × δ)}
    (known : ∀ edge ∈ edges, edge.1 ∈ nodes ∧ edge.2.1 ∈ nodes) :
    ∃ g, ofLists nodes edges = .ok g := by
  have each : ∀ edge ∈ edges.zipIdx, ∃ e, resolve (IndexedSet.ofList nodes) edge = .ok e := by
    intro edge mem
    have mem : edge.1 ∈ edges := List.fst_mem_of_mem_zipIdx mem
    obtain ⟨source, target⟩ := known edge.1 mem
    exact exists_resolve (IndexedSet.mem_toList_ofList.mpr source)
      (IndexedSet.mem_toList_ofList.mpr target)
  obtain ⟨out, resolved⟩ := exists_mapM each
  exact ⟨_, map_eq_ok.mpr ⟨out, resolved, rfl⟩⟩

theorem ends_known {nodes : List ν} {edges : List (ν × ν × δ)} {g : Graph ν δ}
    (built : ofLists nodes edges = .ok g) {edge : ν × ν × δ} (mem : edge ∈ edges) :
    edge.1 ∈ nodes ∧ edge.2.1 ∈ nodes := by
  obtain ⟨names, listed⟩ := ofLists_eq_ok built
  have known : ∀ v, g.node v ∈ nodes := by
    intro v
    rw [← List.mem_eraseDups, ← names, Vector.mem_toList_iff]
    exact Vector.getElem_mem v.isLt
  rw [← listed] at mem
  obtain ⟨e, _, rfl⟩ := List.mem_map.mp mem
  exact ⟨known e.source, known e.target⟩

end Graph

end Coupling
