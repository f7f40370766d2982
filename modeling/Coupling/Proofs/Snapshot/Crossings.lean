import Coupling.Proofs.Graph.Parallel
import Coupling.Proofs.Scc.Partition
import Coupling.Proofs.Snapshot.Graphs
import Mathlib.Data.List.Nodup

/-!
# Which dependencies cross

A dependency crosses once between two distinct components whenever the one lists its origin and the
other its target, however often they do. Between two nodes the multigraph of a snapshot therefore
has the dependencies that cross, each as often as it occurs and in the same order
(`descriptorsBetween_crossings`).
-/

namespace Coupling

/-- Whether some element of the component has this name. -/
def ComponentRecord.lists (c : ComponentRecord) (name : String) : Bool :=
  c.elements.any fun x => x.name = name

theorem descriptorsBetween_flatMap {α ν δ : Type} [DecidableEq ν] (l : List α)
    (edges : α → List (ν × ν × δ)) (a b : ν) :
    descriptorsBetween (l.flatMap edges) a b =
      l.flatMap fun x => descriptorsBetween (edges x) a b := by
  simp only [descriptorsBetween, List.filter_flatMap, List.map_flatMap]

theorem flatMap_ite_singleton {α : Type} (p : α → Bool) (l : List α) :
    (l.flatMap fun a => if p a then [a] else []) = l.filter p := by
  induction l with
  | nil => rfl
  | cons a l ih => by_cases h : p a = true <;> simp [h, ih]

/-- Of edges with one descriptor and without repeats at most one leads from `a` to `b`. -/
theorem descriptorsBetween_of_nodup {ν δ : Type} [DecidableEq ν] [DecidableEq δ]
    {edges : List (ν × ν × δ)} {d : δ} (nodup : edges.Nodup) (all : ∀ edge ∈ edges, edge.2.2 = d)
    (a b : ν) : descriptorsBetween edges a b = if (a, b, d) ∈ edges then [d] else [] := by
  have single : (edges.filter fun edge => edge.1 = a && edge.2.1 = b) =
      edges.filter fun edge => edge = (a, b, d) := by
    apply List.filter_congr
    intro edge mem
    rw [Bool.eq_iff_iff]
    simp [Prod.ext_iff, all edge mem]
  rw [descriptorsBetween, single, List.filter_eq, nodup.count]
  split <;> rfl

namespace Snapshot

variable {s : Snapshot} {cs : Components Element}

theorem nodup_crossingsOf (owners : String → List String) (d : Dependency) :
    (crossingsOf owners d).Nodup := by
  have distinct : ∀ l : List String, l.eraseDups.Nodup := by
    intro l
    rw [← IndexedSet.toList_ofList]
    exact IndexedSet.nodup_toList _
  rw [crossingsOf, List.nodup_flatMap]
  constructor
  · intro a _
    apply ((distinct (owners d.target)).filter _).map
    intro b b' eq
    cases eq
    rfl
  · apply (distinct (owners d.origin)).imp
    intro a a' ne edge mem mem'
    obtain ⟨_, _, rfl⟩ := List.mem_map.mp mem
    obtain ⟨_, _, eq⟩ := List.mem_map.mp mem'
    exact ne (congrArg Prod.fst eq).symm

/-! ## Components by their records -/

theorem map_id_of_accepted (accepted : s.componentSet = .ok cs) :
    cs.ids.toList = s.components.map ComponentRecord.id := by
  rw [← cs.ids_eq]
  have records := congrArg (List.map Component.id) (toList_of_accepted accepted)
  rw [List.map_map] at records
  exact records

/-- An accepted record is told by its identifier. -/
theorem id_injective_of_accepted (accepted : s.componentSet = .ok cs) {a b : ComponentRecord}
    (ha : a ∈ s.components) (hb : b ∈ s.components) (same : a.id = b.id) : a = b := by
  have distinct : (s.components.map ComponentRecord.id).Nodup := by
    rw [← map_id_of_accepted accepted]
    exact cs.ids.nodup_toList
  exact List.inj_on_of_nodup_map distinct ha hb same

theorem mem_listings_iff (accepted : s.componentSet = .ok cs) {c : ComponentRecord}
    (hc : c ∈ s.components) (name : String) : (name, c.id) ∈ s.listings ↔ c.lists name = true := by
  simp only [listings, List.mem_flatMap, List.mem_map, Prod.mk.injEq, ComponentRecord.lists,
    List.any_eq_true, decide_eq_true_eq]
  constructor
  · intro h
    obtain ⟨c', hc', x, hx, named, same⟩ := h
    rw [id_injective_of_accepted accepted hc' hc same] at hx
    exact ⟨x, hx, named⟩
  · intro h
    obtain ⟨x, hx, named⟩ := h
    exact ⟨c, hc, x, hx, named, rfl⟩

/-- Some dependency of the snapshot has its origin in the one component and its target in the
other. -/
structure Crosses (s : Snapshot) (a b : ComponentRecord) : Prop where
  source : a ∈ s.components
  target : b ∈ s.components
  ne : a ≠ b
  dependency : ∃ d ∈ s.dependencies, a.lists d.origin = true ∧ b.lists d.target = true

theorem crosses_iff (accepted : s.componentSet = .ok cs) {a b : ComponentRecord}
    (ha : a ∈ s.components) (hb : b ∈ s.components) :
    s.Crosses a b ↔ ∃ d, (a.id, b.id, d) ∈ s.crossings := by
  simp only [mem_crossings, mem_listings_iff accepted ha, mem_listings_iff accepted hb]
  constructor
  · intro h
    obtain ⟨d, hd, lists⟩ := h.dependency
    have apart : a.id ≠ b.id := fun same => h.ne (id_injective_of_accepted accepted ha hb same)
    exact ⟨d, hd, apart, lists⟩
  · intro h
    obtain ⟨d, hd, apart, lists⟩ := h
    have ne : a ≠ b := fun same => apart (congrArg ComponentRecord.id same)
    exact ⟨ha, hb, ne, d, hd, lists⟩

theorem descriptorsBetween_crossings (accepted : s.componentSet = .ok cs) {a b : ComponentRecord}
    (ha : a ∈ s.components) (hb : b ∈ s.components) (ne : a ≠ b) :
    descriptorsBetween s.crossings a.id b.id =
      s.dependencies.filter fun d => a.lists d.origin && b.lists d.target := by
  have apart : a.id ≠ b.id := fun same => ne (id_injective_of_accepted accepted ha hb same)
  rw [crossings, descriptorsBetween_flatMap, ← flatMap_ite_singleton]
  apply List.flatMap_congr
  intro d _
  have all : ∀ edge ∈ crossingsOf (fun name => (keyed s.listings).getD name []) d,
      edge.2.2 = d := by
    intro edge mem
    obtain ⟨x, y, d'⟩ := edge
    exact (mem_crossingsOf.mp mem).1
  rw [descriptorsBetween_of_nodup (nodup_crossingsOf _ d) all]
  simp [mem_crossingsOf, mem_owners, mem_listings_iff accepted ha, mem_listings_iff accepted hb,
    apart]

end Snapshot

end Coupling
