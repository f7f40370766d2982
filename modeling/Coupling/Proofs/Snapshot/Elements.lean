import Coupling.Proofs.Component.Dependencies
import Coupling.Proofs.Snapshot.Crossings

/-!
# Dependencies by name and by element

The component graph of a snapshot is derived from names: of the ends of its dependencies, and of the
components that list them. Where a name stands for one element only, the elements themselves lead to
the same graph, however often and under however many components they are listed.
-/

namespace Coupling

namespace Snapshot

variable {s : Snapshot} {cs : Components Element}

/-- The elements of all components as they are listed. -/
def elements (s : Snapshot) : List Element := s.components.flatMap ComponentRecord.elements

/-- Elements that are listed under one name have the same flags. -/
def Unambiguous (s : Snapshot) : Prop :=
  ∀ x ∈ s.elements, ∀ y ∈ s.elements, x.name = y.name →
    x.isVisible = y.isVisible ∧ x.isAbstract = y.isAbstract

instance decidableUnambiguous (s : Snapshot) : Decidable s.Unambiguous :=
  inferInstanceAs (Decidable (∀ x ∈ s.elements, ∀ y ∈ s.elements, _ → _))

/-- The element that carries a name, if one is listed. -/
def carrier? (s : Snapshot) (name : String) : Option Element :=
  s.elements.find? fun x => x.name = name

/-- The dependencies whose ends are both listed, with the elements in place of their names. -/
def elementDependencies (s : Snapshot) : List (Element × Element) :=
  s.dependencies.filterMap fun d => do return (← s.carrier? d.origin, ← s.carrier? d.target)

theorem Unambiguous.eq (h : s.Unambiguous) {x y : Element} (hx : x ∈ s.elements)
    (hy : y ∈ s.elements) (same : x.name = y.name) : x = y := by
  obtain ⟨visible, isAbstract⟩ := h x hx y hy same
  cases x
  cases y
  simp_all

theorem Unambiguous.carrier?_eq_some_iff (h : s.Unambiguous) {name : String} {x : Element} :
    s.carrier? name = some x ↔ x ∈ s.elements ∧ x.name = name := by
  constructor
  · intro found
    have named := List.find?_some found
    exact ⟨List.mem_of_find?_eq_some found, of_decide_eq_true named⟩
  · rintro ⟨hx, rfl⟩
    cases found : s.carrier? x.name with
    | none =>
      have absent := List.find?_eq_none.mp found x hx
      simp at absent
    | some y =>
      have named := List.find?_some found
      rw [h.eq (List.mem_of_find?_eq_some found) hx (of_decide_eq_true named)]

theorem Unambiguous.mem_elementDependencies (h : s.Unambiguous) {x y : Element} :
    (x, y) ∈ s.elementDependencies ↔ x ∈ s.elements ∧ y ∈ s.elements ∧
      ∃ d ∈ s.dependencies, x.name = d.origin ∧ y.name = d.target := by
  simp only [elementDependencies, List.mem_filterMap, bind, Option.bind_eq_some_iff, pure,
    Option.some.injEq, Prod.mk.injEq, h.carrier?_eq_some_iff]
  constructor
  · rintro ⟨d, hd, _, ⟨hx, source⟩, _, ⟨hy, target⟩, rfl, rfl⟩
    exact ⟨hx, hy, d, hd, source, target⟩
  · rintro ⟨hx, hy, d, hd, source, target⟩
    exact ⟨d, hd, x, ⟨hx, source⟩, y, ⟨hy, target⟩, rfl, rfl⟩

/-- An accepted component has the elements of its record, without repeats. -/
theorem exists_record_of_accepted (accepted : s.componentSet = .ok cs) (i : Fin cs.size) :
    ∃ c ∈ s.components, (cs.get i).id = c.id ∧
      ∀ x, x ∈ (cs.get i).elements ↔ x ∈ c.elements := by
  have mem : cs.get i ∈ cs.toList := Vector.mem_toList_iff.mpr (Vector.getElem_mem i.isLt)
  rw [toList_of_accepted accepted, List.mem_map] at mem
  obtain ⟨c, hc, same⟩ := mem
  refine ⟨c, hc, by rw [← same]; rfl, ?_⟩
  intro x
  rw [← same]
  exact IndexedSet.mem_toList_ofList

theorem mem_elements_of_accepted (accepted : s.componentSet = .ok cs) {i : Fin cs.size}
    {x : Element} (hx : x ∈ (cs.get i).elements) : x ∈ s.elements := by
  obtain ⟨c, hc, _, elements⟩ := exists_record_of_accepted accepted i
  exact List.mem_flatMap.mpr ⟨c, hc, (elements x).mp hx⟩

/-- A name is listed under a component that has an element of that name. -/
theorem mem_listings_get (accepted : s.componentSet = .ok cs) {i : Fin cs.size} {name : String} :
    (name, (cs.get i).id) ∈ s.listings ↔ ∃ x ∈ (cs.get i).elements, x.name = name := by
  obtain ⟨c, hc, id, elements⟩ := exists_record_of_accepted accepted i
  rw [id, mem_listings_iff accepted hc]
  simp [ComponentRecord.lists, elements]

/-- Both derivations make the same graph, with the same successors and predecessors everywhere. -/
theorem componentGraph_eq_ofElements (accepted : s.componentSet = .ok cs)
    (unambiguous : s.Unambiguous) :
    s.componentGraph cs = .ok (ComponentGraph.ofElements cs s.elementDependencies) := by
  obtain ⟨g, built, successors⟩ := exists_componentGraph accepted
  have coherent := (ComponentGraph.ofIds_eq_ok built).1
  have byElements := @ComponentGraph.depicts_ofElements _ cs _ _ s.elementDependencies
  have same : g = ComponentGraph.ofElements cs s.elementDependencies := by
    apply coherent.ext byElements.coherent
    intro i j
    rw [successors, byElements.successors]
    simp only [mem_crossings, mem_listings_get accepted, ne_eq, Components.id_eq_iff]
    constructor
    · rintro ⟨d, hd, ne, ⟨x, hx, source⟩, y, hy, target⟩
      have listed := unambiguous.mem_elementDependencies.mpr
        ⟨mem_elements_of_accepted accepted hx, mem_elements_of_accepted accepted hy, d, hd, source,
          target⟩
      exact ⟨ne, (x, y), listed, hx, hy⟩
    · rintro ⟨ne, ⟨x, y⟩, listed, hx, hy⟩
      obtain ⟨_, _, d, hd, source, target⟩ := unambiguous.mem_elementDependencies.mp listed
      exact ⟨d, hd, ne, ⟨x, hx, source⟩, y, hy, target⟩
  rw [built, same]

/-- An element that two components share, one of them listing it twice, and names that are not
listed. -/
def overlapping : Snapshot where
  components :=
    [⟨"a", [{ name := "x" }, { name := "u", isVisible := true }, { name := "x" }]⟩,
      ⟨"b", [{ name := "u", isVisible := true }, { name := "y" }]⟩]
  dependencies :=
    [{ origin := "x", target := "u" }, { origin := "z", target := "x" },
      { origin := "u", target := "u" }, { origin := "y", target := "z" }]

/-- The shared element makes the two components depend on each other. -/
theorem componentGraph_eq_ofElements_overlapping :
    ∃ cs g, overlapping.componentSet = .ok cs ∧ overlapping.Unambiguous ∧
      overlapping.componentGraph cs = .ok g ∧
      g = ComponentGraph.ofElements cs
        [({ name := "x" }, { name := "u", isVisible := true }),
          ({ name := "u", isVisible := true }, { name := "u", isVisible := true })] ∧
      ∃ i j, (cs.get i).id = "a" ∧ (cs.get j).id = "b" ∧
        j ∈ g.successors[i] ∧ i ∈ g.predecessors[j] ∧ i ∈ g.successors[j] := by
  obtain ⟨cs, accepted⟩ : ∃ cs, overlapping.componentSet = .ok cs :=
    Components.exists_ofList (by decide) (by decide)
  have unambiguous : overlapping.Unambiguous := by decide
  obtain ⟨g, built, successors⟩ := exists_componentGraph accepted
  have coherent := (ComponentGraph.ofIds_eq_ok built).1
  have byElements := componentGraph_eq_ofElements accepted unambiguous
  obtain ⟨i, hi⟩ := exists_id_of_listed accepted (show ("u", "a") ∈ overlapping.listings by decide)
  obtain ⟨j, hj⟩ := exists_id_of_listed accepted (show ("u", "b") ∈ overlapping.listings by decide)
  have there : j ∈ g.successors[i] := by
    rw [successors, hi, hj]
    exact ⟨{ origin := "x", target := "u" }, mem_crossings.mpr (by decide)⟩
  have back : i ∈ g.successors[j] := by
    rw [successors, hi, hj]
    exact ⟨{ origin := "u", target := "u" }, mem_crossings.mpr (by decide)⟩
  have same := Except.ok.inj (built.symm.trans byElements)
  exact ⟨cs, g, accepted, unambiguous, built, same, i, j, hi, hj, there,
    (coherent.mirror i j).mpr there, back⟩

end Snapshot

end Coupling
