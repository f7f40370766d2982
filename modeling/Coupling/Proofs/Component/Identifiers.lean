import Coupling.Metric.Lakos
import Coupling.Metric.Martin
import Coupling.Metric.Visibility
import Coupling.Proofs.Component.Basic
import Mathlib.Data.List.Nodup

/-!
# Identifiers are keys

A list of components is refused for the first identifier in it that is blank or has occurred before,
and accepted if there is none (`ofList_eq_error`, `ofList_succeeds_iff`). From then on an identifier
tells a position, and every list of metrics with one entry for each component is looked up by
identifier as the components are (`Keyed.of_names`).
-/

namespace Coupling

namespace Components

variable {α β ε : Type} {cs cs' : Components ε} {l : List (Component ε)}

/-! ## Acceptance -/

/-- What makes the list unusable at a position: a blank identifier, or one that stands at an earlier
position as well. -/
inductive Flaw (l : List (Component ε)) (i : Nat) : Failure → Prop where
  | blank {c : Component ε} (here : l[i]? = some c)
      (blank : ¬ ∃ x ∈ c.id.toList, Text.isBlank x = false) :
      Flaw l i (.unusable (.blankComponent i))
  | repeated {c : Component ε} (here : l[i]? = some c)
      (earlier : c.id ∈ (l.take i).map Component.id) :
      Flaw l i (.unusable (.repeatedComponent c.id))

theorem Flaw.exists_component {i : Nat} {failure : Failure} (flaw : Flaw l i failure) :
    ∃ c, l[i]? = some c := by
  cases flaw with
  | blank here => exact ⟨_, here⟩
  | repeated here => exact ⟨_, here⟩

theorem isBlankText_eq_false_iff {s : String} :
    Text.isBlankText s = false ↔ ∃ x ∈ s.toList, Text.isBlank x = false := by
  simp [Text.isBlankText]

theorem isBlankText_iff {s : String} :
    Text.isBlankText s = true ↔ ¬ ∃ x ∈ s.toList, Text.isBlank x = false := by
  rw [← isBlankText_eq_false_iff, Bool.not_eq_false]

theorem length_toList (cs : Components ε) : cs.toList.length = cs.size := by
  simp [toList]

theorem position?_eq_none_iff {id : String} :
    cs.position? id = none ↔ id ∉ cs.toList.map Component.id := by
  have ids : cs.toList.map Component.id = cs.ids.toList := cs.ids_eq
  rw [position?, IndexedSet.position?_eq_none_iff, ids]

theorem nodup_ids (cs : Components ε) : (cs.toList.map Component.id).Nodup := by
  have ids : cs.toList.map Component.id = cs.ids.toList := cs.ids_eq
  rw [ids]
  exact cs.ids.nodup_toList

theorem add_eq_error (cs : Components ε) {c : Component ε} {failure : Failure} :
    cs.add c = .error failure ↔
      (Text.isBlankText c.id = true ∧ failure = .unusable (.blankComponent cs.toList.length)) ∨
      (Text.isBlankText c.id = false ∧ c.id ∈ cs.toList.map Component.id ∧
        failure = .unusable (.repeatedComponent c.id)) := by
  unfold add
  cases blank : Text.isBlankText c.id with
  | true => simp [length_toList, eq_comm]
  | false =>
    simp only [Bool.false_eq_true, ↓reduceIte, false_and, false_or, true_and]
    split
    next i taken =>
      have listed : c.id ∈ cs.toList.map Component.id :=
        mem_ids.mpr ⟨i, position?_eq_some_iff.mp taken⟩
      simp [listed, eq_comm]
    next free =>
      have fresh : c.id ∉ cs.toList.map Component.id := position?_eq_none_iff.mp free
      simp [fresh]

theorem shown_of_add {c : Component ε} (added : cs.add c = .ok cs') :
    Text.isBlankText c.id = false := by
  rw [← Bool.not_eq_true]
  intro blank
  have refused := cs.add_eq_error.mpr (Or.inl ⟨blank, rfl⟩)
  rw [added] at refused
  cases refused

theorem shown_of_foldlM_add (all : l.foldlM add cs = .ok cs') :
    ∀ c ∈ l, Text.isBlankText c.id = false := by
  induction l generalizing cs with
  | nil => simp
  | cons c l ih =>
    obtain ⟨mid, added, rest⟩ := foldlM_cons_eq_ok.mp all
    intro d hd
    rcases List.mem_cons.mp hd with rfl | hd
    · exact shown_of_add added
    · exact ih rest d hd

theorem ofList_succeeds_iff : (∃ cs, ofList l = .ok cs) ↔
    (∀ c ∈ l, ∃ x ∈ c.id.toList, Text.isBlank x = false) ∧ (l.map Component.id).Nodup := by
  simp only [← isBlankText_eq_false_iff]
  constructor
  · rintro ⟨cs, accepted⟩
    refine ⟨shown_of_foldlM_add accepted, ?_⟩
    rw [← ofList_eq_ok accepted]
    exact cs.nodup_ids
  · rintro ⟨shown, distinct⟩
    exact exists_ofList shown distinct

theorem nodup_iff_not_mem_take {ids : List String} :
    ids.Nodup ↔ ∀ (i : Nat) (id : String), ids[i]? = some id → id ∉ ids.take i := by
  rw [List.nodup_iff_getElem?_ne_getElem?]
  constructor
  · intro distinct i id here earlier
    obtain ⟨j, lt, same⟩ := List.mem_take_iff_getElem.mp earlier
    have bound : i < ids.length := (List.getElem?_eq_some_iff.mp here).1
    refine distinct j i (by omega) bound ?_
    rw [here, ← same]
    exact List.getElem?_eq_getElem _
  · intro fresh j i lt bound same
    have here := List.getElem?_eq_getElem bound
    refine fresh i _ here (List.mem_take_iff_getElem.mpr ⟨j, by omega, ?_⟩)
    rw [here, List.getElem?_eq_getElem (Nat.lt_trans lt bound)] at same
    exact Option.some.inj same

theorem no_flaw_iff : (∀ i failure, ¬ Flaw l i failure) ↔
    (∀ c ∈ l, ∃ x ∈ c.id.toList, Text.isBlank x = false) ∧ (l.map Component.id).Nodup := by
  simp only [nodup_iff_not_mem_take, ← List.map_take]
  constructor
  · intro none
    constructor
    · intro c hc
      obtain ⟨i, here⟩ := List.mem_iff_getElem?.mp hc
      by_contra blank
      exact none i _ (.blank here blank)
    · intro i id here earlier
      rw [List.getElem?_map, Option.map_eq_some_iff] at here
      obtain ⟨c, here, rfl⟩ := here
      exact none i _ (.repeated here earlier)
  · rintro ⟨shown, distinct⟩ i failure flaw
    cases flaw with
    | blank here blank => exact blank (shown _ (List.mem_of_getElem? here))
    | @repeated c here earlier =>
      refine distinct i c.id ?_ earlier
      rw [List.getElem?_map, here]
      rfl

theorem flaw_take {i j : Nat} {failure : Failure} :
    Flaw (l.take i) j failure ↔ j < i ∧ Flaw l j failure := by
  constructor
  · intro flaw
    have before : ∀ {c : Component ε}, (l.take i)[j]? = some c → j < i ∧ l[j]? = some c := by
      intro c here
      simpa [List.getElem?_take] using here
    cases flaw with
    | blank here blank => exact ⟨(before here).1, .blank (before here).2 blank⟩
    | repeated here earlier =>
      obtain ⟨lt, here⟩ := before here
      rw [List.take_take, Nat.min_eq_left (Nat.le_of_lt lt)] at earlier
      exact ⟨lt, .repeated here earlier⟩
  · rintro ⟨lt, flaw⟩
    cases flaw with
    | blank here blank => exact .blank ((List.getElem?_take_of_lt lt).trans here) blank
    | repeated here earlier =>
      refine .repeated ((List.getElem?_take_of_lt lt).trans here) ?_
      rwa [List.take_take, Nat.min_eq_left (Nat.le_of_lt lt)]

/-- The components before a position are accepted if there is no flaw before it. -/
theorem take_succeeds_iff {i : Nat} : (∃ cs, ofList (l.take i) = .ok cs) ↔
    ∀ j < i, ∀ failure, ¬ Flaw l j failure := by
  simp only [ofList_succeeds_iff, ← no_flaw_iff, flaw_take, not_and]
  constructor
  · intro none j lt failure
    exact none j failure lt
  · intro none j failure lt
    exact none j lt failure

/-- Behind accepted components a component is refused for the flaw at its position. -/
theorem add_eq_error_iff_flaw {i : Nat} {c : Component ε} {failure : Failure}
    (here : l[i]? = some c) (before : ofList (l.take i) = .ok cs) :
    cs.add c = .error failure ↔ Flaw l i failure := by
  have taken : cs.toList = l.take i := ofList_eq_ok before
  have length : (l.take i).length = i :=
    List.length_take_of_le (Nat.le_of_lt (List.getElem?_eq_some_iff.mp here).1)
  rw [add_eq_error, taken, length]
  constructor
  · rintro (⟨blank, rfl⟩ | ⟨_, listed, rfl⟩)
    · exact .blank here (isBlankText_iff.mp blank)
    · exact .repeated here listed
  · intro flaw
    cases flaw with
    | blank here' blank =>
      cases here.symm.trans here'
      exact Or.inl ⟨isBlankText_iff.mpr blank, rfl⟩
    | repeated here' earlier =>
      cases here.symm.trans here'
      -- if it were blank, the list would have been refused where it stands first
      have shown : Text.isBlankText c.id = false := by
        obtain ⟨d, hd, same⟩ := List.mem_map.mp earlier
        rw [← same, isBlankText_eq_false_iff]
        exact (ofList_succeeds_iff.mp ⟨cs, before⟩).1 d hd
      exact Or.inr ⟨shown, earlier, rfl⟩

/-- A list is refused for its first flaw. -/
theorem ofList_eq_error {failure : Failure} : ofList l = .error failure ↔
    ∃ i, Flaw l i failure ∧ ∀ j < i, ∀ other, ¬ Flaw l j other := by
  rw [ofList, foldlM_eq_error_iff]
  constructor
  · rintro ⟨i, c, cs, here, before, refused⟩
    exact ⟨i, (add_eq_error_iff_flaw here before).mp refused, take_succeeds_iff.mp ⟨cs, before⟩⟩
  · rintro ⟨i, flaw, first⟩
    obtain ⟨cs, before⟩ := take_succeeds_iff.mpr first
    obtain ⟨c, here⟩ := flaw.exists_component
    exact ⟨i, c, cs, here, before, (add_eq_error_iff_flaw here before).mpr flaw⟩

/-! ## Looking up by identifier -/

theorem getElem?_toList (i : Fin cs.size) : cs.toList[i.val]? = some (cs.get i) := by
  have bound : i.val < cs.toList.length := by
    rw [length_toList]
    exact i.isLt
  rw [List.getElem?_eq_getElem bound]
  rfl

theorem position?_map_val {id : String} {i : Nat} :
    (cs.position? id).map Fin.val = some i ↔ cs.toList[i]?.map Component.id = some id := by
  simp only [Option.map_eq_some_iff, position?_eq_some_iff]
  constructor
  · rintro ⟨j, named, rfl⟩
    exact ⟨cs.get j, getElem?_toList j, named⟩
  · rintro ⟨c, here, named⟩
    have bound : i < cs.size := by
      rw [← length_toList]
      exact (List.getElem?_eq_some_iff.mp here).1
    refine ⟨⟨i, bound⟩, ?_, rfl⟩
    cases here.symm.trans (getElem?_toList ⟨i, bound⟩)
    exact named

/-- The list has one entry for each component, in their order, and the look-up by identifier answers
with what is at the position of the component, and only for components. -/
structure Tabulates (cs : Components ε) (entries : List α) (name : α → String)
    (lookup : String → Option β) (value : α → β) : Prop where
  names : entries.map name = cs.toList.map Component.id
  found : ∀ id i, cs.position? id = some i →
    ∃ entry, entries[i.val]? = some entry ∧ lookup id = some (value entry)
  missing : ∀ id, lookup id = none ↔ id ∉ cs.toList.map Component.id

section Tables

variable {entries : List α} {name : α → String}

/-- A scan of the entries finds the one at the position of the component. -/
theorem find?_eq_getElem? (names : entries.map name = cs.toList.map Component.id) {id : String}
    {i : Fin cs.size} (position : cs.position? id = some i) :
    ∃ entry, entries[i.val]? = some entry ∧
      entries.find? (fun a => decide (name a = id)) = some entry := by
  have named : ∀ j : Nat, entries[j]?.map name = cs.toList[j]?.map Component.id := by
    intro j
    rw [← List.getElem?_map, names, List.getElem?_map]
  have here := named i.val
  rw [getElem?_toList, Option.map_some, position?_eq_some_iff.mp position,
    Option.map_eq_some_iff] at here
  obtain ⟨entry, here, same⟩ := here
  obtain ⟨bound, at_i⟩ := List.getElem?_eq_some_iff.mp here
  refine ⟨entry, here, List.find?_eq_some_iff_getElem.mpr
    ⟨by simpa using same, i.val, bound, at_i, ?_⟩⟩
  intro j lt
  -- an earlier entry of that name would give the identifier a second position
  have other := named j
  rw [List.getElem?_eq_getElem (Nat.lt_trans lt bound), Option.map_some] at other
  rw [Bool.not_eq_true', decide_eq_false_iff_not]
  intro clash
  rw [clash] at other
  have position' := position?_map_val.mpr other.symm
  rw [position, Option.map_some, Option.some.injEq] at position'
  omega

theorem Tabulates.of_names (names : entries.map name = cs.toList.map Component.id) (value : α → β) :
    cs.Tabulates entries name
      (fun id => (entries.find? fun a => decide (name a = id)).map value) value where
  names := names
  found id i position := by
    obtain ⟨entry, here, first⟩ := find?_eq_getElem? names position
    exact ⟨entry, here, by rw [first, Option.map_some]⟩
  missing id := by
    rw [← names, Option.map_eq_none_iff, List.find?_eq_none]
    simp

end Tables

theorem toList_eq_map_get (cs : Components ε) :
    cs.toList = (List.finRange cs.size).map cs.get :=
  toList_eq_map_finRange cs.entries

end Components

/-! ## The metrics of components -/

section Metrics

variable {ε ρ : Type} [Quantity ρ] {cs : Components ε}

theorem perComponent_lakosAlong (g : ComponentGraph cs) (order : List (List (Fin cs.size))) :
    (g.lakosAlong order : LakosMetrics ρ).perComponent =
      (List.finRange cs.size).map fun i =>
        ⟨(cs.get i).id, (g.successors.reachCounts order)[i]⟩ := by
  unfold ComponentGraph.lakosAlong
  dsimp only
  split <;> rfl

theorem tabulates_lakosAlong (g : ComponentGraph cs) (order : List (List (Fin cs.size))) :
    let m : LakosMetrics ρ := g.lakosAlong order
    cs.Tabulates m.perComponent DependsOn.component m.dependsOn? DependsOn.count := by
  refine .of_names ?_ DependsOn.count
  rw [perComponent_lakosAlong, cs.toList_eq_map_get, List.map_map, List.map_map]
  rfl

theorem tabulates_couplings (g : ComponentGraph cs) (isVisible isAbstract : ε → Bool) :
    let m : CouplingMetrics ρ := g.couplings isVisible isAbstract
    cs.Tabulates m.components ComponentCoupling.component m.get? id := by
  have names : (g.couplings isVisible isAbstract : CouplingMetrics ρ).components.map
      ComponentCoupling.component = cs.toList.map Component.id := by
    rw [ComponentGraph.couplings, cs.toList_eq_map_get, List.map_map, List.map_map]
    rfl
  have table := Components.Tabulates.of_names names (id : ComponentCoupling ρ → _)
  simp only [Option.map_id_fun, id_eq] at table
  exact table

theorem tabulates_visibility (cs : Components ε) (isVisible : ε → Bool) :
    let m : VisibilityMetrics ρ := cs.visibility isVisible
    cs.Tabulates m.components ComponentVisibility.component m.relative?
      ComponentVisibility.relative := by
  refine .of_names ?_ ComponentVisibility.relative
  rw [Components.visibility, List.map_map]
  rfl

end Metrics

/-- Components are accepted exactly if their identifiers can be their keys, and are refused for the
first that cannot. Of accepted components an identifier tells the position, also in the lists of
metrics, whatever the order in which dependencies are counted. -/
theorem Components.ofList_keyed {ε : Type} (l : List (Component ε)) :
    ((∃ cs, ofList l = .ok cs) ↔
      (∀ c ∈ l, ∃ x ∈ c.id.toList, Text.isBlank x = false) ∧ (l.map Component.id).Nodup) ∧
    (∀ failure, ofList l = .error failure ↔
      ∃ i, Flaw l i failure ∧ ∀ j < i, ∀ other, ¬ Flaw l j other) ∧
    ∀ cs, ofList l = .ok cs →
      (∀ (id : String) (i : Nat),
        (cs.position? id).map Fin.val = some i ↔ l[i]?.map Component.id = some id) ∧
      cs.toList = l ∧
      ∀ (ρ : Type) [Quantity ρ] (g : ComponentGraph cs) (order : List (List (Fin cs.size)))
          (isVisible isAbstract : ε → Bool),
        let lakos : LakosMetrics ρ := g.lakosAlong order
        let couplings : CouplingMetrics ρ := g.couplings isVisible isAbstract
        let visibility : VisibilityMetrics ρ := cs.visibility isVisible
        cs.Tabulates lakos.perComponent DependsOn.component lakos.dependsOn? DependsOn.count ∧
        cs.Tabulates couplings.components ComponentCoupling.component couplings.get? id ∧
        cs.Tabulates visibility.components ComponentVisibility.component visibility.relative?
          ComponentVisibility.relative := by
  refine ⟨ofList_succeeds_iff, fun _ => ofList_eq_error, ?_⟩
  intro cs accepted
  have list := ofList_eq_ok accepted
  refine ⟨?_, list, ?_⟩
  · intro id i
    rw [position?_map_val, list]
  · intro ρ _ g order isVisible isAbstract
    exact ⟨tabulates_lakosAlong g order, tabulates_couplings g isVisible isAbstract,
      tabulates_visibility cs isVisible⟩

/-- A component that lists no elements. -/
def Component.hollow (id : String) : Component String := ⟨id, [], List.nodup_nil⟩

theorem Components.ofList_keyed_hollow :
    ofList [.hollow "a", .hollow "\u3000", .hollow "a"] = .error (.unusable (.blankComponent 1)) ∧
    ofList [.hollow "a", .hollow "a", .hollow ""] = .error (.unusable (.repeatedComponent "a")) ∧
    ∃ cs, ofList [.hollow "a", .hollow "A"] = .ok cs ∧
      (cs.position? "A").map Fin.val = some 1 ∧
      ∀ g : ComponentGraph cs, (g.lakos : LakosMetrics Float).dependsOn? "b" = none := by
  -- the component in front has no flaw, whatever follows
  have start : ∀ rest : List (Component String),
      ∀ i < 1, ∀ failure, ¬ Flaw (Component.hollow "a" :: rest) i failure := by
    intro rest i lt failure flaw
    obtain rfl : i = 0 := by omega
    cases flaw with
    | blank here blank =>
      cases here
      exact blank (isBlankText_eq_false_iff.mp (by decide))
    | repeated here earlier => simp at earlier
  obtain ⟨_, refused, _⟩ := ofList_keyed [.hollow "a", .hollow "\u3000", .hollow "a"]
  obtain ⟨_, refused', _⟩ := ofList_keyed [.hollow "a", .hollow "a", .hollow ""]
  obtain ⟨succeeds, _, keyed⟩ := ofList_keyed [.hollow "a", .hollow "A"]
  have visible : ∀ c ∈ [Component.hollow "a", Component.hollow "A"],
      Text.isBlankText c.id = false := by decide
  obtain ⟨cs, accepted⟩ := succeeds.mpr
    ⟨fun c hc => isBlankText_eq_false_iff.mp (visible c hc), by decide⟩
  obtain ⟨position, list, tables⟩ := keyed cs accepted
  have blank : Flaw [.hollow "a", .hollow "\u3000", .hollow "a"] 1
      (.unusable (.blankComponent 1)) := .blank rfl (isBlankText_iff.mp (by decide))
  have repeated : Flaw [.hollow "a", .hollow "a", .hollow ""] 1
      (.unusable (.repeatedComponent "a")) := @Flaw.repeated _ _ 1 (.hollow "a") rfl (by decide)
  refine ⟨(refused _).mpr ⟨1, blank, start _⟩, (refused' _).mpr ⟨1, repeated, start _⟩, cs,
    accepted, (position "A" 1).mpr rfl, ?_⟩
  intro g
  obtain ⟨lakos, _, _⟩ := tables Float g g.successors.completed (fun _ => true) fun _ => false
  apply (lakos.missing "b").mpr
  rw [list]
  decide

end Coupling
