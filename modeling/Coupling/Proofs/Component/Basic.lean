import Coupling.Component.Basic
import Coupling.Collection.Passes

/-!
# Component sets

A component set that is accepted lists its components as they were given, and a list is accepted if
no identifier in it is blank or occurs twice.
-/

namespace Coupling

namespace Components

variable {ε : Type} {cs cs' : Components ε} {l : List (Component ε)}

theorem get_id_injective {i j : Fin cs.size} (h : (cs.get i).id = (cs.get j).id) : i = j := by
  rw [id_get, id_get] at h
  exact cs.ids.get_injective h

theorem id_eq_iff {i j : Fin cs.size} : (cs.get i).id = (cs.get j).id ↔ i = j := by
  constructor
  · exact get_id_injective
  · intro same
    rw [same]

theorem mem_ids {id : String} : id ∈ cs.toList.map Component.id ↔ ∃ i, (cs.get i).id = id := by
  have eq : cs.toList.map Component.id = cs.ids.toList := cs.ids_eq
  rw [eq, IndexedSet.mem_toList_iff]
  simp only [id_get]

@[simp] theorem toList_empty : (empty : Components ε).toList = [] := rfl

theorem add_eq_ok {c : Component ε} (h : cs.add c = .ok cs') :
    cs'.toList = cs.toList ++ [c] := by
  unfold add at h
  split at h
  · cases h
  · split at h
    next => cases h
    next =>
      cases h
      exact toList_push cs c _

theorem foldlM_add_eq_ok (h : l.foldlM add cs = .ok cs') : cs'.toList = cs.toList ++ l := by
  induction l generalizing cs with
  | nil =>
    cases h
    simp
  | cons c l ih =>
    obtain ⟨mid, added, rest⟩ := foldlM_cons_eq_ok.mp h
    rw [ih rest, add_eq_ok added]
    simp

theorem ofList_eq_ok (h : ofList l = .ok cs) : cs.toList = l := by
  have all := foldlM_add_eq_ok h
  simpa using all

theorem exists_add {c : Component ε} (shown : Text.isBlankText c.id = false)
    (fresh : c.id ∉ cs.toList.map Component.id) : ∃ cs', cs.add c = .ok cs' := by
  have absent : cs.ids.position? c.id = none := by
    rw [IndexedSet.position?_eq_none_iff, ← cs.ids_eq]
    exact fresh
  unfold add
  rw [shown]
  simp only [Bool.false_eq_true, ↓reduceIte]
  split
  next i taken =>
    rw [absent] at taken
    cases taken
  next => exact ⟨_, rfl⟩

theorem exists_foldlM_add (shown : ∀ c ∈ l, Text.isBlankText c.id = false)
    (distinct : ((cs.toList ++ l).map Component.id).Nodup) : ∃ cs', l.foldlM add cs = .ok cs' := by
  induction l generalizing cs with
  | nil => exact ⟨cs, rfl⟩
  | cons c l ih =>
    have fresh : c.id ∉ cs.toList.map Component.id := by
      rw [List.map_append, List.nodup_append] at distinct
      intro old
      exact distinct.2.2 c.id old c.id (by simp) rfl
    obtain ⟨mid, added⟩ := exists_add (shown c List.mem_cons_self) fresh
    have distinct' : ((mid.toList ++ l).map Component.id).Nodup := by
      rw [add_eq_ok added, List.append_assoc]
      exact distinct
    obtain ⟨cs', rest⟩ := ih (fun d hd => shown d (List.mem_cons_of_mem _ hd)) distinct'
    exact ⟨cs', foldlM_cons_eq_ok.mpr ⟨mid, added, rest⟩⟩

theorem exists_ofList (shown : ∀ c ∈ l, Text.isBlankText c.id = false)
    (distinct : (l.map Component.id).Nodup) : ∃ cs, ofList l = .ok cs :=
  exists_foldlM_add shown (by simpa using distinct)

end Components

end Coupling
