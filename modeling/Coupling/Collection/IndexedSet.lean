import Std.Data.HashMap

/-!
# Sets that remember the order of insertion

A member keeps the position at which it was first inserted, and the position of a value is found
by hashing. `toList_ofList` says that building such a set from a list removes every repeat after
the first; `position?_eq_some_iff` says that the two directions of the index agree.
-/

namespace Coupling

structure IndexedSet (α : Type) [DecidableEq α] [Hashable α] where
  positions : Std.HashMap α Nat
  members : Array α
  positions_iff : ∀ (a : α) (i : Nat), positions[a]? = some i ↔ members[i]? = some a

namespace IndexedSet

variable {α : Type} [DecidableEq α] [Hashable α]

abbrev size (s : IndexedSet α) : Nat := s.members.size

def toList (s : IndexedSet α) : List α := s.members.toList

def get (s : IndexedSet α) (i : Fin s.size) : α := s.members[i]

def empty : IndexedSet α where
  positions := ∅
  members := #[]
  positions_iff := by simp

theorem lt_size_of_positions {s : IndexedSet α} {a : α} {i : Nat}
    (h : s.positions[a]? = some i) : i < s.size :=
  (Array.getElem?_eq_some_iff.mp ((s.positions_iff a i).mp h)).1

def position? (s : IndexedSet α) (a : α) : Option (Fin s.size) :=
  match h : s.positions[a]? with
  | some i => some ⟨i, lt_size_of_positions h⟩
  | none => none

theorem position?_eq_some_iff {s : IndexedSet α} {a : α} {i : Fin s.size} :
    s.position? a = some i ↔ s.get i = a := by
  have key : s.positions[a]? = some i.val ↔ s.get i = a := by
    rw [s.positions_iff, Array.getElem?_eq_some_iff]
    exact ⟨fun ⟨_, h⟩ => h, fun h => ⟨i.isLt, h⟩⟩
  rw [← key]
  unfold position?
  split
  next j h => simp [h, Fin.ext_iff]
  next h => simp [h]

theorem position?_get (s : IndexedSet α) (i : Fin s.size) : s.position? (s.get i) = some i :=
  position?_eq_some_iff.mpr rfl

theorem mem_toList_iff {s : IndexedSet α} {a : α} : a ∈ s.toList ↔ ∃ i, s.get i = a := by
  rw [toList, Array.mem_toList_iff, Array.mem_iff_getElem]
  exact ⟨fun ⟨i, h, e⟩ => ⟨⟨i, h⟩, e⟩, fun ⟨i, e⟩ => ⟨i.val, i.isLt, e⟩⟩

theorem position?_eq_none_iff {s : IndexedSet α} {a : α} :
    s.position? a = none ↔ a ∉ s.toList := by
  rw [mem_toList_iff, Option.eq_none_iff_forall_ne_some]
  simp [position?_eq_some_iff]

theorem positions_eq_none {s : IndexedSet α} {a : α} (h : s.position? a = none) :
    s.positions[a]? = none := by
  unfold position? at h
  split at h
  · cases h
  · assumption

theorem get_injective (s : IndexedSet α) {i j : Fin s.size} (h : s.get i = s.get j) : i = j := by
  have hi := s.position?_get i
  rw [h, position?_get] at hi
  exact (Option.some.inj hi).symm

theorem nodup_toList (s : IndexedSet α) : s.toList.Nodup := by
  rw [List.nodup_iff_pairwise_ne, List.pairwise_iff_getElem]
  intro i j hi hj hlt heq
  have hi : i < s.size := by simpa [toList, size] using hi
  have hj : j < s.size := by simpa [toList, size] using hj
  have := s.get_injective (i := ⟨i, hi⟩) (j := ⟨j, hj⟩) (by simpa [toList, get] using heq)
  simp only [Fin.mk.injEq] at this
  omega

/-- Adds a value that is not yet a member at the end. The position is taken before the array
grows, so that the array is not shared while it does. -/
def push (s : IndexedSet α) (a : α) (fresh : s.positions[a]? = none) : IndexedSet α where
  positions := s.positions.insert a s.members.size
  members := s.members.push a
  positions_iff := by
    intro b i
    simp only [Std.HashMap.getElem?_insert, Array.getElem?_push, beq_iff_eq]
    by_cases h : a = b <;> by_cases hi : i = s.members.size
    · simp [h, hi]
    · subst h
      rw [if_pos rfl, if_neg hi, ← s.positions_iff, fresh]
      simp [Ne.symm hi]
    · subst hi
      rw [if_neg h, if_pos rfl, s.positions_iff]
      simp [h]
    · rw [if_neg h, if_neg hi, s.positions_iff]

theorem toList_push (s : IndexedSet α) (a : α) (fresh : s.positions[a]? = none) :
    (s.push a fresh).toList = s.toList ++ [a] := by
  simp [push, toList]

theorem size_push (s : IndexedSet α) (a : α) (fresh : s.positions[a]? = none) :
    (s.push a fresh).size = s.size + 1 := by
  simp [push, size]

def insert (s : IndexedSet α) (a : α) : IndexedSet α :=
  match h : s.positions[a]? with
  | some _ => s
  | none => s.push a h

theorem toList_insert (s : IndexedSet α) (a : α) :
    (s.insert a).toList = if a ∈ s.toList then s.toList else s.toList ++ [a] := by
  unfold insert
  split
  next i h =>
    have : a ∈ s.toList := by
      rw [toList, Array.mem_toList_iff]
      exact Array.mem_of_getElem? ((s.positions_iff a i).mp h)
    simp [this]
  next h =>
    have : a ∉ s.toList := by
      rw [← position?_eq_none_iff]
      unfold position?
      split
      next heq => rw [h] at heq; cases heq
      next => rfl
    simp [this, toList_push]

def ofList (l : List α) : IndexedSet α := l.foldl insert empty

theorem toList_foldl_insert (l : List α) (s : IndexedSet α) :
    (l.foldl insert s).toList = s.toList ++ (l.filter (· ∉ s.toList)).eraseDups := by
  induction l generalizing s with
  | nil => simp
  | cons a l ih =>
    rw [List.foldl_cons, ih, toList_insert]
    by_cases h : a ∈ s.toList
    · simp [h]
    · simp only [h, ↓reduceIte, List.append_assoc, List.singleton_append, not_false_eq_true,
        decide_true, List.filter_cons_of_pos, List.eraseDups_cons, List.filter_filter]
      congr 3
      apply List.filter_congr
      intro b _
      simp only [List.mem_append, List.mem_singleton, not_or]
      by_cases hb : b = a <;> by_cases hs : b ∈ s.toList <;> simp [hb, hs]

theorem toList_ofList (l : List α) : (ofList l).toList = l.eraseDups := by
  rw [ofList, toList_foldl_insert]
  have : ∀ a ∈ l, decide (a ∉ (empty : IndexedSet α).toList) = true := by simp [toList, empty]
  rw [List.filter_eq_self.mpr this]
  rfl

theorem toList_ofList_of_nodup {l : List α} (h : l.Nodup) : (ofList l).toList = l := by
  rw [toList_ofList]
  induction l with
  | nil => rfl
  | cons a l ih =>
    obtain ⟨ha, h⟩ := List.nodup_cons.mp h
    have others : ∀ b ∈ l, (!b == a) = true := by
      intro b hb
      have : b ≠ a := fun e => ha (e ▸ hb)
      simpa using this
    rw [List.eraseDups_cons, List.filter_eq_self.mpr others, ih h]

theorem mem_toList_ofList {l : List α} {a : α} : a ∈ (ofList l).toList ↔ a ∈ l := by
  rw [toList_ofList]
  simp

end IndexedSet

end Coupling
