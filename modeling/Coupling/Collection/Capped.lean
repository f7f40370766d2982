/-!
# Collecting under a cap

A capped list holds at most a given number of items and tells whether there would have been more.
`Capped.cut` is the view: `gather_eq_cut` says that collecting part by part, each with the room the
parts before it have left, is the same as cutting the whole list.
-/

namespace Coupling

structure Capped (α : Type) where
  items : List α
  truncated : Bool
  deriving DecidableEq, Repr

namespace Capped

variable {α β : Type}

/-- The first `cap` items of a list. -/
def cut (cap : Nat) (l : List α) : Capped α := ⟨l.take cap, decide (cap < l.length)⟩

def map (f : α → β) (c : Capped α) : Capped β := ⟨c.items.map f, c.truncated⟩

@[simp] theorem items_cut (cap : Nat) (l : List α) : (cut cap l).items = l.take cap := rfl

@[simp] theorem truncated_cut (cap : Nat) (l : List α) :
    (cut cap l).truncated = decide (cap < l.length) := rfl

@[simp] theorem items_map (f : α → β) (c : Capped α) : (c.map f).items = c.items.map f := rfl

@[simp] theorem truncated_map (f : α → β) (c : Capped α) : (c.map f).truncated = c.truncated := rfl

theorem items_cut_eq_nil_iff {cap : Nat} {l : List α} (pos : 0 < cap) :
    (cut cap l).items = [] ↔ l = [] := by
  rw [items_cut, List.take_eq_nil_iff]
  exact or_iff_right (Nat.ne_of_gt pos)

theorem map_cut (f : α → β) (cap : Nat) (l : List α) :
    (cut cap l).map f = cut cap (l.map f) := by
  simp [cut, map]

/-- Collects from one part after the other and stops at the first that is truncated. -/
def gather (part : β → Nat → Capped α) : List β → Nat → Capped α
  | [], _ => ⟨[], false⟩
  | b :: bs, cap =>
    let here := part b cap
    if here.truncated then here
    else
      let beyond := gather part bs (cap - here.items.length)
      ⟨here.items ++ beyond.items, beyond.truncated⟩

theorem gather_eq_cut (part : β → Nat → Capped α) (whole : β → List α) (bs : List β)
    (h : ∀ b ∈ bs, ∀ cap, part b cap = cut cap (whole b)) (cap : Nat) :
    gather part bs cap = cut cap (bs.flatMap whole) := by
  induction bs generalizing cap with
  | nil => simp [gather, cut]
  | cons b bs ih =>
    have ih := ih fun b' hb' => h b' (List.mem_cons_of_mem _ hb')
    rw [gather, h b List.mem_cons_self, List.flatMap_cons]
    by_cases more : cap < (whole b).length
    · have longer : cap < (whole b ++ bs.flatMap whole).length := by
        rw [List.length_append]
        omega
      simp only [cut, more, longer, decide_true, ↓reduceIte]
      rw [List.take_append_of_le_length (by omega)]
    · have all : (whole b).take cap = whole b := List.take_of_length_le (by omega)
      simp only [cut, more, decide_false, Bool.false_eq_true, ↓reduceIte, all, ih]
      rw [List.take_append, all]
      simp only [List.length_append, Capped.mk.injEq, true_and, decide_eq_decide]
      omega

end Capped

end Coupling
