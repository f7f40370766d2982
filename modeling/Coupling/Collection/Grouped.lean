import Coupling.Collection.Indexing

/-!
# Grouping a list by a bounded key

`grouped key l` holds, for every key below `n`, the items of `l` with that key in their order in
`l`. One pass builds all groups; `getElem_grouped` says that each is a filter of `l`.
-/

namespace Coupling

def grouped {α : Type} {n : Nat} (key : α → Fin n) (l : List α) : Vector (List α) n :=
  l.foldr (fun a groups => groups.set (key a) (a :: groups[key a]) (key a).isLt)
    (Vector.replicate n [])

theorem getElem_grouped {α : Type} {n : Nat} (key : α → Fin n) (l : List α) (k : Fin n) :
    (grouped key l)[k] = l.filter (key · = k) := by
  induction l with
  | nil => simp [grouped]
  | cons a l ih =>
    have step : grouped key (a :: l)
        = (grouped key l).set (key a) (a :: (grouped key l)[key a]) (key a).isLt := rfl
    rw [step, getElem_fin, Vector.getElem_set]
    by_cases h : key a = k
    · subst h
      simpa using ih
    · have hv : (key a).val ≠ k.val := fun e => h (Fin.ext e)
      simpa [h, hv] using ih

end Coupling
