/-!
# Numbers below the length of a vector

A number of type `Fin n` is an index of every vector of length `n`, with nothing left to prove.
-/

namespace Coupling

variable {α : Type} {n : Nat}

instance instGetElemFin : GetElem (Vector α n) (Fin n) α fun _ _ => True where
  getElem xs v _ := xs.get v

@[simp] theorem getElem_fin (xs : Vector α n) (v : Fin n) : xs[v] = xs[v.val] := rfl

theorem toList_eq_map_finRange (xs : Vector α n) :
    xs.toList = (List.finRange n).map fun v => xs[v] := by
  apply List.ext_getElem
  · simp
  · intro i _ _
    simp

end Coupling
