import Std.Data.HashMap

/-!
# Looking up all values of a key

`keyed pairs` finds by hashing what a scan of the pairs would find: `getD_keyed` says that the
values of a key are those paired with it, in their order in the list.
-/

namespace Coupling

variable {α β : Type} [DecidableEq α] [Hashable α]

def keyed (pairs : List (α × β)) : Std.HashMap α (List β) :=
  pairs.foldr (fun (a, b) found => found.insert a (b :: found.getD a [])) ∅

theorem getD_keyed (pairs : List (α × β)) (a : α) :
    (keyed pairs).getD a [] = (pairs.filter (·.1 = a)).map Prod.snd := by
  induction pairs with
  | nil => simp [keyed]
  | cons pair pairs ih =>
    have step : keyed (pair :: pairs)
        = (keyed pairs).insert pair.1 (pair.2 :: (keyed pairs).getD pair.1 []) := rfl
    rw [step, Std.HashMap.getD_insert]
    by_cases h : pair.1 = a
    · subst h
      simp [ih]
    · simp [h, ih]

end Coupling
