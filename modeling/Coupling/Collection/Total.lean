/-!
# Totals of counts
-/

namespace Coupling

def total (l : List Nat) : Nat := l.foldl (· + ·) 0

theorem foldl_add_start (l : List Nat) (a b : Nat) :
    l.foldl (· + ·) (a + b) = a + l.foldl (· + ·) b := by
  induction l generalizing b with
  | nil => rfl
  | cons n l ih => rw [List.foldl_cons, List.foldl_cons, Nat.add_assoc, ih]

@[simp] theorem total_nil : total [] = 0 := rfl

@[simp] theorem total_cons (n : Nat) (l : List Nat) : total (n :: l) = n + total l := by
  rw [total, List.foldl_cons, Nat.add_comm, foldl_add_start]
  rfl

end Coupling
