import Coupling.Collection.Total
import Coupling.Failure
import Coupling.Graph.Adjacency
import Mathlib.Data.List.FinRange
import Mathlib.Data.Nat.Find

/-!
# Computations on bare arrays

The detector works on numbers that are places of arrays by their type. Written out over bare arrays
and natural numbers it has to look whether a number is a place before it uses it, and to halt if it
is not; and its loops take turns until one says that they are over, which nothing promises
(`loop`). What holds of the typed detector is carried over by reading off `Vector`s and lists of
`Fin n` what the bare arrays hold.
-/

namespace Coupling

/-- The operations that have no result. -/
inductive Fault where
  /-- A place outside an array. -/
  | index
  /-- A stack that ends before the node down to which it is taken. -/
  | exhausted
  /-- A visit number that stands for nodes without a visit. -/
  | sentinel
  /-- A remainder modulo zero. -/
  | modulus
  /-- A difference below zero. -/
  | underflow
  /-- A sum that takes more than a word. -/
  | overflow
  deriving DecidableEq, Repr

/-- Why a computation ends without a result: it must not, or it reports a failure. -/
inductive Stop where
  | fault (fault : Fault)
  | failure (failure : Failure)
  deriving DecidableEq, Repr

/-- A computation that ends with a result, ends without one, or never ends (`none`). -/
abbrev Checked (α : Type) : Type := ExceptT Stop Option α

namespace Checked

variable {α β σ τ : Type}

def fault (fault : Fault) : Checked α := throw (.fault fault)

/-- The computation that ends as told: with the result or with the failure, but with no fault. -/
def ofExcept : Except Failure α → Checked α
  | .ok a => pure a
  | .error failure => throw (.failure failure)

def fetch (xs : Array α) (i : Nat) : Checked α :=
  match xs[i]? with
  | some a => pure a
  | none => fault .index

def store (xs : Array α) (i : Nat) (a : α) : Checked (Array α) :=
  if h : i < xs.size then pure (xs.set i a h) else fault .index

def rem (a b : Nat) : Checked Nat := if b = 0 then fault .modulus else pure (a % b)

def sub (a b : Nat) : Checked Nat := if a < b then fault .underflow else pure (a - b)

/-- The sum in words of 64 bits. -/
def add (a b : Nat) : Checked Nat :=
  if a + b < UInt64.size then pure (a + b) else fault .overflow

def sum (l : List Nat) : Checked Nat := l.foldlM add 0

/-! ## Loops -/

/-- The computation that never ends. -/
def never : Checked α := (none : Option (Except Stop α))

/-- What a loop has come to after at most so many turns. -/
def turns (body : σ → Checked (σ ⊕ α)) : Nat → σ → Checked α
  | 0, _ => never
  | n + 1, s => body s >>= Sum.elim (turns body n) pure

open Classical in
/-- Takes turns until one gives a result. -/
noncomputable def loop (body : σ → Checked (σ ⊕ α)) (s : σ) : Checked α :=
  if h : ∃ n, turns body n s ≠ never then turns body (Nat.find h) s else never

section Loops

variable {body : σ → Checked (σ ⊕ α)} {s t : σ} {n m : Nat}

theorem turns_succ (ended : turns body n s ≠ never) : turns body (n + 1) s = turns body n s := by
  induction n generalizing s with
  | zero => exact absurd rfl ended
  | succ n ih =>
    rw [turns] at ended ⊢
    rw [turns]
    cases turn : (body s : Option (Except Stop (σ ⊕ α))) with
    | none => rfl
    | some outcome =>
      rw [turn] at ended
      rcases outcome with stop | next | a
      · rfl
      · exact ih ended
      · rfl

theorem turns_of_le (ended : turns body n s ≠ never) (le : n ≤ m) :
    turns body m s = turns body n s := by
  induction le with
  | refl => rfl
  | step _ ih => rw [turns_succ (by rw [ih]; exact ended), ih]

theorem loop_eq_turns (ended : turns body n s ≠ never) : loop body s = turns body n s := by
  classical
  have ends : ∃ n, turns body n s ≠ never := ⟨n, ended⟩
  rw [loop, dif_pos ends]
  exact (turns_of_le (Nat.find_spec ends) (Nat.find_min' ends ended)).symm

theorem turns_done {a : α} (turn : body s = pure (.inr a)) : turns body (n + 1) s = pure a := by
  rw [turns, turn]
  rfl

theorem turns_again (turn : body s = pure (.inl t)) : turns body (n + 1) s = turns body n t := by
  rw [turns, turn]
  rfl

theorem turns_eq_loop {a : α} (ended : turns body n s = pure a) : turns body n s = loop body s :=
  (loop_eq_turns (by rw [ended]; exact Option.some_ne_none _)).symm

theorem loop_done {a : α} (turn : body s = pure (.inr a)) : loop body s = pure a := by
  have first : turns body 1 s = pure a := turns_done turn
  rw [← turns_eq_loop first, first]

theorem loop_stop {stop : Stop} (turn : body s = throw stop) : loop body s = throw stop := by
  have first : turns body 1 s = throw stop := by
    rw [turns, turn]
    rfl
  rw [loop_eq_turns (by rw [first]; exact Option.some_ne_none _), first]

theorem loop_again (turn : body s = pure (.inl t)) : loop body s = loop body t := by
  have next : ∀ n, turns body (n + 1) s = turns body n t := fun n => turns_again turn
  by_cases ends : ∃ n, turns body n t ≠ never
  · obtain ⟨n, ended⟩ := ends
    rw [loop_eq_turns ended, ← next, loop_eq_turns (by rw [next]; exact ended)]
  · -- a loop that ended from `s` would end from `t` as well, one turn earlier
    have endless : ¬ ∃ n, turns body n s ≠ never := by
      rintro ⟨n, ended⟩
      have longer := turns_succ ended
      rw [next] at longer
      exact ends ⟨n, by rw [longer]; exact ended⟩
    rw [loop, dif_neg endless, loop, dif_neg ends]

end Loops

/-! ## Computations that succeed -/

theorem fetch_eq {xs : Array α} {i : Nat} {a : α} (h : xs[i]? = some a) : fetch xs i = pure a := by
  simp [fetch, h]

@[simp] theorem fetch_vector {n : Nat} (xs : Vector α n) (v : Fin n) :
    fetch xs.toArray v.val = pure xs[v] := by
  apply fetch_eq
  simp

@[simp] theorem store_vector {n : Nat} (xs : Vector α n) (v : Fin n) (a : α) :
    store xs.toArray v.val a = pure (xs.set v a v.isLt).toArray := by
  simp [store]

theorem sub_eq {a b : Nat} (le : b ≤ a) : sub a b = pure (a - b) := by
  simp [sub, Nat.not_lt.mpr le]

theorem rem_eq {a b : Nat} (pos : 0 < b) : rem a b = pure (a % b) := by
  simp [rem, Nat.ne_of_gt pos]

theorem foldlM_add {a : Nat} (fits : a < UInt64.size) (l : List Nat) :
    l.foldlM add a =
      if a + total l < UInt64.size then pure (a + total l) else fault .overflow := by
  induction l generalizing a with
  | nil => exact (if_pos fits).symm
  | cons b l ih =>
    rw [List.foldlM_cons, add, total_cons, ← Nat.add_assoc]
    split
    next fits => rw [pure_bind, ih fits]
    next exceeds =>
      rw [if_neg fun fits => exceeds ((Nat.le_add_right _ _).trans_lt fits)]
      rfl

/-- Since a sum only grows, it overflows on the way exactly if it does in the end. -/
theorem sum_eq (l : List Nat) :
    sum l = if total l < UInt64.size then pure (total l) else fault .overflow := by
  rw [sum, foldlM_add (by decide), Nat.zero_add]

theorem mapM_eq_pure {f : α → Checked β} {g : α → β} {l : List α}
    (each : ∀ a ∈ l, f a = pure (g a)) : l.mapM f = pure (l.map g) := by
  induction l with
  | nil => rfl
  | cons a l ih =>
    have rest := ih fun b hb => each b (List.mem_cons_of_mem _ hb)
    rw [List.mapM_cons, each a List.mem_cons_self, rest]
    rfl

theorem foldlM_eq_foldl {f : σ → α → Checked σ} {g : σ → α → σ} {l : List α}
    (each : ∀ a ∈ l, ∀ s, f s a = pure (g s a)) (s : σ) : l.foldlM f s = pure (l.foldl g s) := by
  induction l generalizing s with
  | nil => rfl
  | cons a l ih =>
    rw [List.foldlM_cons, each a List.mem_cons_self, pure_bind, List.foldl_cons]
    exact ih (fun b hb => each b (List.mem_cons_of_mem _ hb)) _

/-- What each step does to a view of the state, all of them do. -/
theorem foldlM_eq_pure (view : σ → τ) {f : τ → β → Checked τ} {g : σ → α → σ} {key : α → β}
    (step : ∀ s a, f (view s) (key a) = pure (view (g s a))) (l : List α) (s : σ) :
    (l.map key).foldlM f (view s) = pure (view (l.foldl g s)) := by
  induction l generalizing s with
  | nil => rfl
  | cons a l ih =>
    rw [List.map_cons, List.foldlM_cons, step, pure_bind, ih]
    rfl

end Checked

theorem vector_ext {α : Type} {n : Nat} {xs ys : Vector α n} (same : ∀ v : Fin n, xs[v] = ys[v]) :
    xs = ys :=
  Vector.ext fun i hi => same ⟨i, hi⟩

/-- The rows of an adjacency as bare arrays. -/
def Adjacency.bare {n : Nat} (adj : Adjacency n) : Array (Array Nat) :=
  (adj.map fun row => (row.map Fin.val).toArray).toArray

namespace Adjacency

variable {n : Nat} (adj : Adjacency n)

@[simp] theorem size_bare : adj.bare.size = n := by simp [bare]

@[simp] theorem fetch_bare (v : Fin n) :
    Checked.fetch adj.bare v.val = pure (adj[v].map Fin.val).toArray := by
  rw [bare, Checked.fetch_vector]
  simp

theorem toArray_rows :
    ((List.finRange n).map fun v => (adj[v].map Fin.val).toArray).toArray = adj.bare := by
  apply Array.ext
  · simp
  · intro i _ _
    simp [bare]

end Adjacency

end Coupling
