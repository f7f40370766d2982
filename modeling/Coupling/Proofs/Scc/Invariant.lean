import Coupling.Proofs.Scc.Condensed

/-!
# The invariant of the walk

The stack falls into layers, one for each open visit: the node visited, and above it the nodes
entered from it that have been left but not yet completed (`Layers`). The low number of a visited
node bounds everything its layer can see on the stack, and low numbers are numbers of nodes that
are reached (`Invariant.witness`). Together they say that the top layer is a component as soon as
its node has no lower number than its own (`Invariant.top_strong`, `Invariant.top_closed`).
-/

namespace Coupling

open Relation

variable {n : Nat}

namespace Walk

variable {arcs : Adjacency n} {s t : Walk n} {u v w x : Fin n} {above below stack : List (Fin n)}
  {visit : Visit n} {outer visits : List (Visit n)}

/-- The number at which a node has been entered. -/
def num (s : Walk n) (v : Fin n) : Nat := s.number[v].getD 0

/-- An arc to `w` out of the layer of `v` has been taken into account. -/
def Settled (s : Walk n) (v w : Fin n) : Prop :=
  s.number[w].isSome = true ∧ (s.onStack[w] = true → s.low[v] ≤ s.num w)

/-- `x` has been left and lies in the layer of `v`. -/
structure Finished (arcs : Adjacency n) (s : Walk n) (v x : Fin n) : Prop where
  reached : ReflTransGen arcs.Arc v x
  low_lt : s.low[x] < s.num x
  le_low : s.low[v] ≤ s.low[x]
  settled : ∀ w ∈ arcs[x], s.Settled v w

structure Layer (arcs : Adjacency n) (s : Walk n) (visit : Visit n) (outer : List (Visit n))
    (above : List (Fin n)) : Prop where
  low_le : s.low[visit.node] ≤ s.num visit.node
  followed : ∃ followed, arcs[visit.node] = followed ++ visit.pending ∧
    ∀ w ∈ followed, s.Settled visit.node w
  finished : ∀ x ∈ above, Finished arcs s visit.node x
  linked : ∀ u ∈ outer.head?, ReflTransGen arcs.Arc u.node visit.node

def Layers (arcs : Adjacency n) (s : Walk n) : List (Visit n) → List (Fin n) → Prop
  | [], stack => stack = []
  | visit :: outer, stack =>
    ∃ above below, stack = above ++ visit.node :: below ∧ Layer arcs s visit outer above ∧
      Layers arcs s outer below

/-- Every low number on the stack is the number of a node on the stack that can be reached. -/
def Witnessed (arcs : Adjacency n) (s : Walk n) : Prop :=
  ∀ x ∈ s.stack, ∃ y ∈ s.stack, s.num y = s.low[x] ∧ ReflTransGen arcs.Arc x y

structure Invariant (arcs : Adjacency n) (s : Walk n) : Prop where
  number_lt : ∀ (v : Fin n) k, s.number[v] = some k → k < s.entered
  onStack : ∀ v : Fin n, s.onStack[v] = true ↔ v ∈ s.stack
  entered : ∀ v : Fin n, s.number[v].isSome = true ↔ v ∈ s.stack ∨ v ∈ s.components.flatten
  apart : ∀ v ∈ s.stack, v ∉ s.components.flatten
  descending : s.stack.Pairwise fun v w => s.num w < s.num v
  layers : Layers arcs s s.visits s.stack
  witness : Witnessed arcs s
  condensed : arcs.Condensed s.components

/-! ## What carries over from one state to the next -/

/-- `t` agrees with `s` on the numbers that `s` has given, and stacks no node that `s` has taken
off its stack. -/
structure Keeps (s t : Walk n) : Prop where
  number : ∀ (w : Fin n) k, s.number[w] = some k → t.number[w] = some k
  onStack : ∀ w : Fin n, s.number[w].isSome = true → t.onStack[w] = true → s.onStack[w] = true

theorem Keeps.of_eq (number : t.number = s.number) (onStack : t.onStack = s.onStack) :
    Keeps s t where
  number w k h := by rw [number, h]
  onStack w _ h := by rw [← onStack, h]

theorem Keeps.isSome (h : Keeps s t) (entered : s.number[w].isSome = true) :
    t.number[w].isSome = true := by
  obtain ⟨k, hk⟩ := Option.isSome_iff_exists.mp entered
  rw [h.number w k hk]
  rfl

theorem Keeps.num (h : Keeps s t) (entered : s.number[w].isSome = true) : t.num w = s.num w := by
  obtain ⟨k, hk⟩ := Option.isSome_iff_exists.mp entered
  rw [Walk.num, Walk.num, h.number w k hk, hk]

theorem Keeps.settled (h : Keeps s t) (low : t.low[v] ≤ s.low[u]) (settled : s.Settled u w) :
    t.Settled v w := by
  obtain ⟨entered, bound⟩ := settled
  refine ⟨h.isSome entered, fun stacked => ?_⟩
  rw [h.num entered]
  exact low.trans (bound (h.onStack w entered stacked))

/-- Nodes that have been left may pass from the layer of `u` to that of `v`. -/
theorem Keeps.finished (h : Keeps s t) (entered : s.number[x].isSome = true)
    (same : t.low[x] = s.low[x]) (low : t.low[v] ≤ s.low[u]) (walk : ReflTransGen arcs.Arc v u)
    (finished : Finished arcs s u x) : Finished arcs t v x where
  reached := walk.trans finished.reached
  low_lt := by
    rw [same, h.num entered]
    exact finished.low_lt
  le_low := by
    rw [same]
    exact low.trans finished.le_low
  settled w hw := h.settled low (finished.settled w hw)

theorem Keeps.layer (h : Keeps s t) (entered : ∀ x ∈ above, s.number[x].isSome = true)
    (visited : s.number[visit.node].isSome = true) (same : ∀ x ∈ above, t.low[x] = s.low[x])
    (low : t.low[visit.node] ≤ s.low[visit.node]) (layer : Layer arcs s visit outer above) :
    Layer arcs t visit outer above where
  low_le := by
    rw [h.num visited]
    exact low.trans layer.low_le
  followed := by
    obtain ⟨followed, split, settled⟩ := layer.followed
    exact ⟨followed, split, fun w hw => h.settled low (settled w hw)⟩
  finished x hx := h.finished (entered x hx) (same x hx) low .refl (layer.finished x hx)
  linked := layer.linked

theorem Keeps.layers (h : Keeps s t) (entered : ∀ x ∈ stack, s.number[x].isSome = true)
    (same : ∀ x ∈ stack, t.low[x] = s.low[x]) (layers : Layers arcs s visits stack) :
    Layers arcs t visits stack := by
  induction visits generalizing stack with
  | nil => exact layers
  | cons visit outer ih =>
    obtain ⟨above, below, rfl, layer, rest⟩ := layers
    have visited : visit.node ∈ above ++ visit.node :: below := by simp
    refine ⟨above, below, rfl, ?_, ih ?_ ?_ rest⟩
    · refine h.layer ?_ (entered _ visited) ?_ (same _ visited).le layer
      · exact fun x hx => entered x (List.mem_append_left _ hx)
      · exact fun x hx => same x (List.mem_append_left _ hx)
    · exact fun x hx => entered x (List.mem_append_right _ (List.mem_cons_of_mem _ hx))
    · exact fun x hx => same x (List.mem_append_right _ (List.mem_cons_of_mem _ hx))

theorem Layers.low_le (layers : Layers arcs s visits stack) (hx : x ∈ stack) :
    s.low[x] ≤ s.num x := by
  induction visits generalizing stack with
  | nil =>
    rw [layers] at hx
    cases hx
  | cons visit outer ih =>
    obtain ⟨above, below, rfl, layer, rest⟩ := layers
    rcases List.mem_append.mp hx with hx | hx
    · exact (layer.finished x hx).low_lt.le
    · rcases List.mem_cons.mp hx with rfl | hx
      · exact layer.low_le
      · exact ih rest hx

/-- The innermost visit may pass over an arc that has been taken into account. -/
theorem Layers.pass {pending : List (Fin n)}
    (layers : Layers arcs s (⟨v, w :: pending⟩ :: outer) stack) (settled : s.Settled v w) :
    Layers arcs s (⟨v, pending⟩ :: outer) stack := by
  obtain ⟨above, below, split, layer, rest⟩ := layers
  obtain ⟨followed, arcs_eq, all⟩ := layer.followed
  refine ⟨above, below, split, ⟨layer.low_le, ⟨followed ++ [w], ?_, ?_⟩, layer.finished,
    layer.linked⟩, rest⟩
  · simpa using arcs_eq
  · intro y hy
    rcases List.mem_append.mp hy with hy | hy
    · exact all y hy
    · exact List.mem_singleton.mp hy ▸ settled

namespace Invariant

theorem stacked_entered (h : Invariant arcs s) (hx : x ∈ s.stack) :
    s.number[x].isSome = true := (h.entered x).mpr (Or.inl hx)

theorem nodup (h : Invariant arcs s) : s.stack.Nodup := by
  refine h.descending.imp fun {v w} lt heq => ?_
  rw [heq] at lt
  exact Nat.lt_irrefl _ lt

theorem start (arcs : Adjacency n) : Invariant arcs (Walk.start n) where
  number_lt v k h := by simp [Walk.start] at h
  onStack v := by simp [Walk.start]
  entered v := by simp [Walk.start]
  apart v h := by simp [Walk.start] at h
  descending := .nil
  layers := rfl
  witness x h := by simp [Walk.start] at h
  condensed := .nil

/-- The open visits may be replaced by others that fit the layers of the stack. -/
theorem withVisits (h : Invariant arcs s) (layers : Layers arcs s visits s.stack) :
    Invariant arcs { s with visits } where
  number_lt := h.number_lt
  onStack := h.onStack
  entered := h.entered
  apart := h.apart
  descending := h.descending
  layers := by
    have keeps : Keeps s { s with visits } := .of_eq rfl rfl
    exact keeps.layers (fun _ => h.stacked_entered) (fun _ _ => rfl) layers
  witness := h.witness
  condensed := h.condensed

theorem withSpent (h : Invariant arcs s) (spent : Nat) : Invariant arcs { s with spent } where
  number_lt := h.number_lt
  onStack := h.onStack
  entered := h.entered
  apart := h.apart
  descending := h.descending
  layers := by
    have keeps : Keeps s { s with spent } := .of_eq rfl rfl
    exact keeps.layers (fun _ => h.stacked_entered) (fun _ _ => rfl) h.layers
  witness := h.witness
  condensed := h.condensed

end Invariant

end Walk

end Coupling
