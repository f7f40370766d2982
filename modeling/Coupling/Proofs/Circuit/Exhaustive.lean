import Coupling.Circuit.Enumeration
import Coupling.Proofs.Circuit.Elementary
import Mathlib.Data.Fintype.Card

/-!
# The exhaustive search for circuits through a start node

`Region.closings` tries every way of extending a trail to a circuit and blocks nothing but the
trail itself. It is what a search with blocking has to agree with: `mem_closings` says which
circuits it lists, and `pairwise_closings` that they stand in the order in which the successors of
the node where two of them part are tried.
-/

namespace Coupling

variable {k : Nat}

/-- The number of nodes off the trail. -/
def unvisited (trail : List (Fin k)) : Nat := (trail.toFinset)ᶜ.card

theorem unvisited_cons_lt {trail : List (Fin k)} {w : Fin k} (fresh : w ∉ trail) :
    unvisited (w :: trail) < unvisited trail := by
  apply Finset.card_lt_card
  rw [List.toFinset_cons, Finset.compl_ssubset_compl]
  exact Finset.ssubset_insert (by simpa using fresh)

namespace Region

variable (r : Region k)

/-- The circuits that extend the trail, whose innermost node stands first. -/
def closings (trail : List (Fin k)) : List (List (Fin k)) :=
  match trail with
  | [] => []
  | v :: outer =>
    r.adj[v].flatMap fun w =>
      if !r.allowed[w] then []
      else if w = r.start then [(v :: outer).reverse]
      else if fresh : w ∈ v :: outer then []
      else closings (w :: v :: outer)
  termination_by unvisited trail
  decreasing_by exact unvisited_cons_lt fresh

/-- The circuits that extend the trail by going on to `w`. -/
def through (trail : List (Fin k)) (w : Fin k) : List (List (Fin k)) :=
  if !r.allowed[w] then []
  else if w = r.start then [trail.reverse]
  else if w ∈ trail then []
  else r.closings (w :: trail)

theorem closings_cons (v : Fin k) (outer : List (Fin k)) :
    r.closings (v :: outer) = r.adj[v].flatMap (r.through (v :: outer)) := by
  rw [closings]
  rfl

variable {r}

theorem through_of_not_allowed {trail : List (Fin k)} {w : Fin k} (h : r.allowed[w] = false) :
    r.through trail w = [] := by
  rw [through, h]
  rfl

theorem through_start {trail : List (Fin k)} (h : r.allowed[r.start] = true) :
    r.through trail r.start = [trail.reverse] := by
  rw [through, h]
  simp

theorem through_of_mem {trail : List (Fin k)} {w : Fin k} (hs : w ≠ r.start) (hw : w ∈ trail) :
    r.through trail w = [] := by
  rw [through, if_neg hs, if_pos hw]
  split <;> rfl

theorem through_fresh {trail : List (Fin k)} {w : Fin k} (ha : r.allowed[w] = true)
    (hs : w ≠ r.start) (hw : w ∉ trail) : r.through trail w = r.closings (w :: trail) := by
  rw [through, ha, if_neg hs, if_neg hw]
  rfl

theorem mem_through {trail c : List (Fin k)} {w : Fin k} :
    c ∈ r.through trail w ↔ r.allowed[w] = true ∧
      ((w = r.start ∧ c = trail.reverse) ∨
        (w ≠ r.start ∧ w ∉ trail ∧ c ∈ r.closings (w :: trail))) := by
  by_cases ha : r.allowed[w] = true
  · by_cases hs : w = r.start
    · rw [hs, through_start (hs ▸ ha)]
      simp [hs ▸ ha]
    · by_cases hw : w ∈ trail
      · rw [through_of_mem hs hw]
        simp [hs, hw]
      · rw [through_fresh ha hs hw]
        simp [ha, hs, hw]
  · rw [through_of_not_allowed (by simpa using ha)]
    simp [ha]

/-- The nodes of `l` lead from `v` to the start node and are allowed, distinct and off the trail. -/
structure Closes (r : Region k) (trail : List (Fin k)) (v : Fin k) (l : List (Fin k)) : Prop where
  nodup : l.Nodup
  fresh : ∀ w ∈ l, w ∉ trail
  walk : List.IsChain r.adj.Arc (v :: (l ++ [r.start]))
  allowed : ∀ w ∈ l ++ [r.start], r.allowed[w] = true

theorem closes_nil {trail : List (Fin k)} {v : Fin k} :
    r.Closes trail v [] ↔ r.start ∈ r.adj[v] ∧ r.allowed[r.start] = true := by
  constructor
  · intro h
    exact ⟨List.isChain_pair.mp h.walk, h.allowed _ (List.mem_singleton_self _)⟩
  · intro h
    obtain ⟨arc, allowed⟩ := h
    refine ⟨.nil, by simp, List.isChain_pair.mpr arc, ?_⟩
    intro w hw
    rw [List.mem_singleton.mp hw]
    exact allowed

theorem closes_cons {trail : List (Fin k)} {v w : Fin k} {l : List (Fin k)} :
    r.Closes trail v (w :: l) ↔
      w ∈ r.adj[v] ∧ r.allowed[w] = true ∧ w ∉ trail ∧ r.Closes (w :: trail) w l := by
  constructor
  · intro h
    obtain ⟨arc, walk⟩ := List.isChain_cons_cons.mp h.walk
    obtain ⟨hw, nodup⟩ := List.nodup_cons.mp h.nodup
    refine ⟨arc, h.allowed w List.mem_cons_self, h.fresh w List.mem_cons_self, nodup, ?_, walk,
      fun x hx => h.allowed x (List.mem_cons_of_mem _ hx)⟩
    intro x hx
    refine List.not_mem_cons_of_ne_of_not_mem ?_ (h.fresh x (List.mem_cons_of_mem _ hx))
    rintro rfl
    exact hw hx
  · intro h
    obtain ⟨arc, allowed, fresh, h⟩ := h
    refine ⟨List.nodup_cons.mpr ⟨fun hw => h.fresh w hw List.mem_cons_self, h.nodup⟩, ?_,
      h.walk.cons_cons arc, ?_⟩
    · intro x hx
      rcases List.mem_cons.mp hx with rfl | hx
      · exact fresh
      · exact fun ht => h.fresh x hx (List.mem_cons_of_mem _ ht)
    · intro x hx
      rcases List.mem_cons.mp hx with rfl | hx
      · exact allowed
      · exact h.allowed x hx

theorem mem_closings {v : Fin k} {outer c : List (Fin k)} (started : r.start ∈ v :: outer) :
    c ∈ r.closings (v :: outer) ↔
      ∃ l, c = (v :: outer).reverse ++ l ∧ r.Closes (v :: outer) v l := by
  induction hn : unvisited (v :: outer) using Nat.strong_induction_on generalizing v outer with
  | _ size ih =>
    have deeper : ∀ w, w ∉ v :: outer → (c ∈ r.closings (w :: v :: outer) ↔
        ∃ l, c = (w :: v :: outer).reverse ++ l ∧ r.Closes (w :: v :: outer) w l) :=
      fun w fresh => ih _ (hn ▸ unvisited_cons_lt fresh) (List.mem_cons_of_mem _ started) rfl
    rw [closings_cons, List.mem_flatMap]
    constructor
    · intro h
      obtain ⟨w, arc, hc⟩ := h
      obtain ⟨ha, ⟨rfl, rfl⟩ | ⟨hs, hw, hc⟩⟩ := mem_through.mp hc
      · exact ⟨[], by simp, closes_nil.mpr ⟨arc, ha⟩⟩
      · obtain ⟨l, rfl, closes⟩ := (deeper w hw).mp hc
        exact ⟨w :: l, by simp, closes_cons.mpr ⟨arc, ha, hw, closes⟩⟩
    · intro h
      obtain ⟨l, rfl, closes⟩ := h
      cases l with
      | nil =>
        obtain ⟨arc, ha⟩ := closes_nil.mp closes
        exact ⟨r.start, arc, mem_through.mpr ⟨ha, Or.inl ⟨rfl, by simp⟩⟩⟩
      | cons w l =>
        obtain ⟨arc, ha, hw, closes⟩ := closes_cons.mp closes
        have hs : w ≠ r.start := by
          intro eq
          exact hw (eq ▸ started)
        have onward := (deeper w hw).mpr ⟨l, by simp, closes⟩
        exact ⟨w, arc, mem_through.mpr ⟨ha, Or.inr ⟨hs, hw, onward⟩⟩⟩

/-- A circuit that goes on to `w` continues the trail by `w`, the closing step included. -/
theorem exists_of_mem_through {v w : Fin k} {outer c : List (Fin k)}
    (started : r.start ∈ v :: outer) (h : c ∈ r.through (v :: outer) w) :
    ∃ m, c ++ [r.start] = outer.reverse ++ v :: w :: m := by
  obtain ⟨_, ⟨rfl, rfl⟩ | ⟨_, _, hc⟩⟩ := mem_through.mp h
  · exact ⟨[], by simp⟩
  · obtain ⟨l, rfl, _⟩ := (mem_closings (List.mem_cons_of_mem _ started)).mp hc
    exact ⟨l ++ [r.start], by simp⟩

end Region

/-- The lists agree up to some node, and `earlier` holds of the nodes with which they go on. -/
inductive Parts {α : Type} (earlier : α → α → α → Prop) : List α → List α → Prop where
  | here {v w w' : α} {l l' : List α} (h : earlier v w w') :
    Parts earlier (v :: w :: l) (v :: w' :: l')
  | later {v : α} {l l' : List α} (h : Parts earlier l l') : Parts earlier (v :: l) (v :: l')

theorem Parts.append_left {α : Type} {earlier : α → α → α → Prop} {l l' : List α}
    (h : Parts earlier l l') (s : List α) : Parts earlier (s ++ l) (s ++ l') := by
  induction s with
  | nil => exact h
  | cons v s ih => exact .later ih

theorem Parts.map {α β : Type} {earlier : α → α → α → Prop} {earlier' : β → β → β → Prop}
    (f : α → β) (mono : ∀ v w w', earlier v w w' → earlier' (f v) (f w) (f w')) {l l' : List α}
    (h : Parts earlier l l') : Parts earlier' (l.map f) (l'.map f) := by
  induction h with
  | here h => exact .here (mono _ _ _ h)
  | later _ ih => exact .later ih

theorem Region.pairwise_closings {r : Region k} {earlier : Fin k → Fin k → Fin k → Prop}
    (ordered : ∀ v : Fin k, r.adj[v].Pairwise (earlier v)) {v : Fin k} {outer : List (Fin k)}
    (started : r.start ∈ v :: outer) :
    (r.closings (v :: outer)).Pairwise
      fun c d => Parts earlier (c ++ [r.start]) (d ++ [r.start]) := by
  induction hn : unvisited (v :: outer) using Nat.strong_induction_on generalizing v outer with
  | _ size ih =>
    rw [closings_cons, List.pairwise_flatMap]
    constructor
    · intro w _
      unfold through
      split
      · exact .nil
      · split
        · exact List.pairwise_singleton _ _
        · split
          next => exact .nil
          next fresh =>
            exact ih _ (hn ▸ unvisited_cons_lt fresh) (List.mem_cons_of_mem _ started) rfl
    · refine (ordered v).imp fun {w w'} h c hc d hd => ?_
      obtain ⟨m, hm⟩ := exists_of_mem_through started hc
      obtain ⟨m', hm'⟩ := exists_of_mem_through started hd
      rw [hm, hm']
      exact (Parts.here h).append_left _

end Coupling
