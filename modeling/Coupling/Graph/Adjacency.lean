import Coupling.Graph.Basic

/-!
# Adjacency lists and flooding

`flood` walks from given roots through nodes whose flag is up, lowers the flags on its way and
lists what it visits. `mem_flood_iff` says that it visits exactly the nodes that can be reached,
and `flood_flag` that exactly their flags are lowered.
-/

namespace Coupling

/-- The successors of each of `n` nodes, in the order in which they are tried. -/
abbrev Adjacency (n : Nat) := Vector (List (Fin n)) n

def Graph.adjacency {ν δ : Type} (g : Graph ν δ) : Adjacency g.size := Vector.ofFn g.successors

def Graph.arcs {ν δ : Type} (g : Graph ν δ) : Adjacency g.size := Vector.ofFn g.targets

namespace Adjacency

variable {n : Nat}

def transpose (adj : Adjacency n) : Adjacency n :=
  let arcs := (List.finRange n).flatMap fun v => adj[v].map fun w => (v, w)
  (grouped Prod.snd arcs).map fun group => group.map Prod.fst

theorem mem_transpose (adj : Adjacency n) (v w : Fin n) : v ∈ adj.transpose[w] ↔ w ∈ adj[v] := by
  have h := getElem_grouped (fun a : Fin n × Fin n => a.2)
    ((List.finRange n).flatMap fun v => adj[v].map fun w => (v, w)) w
  simp only [getElem_fin] at h
  simp [transpose, h]

/-- The part of the adjacency that runs between the members of `s`, by their positions in `s`. -/
def induced (adj : Adjacency n) (s : IndexedSet (Fin n)) : Adjacency s.size :=
  Vector.ofFn fun i => adj[s.get i].filterMap s.position?

theorem mem_induced (adj : Adjacency n) (s : IndexedSet (Fin n)) (i j : Fin s.size) :
    j ∈ (adj.induced s)[i] ↔ s.get j ∈ adj[s.get i] := by
  simp [induced, IndexedSet.position?_eq_some_iff]

/-- Nodes on the way of a walk that starts at a root and goes on only through raised flags. -/
inductive Reached (adj : Adjacency n) (flags : Vector Bool n) (roots : List (Fin n)) :
    Fin n → Prop where
  | root {v : Fin n} (h : v ∈ roots) : Reached adj flags roots v
  | step {v w : Fin n} (h : Reached adj flags roots v) (arc : w ∈ adj[v])
      (raised : flags[w] = true) : Reached adj flags roots w

def mark (state : Vector Bool n × List (Fin n)) (w : Fin n) : Vector Bool n × List (Fin n) :=
  if state.1[w] then (state.1.set w false w.isLt, w :: state.2) else state

theorem getElem_set_fin {α : Type} (xs : Vector α n) (v w : Fin n) (a : α) :
    (xs.set v a v.isLt)[w] = if v = w then a else xs[w] := by
  simp [Vector.getElem_set, Fin.ext_iff]

theorem getElem_set_true (flags : Vector Bool n) (v w : Fin n) :
    (flags.set v true v.isLt)[w] = true ↔ v = w ∨ flags[w] = true := by
  rw [getElem_set_fin]
  by_cases h : v = w <;> simp [h]

theorem getElem_set_false (flags : Vector Bool n) (v w : Fin n) :
    (flags.set v false v.isLt)[w] = true ↔ v ≠ w ∧ flags[w] = true := by
  rw [getElem_set_fin]
  by_cases h : v = w <;> simp [h]

theorem countP_mark (state : Vector Bool n × List (Fin n)) (w : Fin n) :
    (mark state w).1.countP id + (mark state w).2.length
      = state.1.countP id + state.2.length := by
  unfold mark
  split
  next h =>
    have h : state.1[w.val] = true := h
    have pos : 0 < state.1.countP id := Vector.countP_pos_iff.mpr ⟨_, by simp, h⟩
    simp only [Vector.countP_set, id_eq, h, ↓reduceIte, Bool.false_eq_true, List.length_cons]
    omega
  next => rfl

theorem countP_foldl_mark (l : List (Fin n)) (state : Vector Bool n × List (Fin n)) :
    (l.foldl mark state).1.countP id + (l.foldl mark state).2.length
      = state.1.countP id + state.2.length := by
  induction l generalizing state with
  | nil => rfl
  | cons w l ih => rw [List.foldl_cons, ih, countP_mark]

theorem foldl_mark (l : List (Fin n)) (state : Vector Bool n × List (Fin n)) (w : Fin n) :
    ((l.foldl mark state).1[w] = true ↔ state.1[w] = true ∧ w ∉ l) ∧
      (w ∈ (l.foldl mark state).2 ↔ w ∈ state.2 ∨ (w ∈ l ∧ state.1[w] = true)) := by
  induction l generalizing state with
  | nil => simp
  | cons u l ih =>
    rw [List.foldl_cons, (ih _).1, (ih _).2]
    unfold mark
    by_cases hu : state.1[u] = true
    · rw [if_pos hu]
      simp only [getElem_set_fin, List.mem_cons, not_or]
      by_cases h : u = w
      · subst h
        simp [hu]
      · simp [h, Ne.symm h]
    · rw [if_neg hu]
      simp only [List.mem_cons, not_or]
      by_cases h : u = w
      · subst h
        simp [hu]
      · simp [Ne.symm h]

/-- Visits the pending nodes and whatever raised flags lead on from them. The nodes visited are
listed before those in `visited`. -/
def flood (adj : Adjacency n) (flags : Vector Bool n) (pending visited : List (Fin n)) :
    Vector Bool n × List (Fin n) :=
  match pending with
  | [] => (flags, visited)
  | v :: rest =>
    let next := adj[v].foldl mark (flags, rest)
    flood adj next.1 next.2 (v :: visited)
  termination_by flags.countP id + pending.length
  decreasing_by
    rw [countP_foldl_mark]
    simp only [List.length_cons]
    omega

/-- What holds whenever the flood from `roots` under `flags` looks at its next pending node. -/
structure Flooding (adj : Adjacency n) (flags : Vector Bool n) (roots : List (Fin n))
    (now : Vector Bool n) (pending visited : List (Fin n)) : Prop where
  flag : ∀ w, now[w] = true ↔ flags[w] = true ∧ w ∉ pending ∧ w ∉ visited
  reached : ∀ w, w ∈ pending ∨ w ∈ visited → Reached adj flags roots w
  closed : ∀ v ∈ visited, ∀ w ∈ adj[v], flags[w] = true → w ∈ pending ∨ w ∈ visited
  roots : ∀ r ∈ roots, r ∈ pending ∨ r ∈ visited

theorem Flooding.start (adj : Adjacency n) (flags : Vector Bool n) (roots : List (Fin n))
    (lowered : ∀ r ∈ roots, flags[r] = false) : Flooding adj flags roots flags roots [] where
  flag w := by
    refine ⟨fun h => ⟨h, fun hr => ?_, List.not_mem_nil⟩, fun h => h.1⟩
    rw [lowered w hr] at h
    cases h
  reached w h := .root (h.resolve_right List.not_mem_nil)
  closed v h := absurd h List.not_mem_nil
  roots r h := Or.inl h

theorem Flooding.visit {adj : Adjacency n} {flags now : Vector Bool n} {roots : List (Fin n)}
    {v : Fin n} {rest visited : List (Fin n)}
    (h : Flooding adj flags roots now (v :: rest) visited) :
    Flooding adj flags roots (adj[v].foldl mark (now, rest)).1
      (adj[v].foldl mark (now, rest)).2 (v :: visited) where
  flag w := by
    rw [(foldl_mark _ _ w).1, (foldl_mark _ _ w).2]
    have := h.flag w
    simp only [List.mem_cons, not_or] at this ⊢
    by_cases hw : now[w] = true <;> simp_all
  reached w hw := by
    rw [(foldl_mark _ _ w).2] at hw
    rcases hw with (hw | ⟨hw, hn⟩) | hw
    · exact h.reached w (Or.inl (List.mem_cons_of_mem _ hw))
    · exact .step (h.reached v (Or.inl List.mem_cons_self)) hw ((h.flag w).mp hn).1
    · rcases List.mem_cons.mp hw with rfl | hw
      · exact h.reached w (Or.inl List.mem_cons_self)
      · exact h.reached w (Or.inr hw)
  closed u hu w hw hf := by
    rw [(foldl_mark _ _ w).2]
    have old : w ∈ v :: rest ∨ w ∈ visited →
        (w ∈ rest ∨ w ∈ adj[v] ∧ now[w] = true) ∨ w ∈ v :: visited := by
      intro hold
      rcases hold with hold | hold
      · rcases List.mem_cons.mp hold with rfl | hold
        · exact Or.inr List.mem_cons_self
        · exact Or.inl (Or.inl hold)
      · exact Or.inr (List.mem_cons_of_mem _ hold)
    rcases List.mem_cons.mp hu with rfl | hu
    · by_cases hn : now[w] = true
      · exact Or.inl (Or.inr ⟨hw, hn⟩)
      · refine old (Decidable.byContradiction fun hc => hn ((h.flag w).mpr ⟨hf, ?_⟩))
        exact not_or.mp hc
    · exact old (h.closed u hu w hw hf)
  roots r hr := by
    rw [(foldl_mark _ _ r).2]
    rcases h.roots r hr with hr | hr
    · rcases List.mem_cons.mp hr with rfl | hr
      · exact Or.inr List.mem_cons_self
      · exact Or.inl (Or.inl hr)
    · exact Or.inr (List.mem_cons_of_mem _ hr)

theorem Flooding.finish {adj : Adjacency n} {flags now : Vector Bool n} {roots : List (Fin n)}
    {pending visited : List (Fin n)} (h : Flooding adj flags roots now pending visited) :
    Flooding adj flags roots (flood adj now pending visited).1 []
      (flood adj now pending visited).2 := by
  fun_induction flood adj now pending visited with
  | case1 => exact h
  | case2 now visited v rest next ih => exact ih h.visit

theorem mem_flood_iff (adj : Adjacency n) (flags : Vector Bool n) (roots : List (Fin n))
    (lowered : ∀ r ∈ roots, flags[r] = false) (w : Fin n) :
    w ∈ (flood adj flags roots []).2 ↔ Reached adj flags roots w := by
  have h := (Flooding.start adj flags roots lowered).finish
  constructor
  · intro hw
    exact h.reached w (Or.inr hw)
  · intro hw
    induction hw with
    | root hr => exact (h.roots _ hr).resolve_left List.not_mem_nil
    | step _ arc raised ih => exact (h.closed _ ih _ arc raised).resolve_left List.not_mem_nil

theorem flood_flag (adj : Adjacency n) (flags : Vector Bool n) (roots : List (Fin n))
    (lowered : ∀ r ∈ roots, flags[r] = false) (w : Fin n) :
    (flood adj flags roots []).1[w] = true ↔ flags[w] = true ∧ ¬ Reached adj flags roots w := by
  have h := (Flooding.start adj flags roots lowered).finish.flag w
  rw [h, mem_flood_iff adj flags roots lowered]
  simp

end Adjacency

end Coupling
