import Coupling.Proofs.Graph.Reachability
import Coupling.Scc.Basic

/-!
# Components in the order of their completion

`Condensed` says of the components completed so far that each is strongly connected and that its
arcs stay inside it or lead to components completed before. This alone makes them whole classes of
mutual reachability (`Condensed.mem_iff_mutual`), none of which reaches a later one
(`Condensed.pairwise`).
-/

namespace Coupling

open Relation

namespace Adjacency

variable {n : Nat} {arcs : Adjacency n} {c earlier : List (Fin n)}
  {components : List (List (Fin n))}

/-- The latest component stands first. -/
inductive Condensed (arcs : Adjacency n) : List (List (Fin n)) → Prop where
  | nil : Condensed arcs []
  | cons {c : List (Fin n)} {earlier : List (List (Fin n))} (ne_nil : c ≠ []) (nodup : c.Nodup)
      (apart : ∀ v ∈ c, v ∉ earlier.flatten)
      (strong : ∀ v ∈ c, ∀ w ∈ c, ReflTransGen arcs.Arc v w)
      (closed : ∀ v ∈ c, ∀ w ∈ arcs[v], w ∈ c ∨ w ∈ earlier.flatten)
      (rest : Condensed arcs earlier) : Condensed arcs (c :: earlier)

theorem Condensed.ne_nil_of_mem (h : Condensed arcs components) (mem : c ∈ components) :
    c ≠ [] := by
  induction h with
  | nil => cases mem
  | cons ne_nil _ _ _ _ _ ih =>
    rcases List.mem_cons.mp mem with rfl | mem
    · exact ne_nil
    · exact ih mem

theorem Condensed.nodup_flatten (h : Condensed arcs components) : components.flatten.Nodup := by
  induction h with
  | nil => exact .nil
  | cons _ nodup apart _ _ _ ih =>
    rw [List.flatten_cons, List.nodup_append]
    refine ⟨nodup, ih, ?_⟩
    intro v hv w hw heq
    exact apart v hv (heq ▸ hw)

theorem Condensed.arc_mem (h : Condensed arcs components) {v w : Fin n}
    (hv : v ∈ components.flatten) (arc : w ∈ arcs[v]) : w ∈ components.flatten := by
  induction h with
  | nil => cases hv
  | cons _ _ _ _ closed _ ih =>
    rw [List.flatten_cons, List.mem_append] at hv ⊢
    rcases hv with hv | hv
    · exact closed v hv w arc
    · exact Or.inr (ih hv)

theorem Condensed.reaches_mem (h : Condensed arcs components) {v w : Fin n}
    (hv : v ∈ components.flatten) (walk : ReflTransGen arcs.Arc v w) :
    w ∈ components.flatten := by
  induction walk with
  | refl => exact hv
  | tail _ arc ih => exact h.arc_mem ih arc

theorem Condensed.mem_iff_mutual (h : Condensed arcs components) (mem : c ∈ components)
    {v w : Fin n} (hv : v ∈ c) : w ∈ c ↔ Mutual arcs.Arc v w := by
  induction h with
  | nil => cases mem
  | @cons d earlier ne_nil nodup apart strong closed rest ih =>
    rcases List.mem_cons.mp mem with rfl | mem
    · constructor
      · intro hw
        exact ⟨strong v hv w hw, strong w hw v hv⟩
      · intro both
        have all := Condensed.cons ne_nil nodup apart strong closed rest
        have hw := all.reaches_mem (List.mem_append_left _ hv) both.1
        refine (List.mem_append.mp hw).resolve_right fun hw => ?_
        exact apart v hv (rest.reaches_mem hw both.2)
    · exact ih mem

/-- No component reaches one that is completed after it. -/
theorem Condensed.pairwise (h : Condensed arcs components) :
    components.Pairwise fun c d => ∀ v ∈ d, ∀ w ∈ c, ¬ ReflTransGen arcs.Arc v w := by
  induction h with
  | nil => exact .nil
  | cons _ _ apart _ _ rest ih =>
    refine List.pairwise_cons.mpr ⟨?_, ih⟩
    intro d hd v hv w hw walk
    exact apart w hw (rest.reaches_mem (List.mem_flatten_of_mem hd hv) walk)

/-- The classes of mutual reachability, none of which reaches a later one. -/
structure Condensation (adj : Adjacency n) (order : List (List (Fin n))) : Prop where
  covers : ∀ v, v ∈ order.flatten
  nodup : order.flatten.Nodup
  classes : ∀ c ∈ order, ∀ v ∈ c, ∀ w, w ∈ c ↔ Mutual adj.Arc v w
  ordered : order.Pairwise fun c d => ∀ v ∈ c, ∀ w ∈ d, ¬ ReflTransGen adj.Arc v w

theorem Condensed.condensation (h : Condensed arcs components)
    (covers : ∀ v, v ∈ components.flatten) : arcs.Condensation components.reverse where
  covers v := by simpa using covers v
  nodup := by
    have flat : components.reverse.flatten.Perm components.flatten :=
      (List.reverse_perm components).flatten
    exact flat.nodup_iff.mpr h.nodup_flatten
  classes c hc v hv w := h.mem_iff_mutual (List.mem_reverse.mp hc) hv
  ordered := List.pairwise_reverse.mpr h.pairwise

end Adjacency

end Coupling
