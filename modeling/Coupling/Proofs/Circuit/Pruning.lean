import Coupling.Proofs.Circuit.Exhaustive
import Coupling.Proofs.Circuit.Trail

/-!
# Blocking loses no circuit

A node that is blocked off the trail waits for all its allowed successors, and these are blocked
too (`Exact.held`); so whatever extends the trail through it never gets back to the start node.
`Search.outcome` is what an exhaustive search would make of the rest of a search. No step changes
it (`Exact.outcome_step`), so the search lists what the exhaustive search lists, in the same order
and cut at the same place (`circuits_eq_cut`).
-/

namespace Coupling

variable {k : Nat}

namespace Search

structure Exact (r : Region k) (s : Search k) : Prop where
  sound : Sound r s
  held : ∀ v : Fin k, r.allowed[v] = true → s.blocked[v] = true → v ∉ s.trail →
    ∀ w ∈ r.adj[v], r.allowed[w] = true →
      w ≠ r.start ∧ s.blocked[w] = true ∧ v ∈ s.waiting[w]
  /-- A frame that has closed no circuit has not tried the start node. -/
  unclosed : ∀ f ∈ s.frames, f.closed = false →
    ∃ tried, r.adj[f.node] = tried ++ f.pending ∧ ∀ w ∈ tried, r.allowed[w] = true → w ≠ r.start

/-- The circuits still to be listed, those of the innermost frame first. -/
def remaining (r : Region k) : List (Frame k) → List (List (Fin k))
  | [] => []
  | f :: outer =>
    f.pending.flatMap (r.through (f.node :: outer.map Frame.node)) ++ remaining r outer

def outcome (r : Region k) (s : Search k) : Capped (List (Fin k)) :=
  ⟨s.found.reverse ++ (remaining r s.frames).take s.room,
    decide (s.room < (remaining r s.frames).length)⟩

end Search

def Step.outcome (r : Region k) : Step k → Capped (List (Fin k))
  | .more s => s.outcome r
  | .full found => ⟨found.reverse, true⟩
  | .done found => ⟨found.reverse, false⟩

namespace Search

variable {r : Region k} {s t : Search k} {v w : Fin k} {pending : List (Fin k)} {closed : Bool}
  {outer : List (Frame k)}

theorem Exact.start (r : Region k) (room : Nat) : Exact r (start r room) where
  sound := .start r room
  held v _ hb ht := by
    have hne : v ≠ r.start := by simpa [trail, Search.start] using ht
    rw [Search.start, Adjacency.getElem_set_fin, if_neg (Ne.symm hne)] at hb
    simp at hb
  unclosed f hf _ := by
    rw [List.mem_singleton.mp hf]
    exact ⟨[], rfl, by simp⟩

theorem unclosed_markClosed {P : Frame k → Prop} {frames : List (Frame k)}
    (h : ∀ f ∈ frames, f.closed = false → P f) :
    ∀ f ∈ markClosed frames, f.closed = false → P f := by
  cases frames with
  | nil => exact h
  | cons g frames =>
    intro f hf hc
    rcases List.mem_cons.mp hf with rfl | hf
    · cases hc
    · exact h f (List.mem_cons_of_mem _ hf) hc

theorem Exact.pass (h : Exact r s) (frames : s.frames = ⟨v, w :: pending, closed⟩ :: outer)
    (skip : r.allowed[w] = true → s.blocked[w] = true ∧ w ≠ r.start) :
    Exact r { s with frames := ⟨v, pending, closed⟩ :: outer } where
  sound := h.sound.pass frames fun ha => (skip ha).1
  held := by
    have held := h.held
    rw [trail, frames] at held
    exact held
  unclosed f hf hc := by
    have unclosed := h.unclosed
    rw [frames] at unclosed
    rcases List.mem_cons.mp hf with rfl | hf
    · obtain ⟨tried, split, notStart⟩ := unclosed _ List.mem_cons_self hc
      refine ⟨tried ++ [w], by simpa using split, ?_⟩
      intro x hx ha
      rcases List.mem_append.mp hx with hx | hx
      · exact notStart x hx ha
      · rw [List.mem_singleton.mp hx] at ha ⊢
        exact (skip ha).2
    · exact unclosed f (List.mem_cons_of_mem _ hf) hc

theorem Exact.close (h : Exact r s) (frames : s.frames = ⟨v, w :: pending, closed⟩ :: outer)
    (found : List (List (Fin k))) (room : Nat) :
    Exact r { s with frames := ⟨v, pending, true⟩ :: outer, found, room } where
  sound := h.sound.close frames found room
  held := by
    have held := h.held
    rw [trail, frames] at held
    exact held
  unclosed f hf hc := by
    rcases List.mem_cons.mp hf with rfl | hf
    · cases hc
    · exact h.unclosed f (frames ▸ List.mem_cons_of_mem _ hf) hc

theorem Exact.enter (h : Exact r s) (frames : s.frames = ⟨v, w :: pending, closed⟩ :: outer)
    (notStart : w ≠ r.start) (free : s.blocked[w] = false) :
    Exact r ({ s with frames := ⟨v, pending, closed⟩ :: outer }.enter r w) where
  sound := h.sound.enter frames free
  held x ha hb ht y hy hay := by
    have flag := blocked_enter r { s with frames := ⟨v, pending, closed⟩ :: outer } w
    have ht : x ∉ w :: s.trail := trail_enter (r := r) frames ▸ ht
    obtain ⟨hne, ht⟩ := not_or.mp (List.mem_cons.not.mp ht)
    have hb := ((flag x).mp hb).resolve_left (Ne.symm hne)
    obtain ⟨notStart, blocked, waits⟩ := h.held x ha hb ht y hy hay
    exact ⟨notStart, (flag y).mpr (Or.inr blocked), waits⟩
  unclosed f hf hc := by
    rcases List.mem_cons.mp hf with rfl | hf
    · exact ⟨[], rfl, by simp⟩
    have unclosed := h.unclosed
    rw [frames] at unclosed
    rcases List.mem_cons.mp hf with rfl | hf
    · obtain ⟨tried, split, tried_notStart⟩ := unclosed _ List.mem_cons_self hc
      refine ⟨tried ++ [w], by simpa using split, ?_⟩
      intro x hx ha
      rcases List.mem_append.mp hx with hx | hx
      · exact tried_notStart x hx ha
      · exact List.mem_singleton.mp hx ▸ notStart
    · exact unclosed f (List.mem_cons_of_mem _ hf) hc

/-- A node that stays blocked waits for no node that is freed, else it would be freed as well. -/
theorem Exact.release (h : Exact r s) (frames : s.frames = ⟨v, pending, closed⟩ :: outer) :
    Exact r { s.release v with frames := markClosed outer } where
  sound := h.sound.release frames
  held x ha hb ht w hw haw := by
    obtain ⟨hb, kept⟩ := (blocked_release s v x).mp hb
    have ht : x ∉ s.trail := by
      rw [trail_cons frames]
      refine List.not_mem_cons_of_ne_of_not_mem ?_ (map_node_markClosed outer ▸ ht)
      rintro rfl
      exact kept (s.freed_self x)
    obtain ⟨notStart, blocked, waits⟩ := h.held x ha hb ht w hw haw
    have stays : ¬ s.Freed v w := fun freed => kept (freed.waiting waits hb)
    exact ⟨notStart, (blocked_release s v w).mpr ⟨blocked, stays⟩,
      (mem_waiting_release s v w x).mpr ⟨waits, stays⟩⟩
  unclosed := unclosed_markClosed fun f hf hc =>
    h.unclosed f (frames ▸ List.mem_cons_of_mem _ hf) hc

/-- A node that is left without a circuit has only blocked successors, none of them the start. -/
theorem Exact.defer (h : Exact r s) (frames : s.frames = ⟨v, [], false⟩ :: outer) :
    Exact r ({ s with frames := outer }.defer r v) where
  sound := h.sound.defer frames
  held x ha hb ht w hw haw := by
    have waits := mem_waiting_defer r { s with frames := outer } v w x
    by_cases hx : x = v
    · subst hx
      have settled := h.sound.settled
      rw [frames] at settled
      obtain ⟨⟨tried, split, blocked⟩, _⟩ := settled.resolve_left (by simp)
      rw [List.append_nil] at split
      obtain ⟨tried', split', notStart⟩ :=
        h.unclosed _ (frames ▸ List.mem_cons_self) rfl
      rw [List.append_nil] at split'
      exact ⟨notStart w (split' ▸ hw) haw, blocked w (split ▸ hw) haw,
        waits.mpr (Or.inr ⟨rfl, hw, haw⟩)⟩
    · have ht : x ∉ s.trail := by
        rw [trail_cons frames]
        exact List.not_mem_cons_of_ne_of_not_mem hx ht
      obtain ⟨notStart, blocked, old⟩ := h.held x ha hb ht w hw haw
      exact ⟨notStart, blocked, waits.mpr (Or.inl old)⟩
  unclosed f hf hc := h.unclosed f (frames ▸ List.mem_cons_of_mem _ hf) hc

theorem Exact.step (h : Exact r s) (next : s.step r = .more t) : Exact r t := by
  cases stepped next with
  | pass frames skip => exact h.pass frames fun allowed => (skip allowed).symm
  | close frames => exact h.close frames _ _
  | enter frames _ notStart free => exact h.enter frames notStart free
  | release frames => exact h.release frames
  | defer frames => exact h.defer frames

/-- However a trail goes on from a blocked node off the trail of the search, it never gets back to
the start node. -/
theorem Exact.closings_eq_nil (h : Exact r s) {trail : List (Fin k)} (covers : s.trail ⊆ trail)
    (hv : v ∉ s.trail) (ha : r.allowed[v] = true) (hb : s.blocked[v] = true) :
    r.closings (v :: trail) = [] := by
  induction hn : unvisited (v :: trail) using Nat.strong_induction_on generalizing v trail with
  | _ size ih =>
    rw [Region.closings_cons, List.flatMap_eq_nil_iff]
    intro w hw
    by_cases haw : r.allowed[w] = true
    · obtain ⟨notStart, blocked, _⟩ := h.held v ha hb hv w hw haw
      by_cases mem : w ∈ v :: trail
      · exact Region.through_of_mem notStart mem
      · rw [Region.through_fresh haw notStart mem]
        have covers' : s.trail ⊆ v :: trail := fun x hx => List.mem_cons_of_mem _ (covers hx)
        exact ih _ (hn ▸ unvisited_cons_lt mem) covers' (fun hw => mem (covers' hw)) haw
          blocked rfl
    · exact Region.through_of_not_allowed (by simpa using haw)

theorem Exact.through_eq_nil (h : Exact r s) (notStart : w ≠ r.start)
    (hb : s.blocked[w] = true) : r.through s.trail w = [] := by
  by_cases ha : r.allowed[w] = true
  · by_cases mem : w ∈ s.trail
    · exact Region.through_of_mem notStart mem
    · rw [Region.through_fresh ha notStart mem]
      exact h.closings_eq_nil (List.Subset.refl _) mem ha hb
  · exact Region.through_of_not_allowed (by simpa using ha)

/-- What remains once the innermost frame has passed over `w` lacks the circuits through `w`. -/
theorem remaining_cons (frames : s.frames = ⟨v, w :: pending, closed⟩ :: outer)
    (closed' : Bool) :
    remaining r s.frames
      = r.through s.trail w ++ remaining r (⟨v, pending, closed'⟩ :: outer) := by
  rw [trail_cons frames, frames]
  simp only [remaining, List.flatMap_cons, List.append_assoc]

theorem Exact.outcome_advance (h : Exact r s)
    (frames : s.frames = ⟨v, w :: pending, closed⟩ :: outer) :
    (Search.advance r { s with frames := ⟨v, pending, closed⟩ :: outer } w).outcome r
      = s.outcome r := by
  have trail := trail_cons frames
  have passed := remaining_cons (r := r) frames closed
  have outcome := advanced r { s with frames := ⟨v, pending, closed⟩ :: outer } w
  generalize Search.advance r { s with frames := ⟨v, pending, closed⟩ :: outer } w = step
    at outcome ⊢
  cases outcome with
  | barred ha =>
    rw [Region.through_of_not_allowed ha, List.nil_append] at passed
    simp only [Step.outcome, Search.outcome, passed]
  | full ha hs none =>
    have none : s.room = 0 := none
    rw [hs, Region.through_start (hs ▸ ha)] at passed
    simp [Step.outcome, Search.outcome, passed, none]
  | @close room ha hs left =>
    have left : s.room = room + 1 := left
    have path : Search.path { s with frames := ⟨v, pending, closed⟩ :: outer }
        = s.trail.reverse := by
      rw [trail]
      rfl
    have marked := remaining_cons (r := r) frames true
    rw [hs, Region.through_start (hs ▸ ha)] at marked
    simp only [Step.outcome, Search.outcome, path, marked, markClosed]
    rw [left]
    simp only [List.reverse_cons, List.append_assoc, List.singleton_append,
      List.take_succ_cons, List.length_cons, Nat.add_lt_add_iff_right]
    rfl
  | blocked _ hs hb =>
    rw [h.through_eq_nil hs hb, List.nil_append] at passed
    simp only [Step.outcome, Search.outcome, passed]
  | enter ha hs free =>
    rw [Region.through_fresh ha hs (h.sound.not_mem_trail free), trail,
      Region.closings_cons] at passed
    simp only [Step.outcome, Search.outcome, passed, Search.enter, remaining, List.map_cons]

theorem remaining_markClosed (frames : List (Frame k)) :
    remaining r (markClosed frames) = remaining r frames := by
  cases frames <;> rfl

theorem Exact.outcome_step (h : Exact r s) : (s.step r).outcome r = s.outcome r := by
  unfold Search.step
  split
  next frames =>
    simp [Step.outcome, outcome, frames, remaining]
  next frames => exact h.outcome_advance frames
  next v closed outer frames =>
    have same : remaining r s.frames = remaining r outer := by
      rw [frames]
      rfl
    cases closed with
    | true =>
      simp only [Step.outcome, outcome, retreat, if_true, remaining_markClosed, same]
      rfl
    | false =>
      simp only [Step.outcome, outcome, same]
      rfl

theorem Exact.run_eq (h : Exact r s) : run r s h.sound = s.outcome r := by
  generalize hs : h.sound = sound
  fun_induction run r s sound with
  | case1 s sound t next ih =>
    have step := h.outcome_step
    rw [next] at step
    exact (ih (h.step next) rfl).trans step
  | case2 s sound found next =>
    have step := h.outcome_step
    rw [next] at step
    exact step
  | case3 s sound found next =>
    have step := h.outcome_step
    rw [next] at step
    exact step

end Search

/-- The search with blocking finds what the exhaustive search finds, cut at the cap. -/
theorem Region.circuits_eq_cut (r : Region k) (cap : Nat) :
    r.circuits cap = .cut cap (r.closings [r.start]) := by
  have all : Search.remaining r (Search.start r cap).frames = r.closings [r.start] := by
    rw [closings_cons]
    simp [Search.start, Search.remaining]
  have run := (Search.Exact.start r cap).run_eq
  rw [Search.outcome, all] at run
  exact run

end Coupling
