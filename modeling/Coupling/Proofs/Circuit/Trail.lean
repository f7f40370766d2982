import Coupling.Circuit.Enumeration
import Mathlib.Data.List.Chain

/-!
# The trail of the circuit search is a path

`Stepped` lists what a step can do to a state. Whatever it does, the trail runs along arcs between
allowed nodes, every frame has still to try the last ones of the successors of its node, and a node
waits only for nodes to which an arc leads from it (`Threaded`).
-/

namespace Coupling

variable {k : Nat}

namespace Search

variable {r : Region k} {s t : Search k} {v w : Fin k} {pending : List (Fin k)} {closed : Bool}
  {outer : List (Frame k)}

/-! ## What a step does -/

inductive Stepped (r : Region k) (s : Search k) : Step k → Prop where
  | done (frames : s.frames = []) : Stepped r s (.done s.found)
  | full {v : Fin k} {pending : List (Fin k)} {closed : Bool} {outer : List (Frame k)}
    (frames : s.frames = ⟨v, r.start :: pending, closed⟩ :: outer)
    (allowed : r.allowed[r.start] = true) (none : s.room = 0) : Stepped r s (.full s.found)
  | pass {v w : Fin k} {pending : List (Fin k)} {closed : Bool} {outer : List (Frame k)}
    (frames : s.frames = ⟨v, w :: pending, closed⟩ :: outer)
    (skip : r.allowed[w] = true → w ≠ r.start ∧ s.blocked[w] = true) :
    Stepped r s (.more { s with frames := ⟨v, pending, closed⟩ :: outer })
  | close {v : Fin k} {pending : List (Fin k)} {closed : Bool} {outer : List (Frame k)} {room : Nat}
    (frames : s.frames = ⟨v, r.start :: pending, closed⟩ :: outer)
    (allowed : r.allowed[r.start] = true) (left : s.room = room + 1) :
    Stepped r s
      (.more { s with frames := ⟨v, pending, true⟩ :: outer, found := s.path :: s.found, room })
  | enter {v w : Fin k} {pending : List (Fin k)} {closed : Bool} {outer : List (Frame k)}
    (frames : s.frames = ⟨v, w :: pending, closed⟩ :: outer) (allowed : r.allowed[w] = true)
    (notStart : w ≠ r.start) (free : s.blocked[w] = false) :
    Stepped r s (.more ({ s with frames := ⟨v, pending, closed⟩ :: outer }.enter r w))
  | release {v : Fin k} {outer : List (Frame k)} (frames : s.frames = ⟨v, [], true⟩ :: outer) :
    Stepped r s (.more { s.release v with frames := markClosed outer })
  | defer {v : Fin k} {outer : List (Frame k)} (frames : s.frames = ⟨v, [], false⟩ :: outer) :
    Stepped r s (.more ({ s with frames := outer }.defer r v))

theorem stepped {outcome : Step k} (next : s.step r = outcome) : Stepped r s outcome := by
  rw [← next]
  unfold step
  split
  next frames => exact .done frames
  next v w pending closed outer frames =>
    have advanced := advanced r { s with frames := ⟨v, pending, closed⟩ :: outer } w
    generalize advance r { s with frames := ⟨v, pending, closed⟩ :: outer } w = outcome at advanced ⊢
    cases advanced with
    | barred barred =>
      refine .pass frames fun allowed => ?_
      rw [barred] at allowed
      cases allowed
    | full allowed hs none => exact .full (hs ▸ frames) (hs ▸ allowed) none
    | close allowed hs left =>
      have path : path { s with frames := ⟨v, pending, closed⟩ :: outer } = s.path := by
        simp [path, trail, frames]
      rw [path]
      exact .close (hs ▸ frames) (hs ▸ allowed) left
    | blocked _ notStart held => exact .pass frames fun _ => ⟨notStart, held⟩
    | enter allowed notStart free => exact .enter frames allowed notStart free
  next v closed outer frames =>
    cases closed with
    | true => exact .release frames
    | false => exact .defer frames

/-! ## Successors still to be tried -/

/-- Every frame has still to try the last ones of the successors of its node. -/
def Followed (r : Region k) (frames : List (Frame k)) : Prop :=
  ∀ f ∈ frames, f.pending <:+ r.adj[f.node]

theorem followed_start (r : Region k) (room : Nat) : Followed r (start r room).frames := by
  intro f mem
  cases List.mem_singleton.mp mem
  exact List.suffix_refl _

theorem Followed.markClosed {frames : List (Frame k)} (h : Followed r frames) :
    Followed r (markClosed frames) := by
  cases frames with
  | nil => exact h
  | cons f outer =>
    obtain ⟨first, rest⟩ := List.forall_mem_cons.mp h
    exact List.forall_mem_cons.mpr ⟨first, rest⟩

theorem Followed.pass (h : Followed r (⟨v, w :: pending, closed⟩ :: outer)) :
    Followed r (⟨v, pending, closed⟩ :: outer) := by
  obtain ⟨first, rest⟩ := List.forall_mem_cons.mp h
  exact List.forall_mem_cons.mpr ⟨(List.suffix_cons w pending).trans first, rest⟩

theorem Followed.arc (h : Followed r s.frames)
    (frames : s.frames = ⟨v, w :: pending, closed⟩ :: outer) : w ∈ r.adj[v] := by
  rw [frames] at h
  exact (h _ List.mem_cons_self).subset List.mem_cons_self

theorem Followed.step (h : Followed r s.frames) (next : s.step r = .more t) :
    Followed r t.frames := by
  cases stepped next with
  | pass frames =>
    rw [frames] at h
    exact h.pass
  | close frames =>
    rw [frames] at h
    exact h.pass.markClosed
  | enter frames =>
    rw [frames] at h
    exact List.forall_mem_cons.mpr ⟨List.suffix_refl _, h.pass⟩
  | release frames =>
    rw [frames] at h
    have rest : Followed r _ := (List.forall_mem_cons.mp h).2
    exact rest.markClosed
  | defer frames =>
    rw [frames] at h
    exact (List.forall_mem_cons.mp h).2

/-! ## Arcs of the trail and of the waiting lists -/

structure Threaded (r : Region k) (s : Search k) : Prop where
  followed : Followed r s.frames
  /-- Arcs lead from each node of the trail to the one inside it. -/
  linked : s.trail.IsChain fun w v => w ∈ r.adj[v]
  usable : ∀ v ∈ s.trail, r.allowed[v] = true
  waits : ∀ w v : Fin k, v ∈ s.waiting[w] → w ∈ r.adj[v] ∧ r.allowed[v] = true

theorem Threaded.start (opened : r.allowed[r.start] = true) (room : Nat) :
    Threaded r (start r room) where
  followed := followed_start r room
  linked := .singleton _
  usable v mem := by
    cases List.mem_singleton.mp mem
    exact opened
  waits w v mem := by simp [Search.start] at mem

theorem Threaded.step (h : Threaded r s) (next : s.step r = .more t) : Threaded r t := by
  have followed := h.followed.step next
  have linked := h.linked
  have usable := h.usable
  cases stepped next with
  | pass frames =>
    rw [trail_cons frames] at linked usable
    exact ⟨followed, linked, usable, h.waits⟩
  | close frames =>
    rw [trail_cons frames] at linked usable
    exact ⟨followed, linked, usable, h.waits⟩
  | enter frames allowed =>
    refine ⟨followed, ?_, ?_, h.waits⟩
    · rw [trail_enter frames, trail_cons frames]
      exact (trail_cons frames ▸ linked).cons_cons (h.followed.arc frames)
    · rw [trail_enter frames]
      exact List.forall_mem_cons.mpr ⟨allowed, usable⟩
  | @release v outer frames =>
    have trail : Search.trail { s.release v with frames := Search.markClosed outer } =
        outer.map Frame.node :=
      map_node_markClosed outer
    rw [trail_cons frames] at linked usable
    refine ⟨followed, ?_, ?_, ?_⟩
    · exact trail ▸ linked.of_cons
    · exact trail ▸ (List.forall_mem_cons.mp usable).2
    · intro w u mem
      exact h.waits w u ((mem_waiting_release s v w u).mp mem).1
  | @defer v outer frames =>
    rw [trail_cons frames] at linked usable
    obtain ⟨allowed, usable⟩ := List.forall_mem_cons.mp usable
    refine ⟨followed, linked.of_cons, usable, ?_⟩
    intro w u mem
    rcases (mem_waiting_defer r { s with frames := outer } v w u).mp mem with old | ⟨rfl, arc, _⟩
    · exact h.waits w u old
    · exact ⟨arc, allowed⟩

end Search

end Coupling
