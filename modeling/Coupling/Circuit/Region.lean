import Coupling.Graph.Adjacency

/-!
# One step of the circuit search

A region is a start node with the nodes that a circuit through it may use. The search extends a
path from the start node by one frame at a time. A node is blocked while it lies on the path, and
stays blocked after it has left the path without closing a circuit, until one of the nodes it is
waiting for is released.
-/

namespace Coupling

structure Region (k : Nat) where
  adj : Adjacency k
  start : Fin k
  allowed : Vector Bool k

/-- The nodes from `start` on that lie on a closed walk through `start` using no smaller node. -/
def Region.ofStart {k : Nat} (adj back : Adjacency k) (start : Fin k) : Region k :=
  let above : Vector Bool k := Vector.ofFn fun v => start < v
  let ahead := (adj.flood above [start] []).1
  let behind := (back.flood above [start] []).1
  { adj, start
    allowed := Vector.ofFn fun v => start ≤ v && !ahead[v] && !behind[v] }

/-- A node of the path with the successors still to be tried, and whether a circuit has been closed
since the node was entered. -/
structure Frame (k : Nat) where
  node : Fin k
  pending : List (Fin k)
  closed : Bool

/-- The innermost frame and the latest circuit stand first. -/
structure Search (k : Nat) where
  frames : List (Frame k)
  blocked : Vector Bool k
  waiting : Adjacency k
  found : List (List (Fin k))
  room : Nat

inductive Step (k : Nat) where
  | more (s : Search k)
  | full (found : List (List (Fin k)))
  | done (found : List (List (Fin k)))

namespace Search

variable {k : Nat}

def start (r : Region k) (room : Nat) : Search k where
  frames := [⟨r.start, r.adj[r.start], false⟩]
  blocked := (Vector.replicate k false).set r.start true r.start.isLt
  waiting := Vector.replicate k []
  found := []
  room

/-- The nodes of the path, innermost first. -/
def trail (s : Search k) : List (Fin k) := s.frames.map Frame.node

def path (s : Search k) : List (Fin k) := s.trail.reverse

def enter (r : Region k) (s : Search k) (w : Fin k) : Search k :=
  { s with
    frames := ⟨w, r.adj[w], false⟩ :: s.frames
    blocked := s.blocked.set w true w.isLt }

def clear (waiting : Adjacency k) (w : Fin k) : Adjacency k := waiting.set w [] w.isLt

def await (v : Fin k) (waiting : Adjacency k) (w : Fin k) : Adjacency k :=
  waiting.set w (waiting[w].insert v) w.isLt

/-- Unblocks `v` and every blocked node that waits for a node just unblocked. -/
def release (s : Search k) (v : Fin k) : Search k :=
  let freed := s.waiting.flood (s.blocked.set v false v.isLt) [v] []
  { s with blocked := freed.1, waiting := freed.2.foldl clear s.waiting }

/-- Lets `v` wait for each of its allowed successors. -/
def defer (r : Region k) (s : Search k) (v : Fin k) : Search k :=
  { s with
    waiting := (r.adj[v].filter fun w => r.allowed[w]).foldl (await v) s.waiting }

def markClosed : List (Frame k) → List (Frame k)
  | [] => []
  | f :: outer => { f with closed := true } :: outer

/-- Looks at successor `w` of the innermost node, whose frame has already passed over it. -/
def advance (r : Region k) (s : Search k) (w : Fin k) : Step k :=
  if !r.allowed[w] then .more s
  else if w = r.start then
    match s.room with
    | 0 => .full s.found
    | room + 1 =>
      .more { s with frames := markClosed s.frames, found := s.path :: s.found, room }
  else if s.blocked[w] then .more s
  else .more (s.enter r w)

/-- Leaves the innermost node `v`, whose successors have all been tried. -/
def retreat (r : Region k) (s : Search k) (v : Fin k) (closed : Bool) : Search k :=
  if closed then { s.release v with frames := markClosed s.frames } else s.defer r v

def step (r : Region k) (s : Search k) : Step k :=
  match s.frames with
  | [] => .done s.found
  | ⟨v, w :: pending, closed⟩ :: outer =>
    advance r { s with frames := ⟨v, pending, closed⟩ :: outer } w
  | ⟨v, [], closed⟩ :: outer => .more (retreat r { s with frames := outer } v closed)

/-- What looking at successor `w` comes to, with the tests that decide it. -/
inductive Advanced (r : Region k) (s : Search k) (w : Fin k) : Step k → Prop where
  | barred (ha : r.allowed[w] = false) : Advanced r s w (.more s)
  | full (ha : r.allowed[w] = true) (hs : w = r.start) (none : s.room = 0) :
    Advanced r s w (.full s.found)
  | close {room : Nat} (ha : r.allowed[w] = true) (hs : w = r.start) (left : s.room = room + 1) :
    Advanced r s w
      (.more { s with frames := markClosed s.frames, found := s.path :: s.found, room })
  | blocked (ha : r.allowed[w] = true) (hs : w ≠ r.start) (hb : s.blocked[w] = true) :
    Advanced r s w (.more s)
  | enter (ha : r.allowed[w] = true) (hs : w ≠ r.start) (free : s.blocked[w] = false) :
    Advanced r s w (.more (s.enter r w))

theorem advanced (r : Region k) (s : Search k) (w : Fin k) : Advanced r s w (advance r s w) := by
  unfold advance
  split
  next ha => exact .barred (by simpa using ha)
  next ha =>
    have ha : r.allowed[w] = true := by simpa using ha
    split
    next hs =>
      split
      next none => exact .full ha hs none
      next room left => exact .close ha hs left
    next hs =>
      split
      next hb => exact .blocked ha hs hb
      next hb => exact .enter ha hs (by simpa using hb)

end Search

end Coupling
