import Coupling.Collection.Grouped
import Coupling.Collection.IndexedSet
import Coupling.Failure
import Coupling.Text.Quoted

/-!
# Directed multigraphs with an index of outgoing edges

The nodes of a graph are the values its caller names them by, each once; inside, a node is its
position. Parallel edges and self-loops are kept, every edge with its own descriptor, and whatever
a graph lists follows the order of the input.
-/

namespace Coupling

/-- How a node is shown, and how it is quoted in a message. -/
class Label (ν : Type) where
  text : ν → String
  quoted : ν → String

instance : Label String where
  text s := s
  quoted := Text.quoted

structure Edge (size : Nat) (δ : Type) where
  source : Fin size
  target : Fin size
  descriptor : δ

structure Graph (ν δ : Type) where
  size : Nat
  edgeCount : Nat
  nodes : Vector ν size
  edges : Vector (Edge size δ) edgeCount
  outgoing : Vector (List (Fin edgeCount)) size
  nodup : nodes.toList.Nodup
  outgoing_eq : ∀ v : Fin size,
    outgoing[v] = (List.finRange edgeCount).filter fun e => edges[e].source = v

namespace Graph

variable {ν δ : Type}

/-- Replaces the endpoints of the edge at `position` by their places among the nodes. -/
def resolve [DecidableEq ν] [Hashable ν] [Label ν] (nodes : IndexedSet ν)
    (edge : (ν × ν × δ) × Nat) : Except Failure (Edge nodes.size δ) :=
  let ((source, target, descriptor), position) := edge
  match nodes.position? source, nodes.position? target with
  | some s, some t => .ok ⟨s, t, descriptor⟩
  | none, _ => .error (.unusable (.unknownNode position (Label.quoted source)))
  | some _, none => .error (.unusable (.unknownNode position (Label.quoted target)))

def assemble [DecidableEq ν] [Hashable ν] (nodes : IndexedSet ν)
    (edges : List (Edge nodes.size δ)) : Graph ν δ :=
  let edges := edges.toArray.toVector
  { size := nodes.size
    edgeCount := _
    nodes := nodes.members.toVector
    edges
    outgoing := grouped (fun e => edges[e].source) (List.finRange _)
    nodup := nodes.nodup_toList
    outgoing_eq := fun v => getElem_grouped _ _ v }

/-- Repeated nodes fall together with their first occurrence; both endpoints of every edge must be
among the nodes. -/
def ofLists [DecidableEq ν] [Hashable ν] [Label ν] (nodes : List ν) (edges : List (ν × ν × δ)) :
    Except Failure (Graph ν δ) :=
  let nodes := IndexedSet.ofList nodes
  (edges.zipIdx.mapM (resolve nodes)).map (assemble nodes)

def node (g : Graph ν δ) (v : Fin g.size) : ν := g.nodes[v]

def nodeId? [DecidableEq ν] (g : Graph ν δ) (a : ν) : Option (Fin g.size) :=
  (List.finRange g.size).find? fun v => g.node v = a

/-- Targets of the outgoing edges, one for each edge. -/
def targets (g : Graph ν δ) (v : Fin g.size) : List (Fin g.size) :=
  g.outgoing[v].map fun e => g.edges[e].target

/-- Targets of the outgoing edges, each where its first edge stands. -/
def successors (g : Graph ν δ) (v : Fin g.size) : List (Fin g.size) :=
  (IndexedSet.ofList (g.targets v)).toList

def edgesBetween (g : Graph ν δ) (v w : Fin g.size) : List (Fin g.edgeCount) :=
  g.outgoing[v].filter fun e => g.edges[e].target = w

def hasSelfLoop (g : Graph ν δ) (v : Fin g.size) : Bool := !(g.edgesBetween v v).isEmpty

theorem successors_eq (g : Graph ν δ) (v : Fin g.size) :
    g.successors v = (g.targets v).eraseDups :=
  IndexedSet.toList_ofList _

theorem mem_outgoing (g : Graph ν δ) (v : Fin g.size) (e : Fin g.edgeCount) :
    e ∈ g.outgoing[v] ↔ g.edges[e].source = v := by
  rw [g.outgoing_eq]
  simp

theorem mem_successors (g : Graph ν δ) (v w : Fin g.size) :
    w ∈ g.successors v ↔ ∃ e : Fin g.edgeCount, g.edges[e].source = v ∧ g.edges[e].target = w := by
  rw [successors, IndexedSet.mem_toList_ofList, targets]
  simp only [List.mem_map, mem_outgoing]

end Graph

end Coupling
