import Coupling.Graph.Basic
import Coupling.Hash.Blake3

/-!
# Fingerprints of graphs

Two runs over graphs with the same fingerprint see the same cycles and metrics. The stream that is
hashed holds the labels of the nodes and the endpoints of the edges, each part behind its length;
descriptors are left out.
-/

namespace Coupling

/-- A number below 2^64 in eight bytes, the lowest first. -/
def littleEndian (n : Nat) : List UInt8 :=
  (List.range 8).map fun i => UInt8.ofNat (n >>> (8 * i))

def labelBytes (label : String) : List UInt8 :=
  let bytes := label.toUTF8.data.toList
  littleEndian bytes.length ++ bytes

namespace Graph

variable {ν δ : Type}

def edgeBytes (g : Graph ν δ) (e : Fin g.edgeCount) : List UInt8 :=
  littleEndian g.edges[e].source ++ littleEndian g.edges[e].target

/-- The bytes that are hashed. -/
def stream [Label ν] (g : Graph ν δ) : List UInt8 :=
  littleEndian g.size ++ g.nodes.toList.flatMap (fun a => labelBytes (Label.text a))
    ++ littleEndian g.edgeCount ++ (List.finRange g.edgeCount).flatMap g.edgeBytes

def fingerprint [Label ν] (g : Graph ν δ) : String :=
  "blake3:" ++ Blake3.hex (Blake3.digest g.stream)

end Graph

end Coupling
