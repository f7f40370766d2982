import Coupling.Component.Graph
import Coupling.Metric.Quantity

/-!
# Coupling, instability and abstractness

Instability is the share of outgoing dependencies among all dependencies of a component,
abstractness the share of abstract elements among its visible ones, and the distance is how far
the two are from adding up to one.
-/

namespace Coupling

structure ComponentCoupling (ρ : Type) where
  component : String
  efferent : Nat
  afferent : Nat
  instability : ρ
  abstractness : ρ
  distance : ρ

structure CouplingMetrics (ρ : Type) where
  components : List (ComponentCoupling ρ)

variable {ε ρ : Type} [Quantity ρ]

def coupling (id : String) (efferent afferent : Nat) (visible : List ε)
    (isAbstract : ε → Bool) : ComponentCoupling ρ :=
  let instability : ρ := ratio efferent (efferent + afferent)
  let abstractness : ρ := ratio (visible.countP isAbstract) visible.length
  { component := id
    efferent
    afferent
    instability
    abstractness
    distance := Quantity.abs (abstractness + instability - Quantity.ofNat 1) }

def ComponentGraph.couplings {cs : Components ε} (g : ComponentGraph cs)
    (isVisible isAbstract : ε → Bool) : CouplingMetrics ρ where
  components := (List.finRange cs.size).map fun i =>
    let c := cs.get i
    coupling c.id g.successors[i].length g.predecessors[i].length
      (c.elements.filter isVisible) isAbstract

def CouplingMetrics.get? (m : CouplingMetrics ρ) (id : String) : Option (ComponentCoupling ρ) :=
  m.components.find? (·.component = id)

end Coupling
