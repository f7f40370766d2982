import Coupling.Collection.Total
import Coupling.Component.Basic
import Coupling.Metric.Quantity

/-!
# Visibility

The relative visibility of a component is the share of its visible elements. Over all components
there are two aggregates: the mean of the shares, and the share over all elements.
-/

namespace Coupling

structure ComponentVisibility (ρ : Type) where
  component : String
  visible : Nat
  total : Nat
  relative : ρ

structure VisibilityMetrics (ρ : Type) where
  components : List (ComponentVisibility ρ)
  average : ρ
  overall : ρ

variable {ε ρ : Type} [Quantity ρ]

def Component.visibility (c : Component ε) (isVisible : ε → Bool) : ComponentVisibility ρ :=
  let visible := c.elements.countP isVisible
  { component := c.id
    visible
    total := c.elements.length
    relative := ratio visible c.elements.length }

/-- The sum is taken from the left; the mean of nothing is zero. -/
def mean (l : List ρ) : ρ :=
  if l.isEmpty then Quantity.ofNat 0
  else l.foldl (· + ·) (Quantity.ofNat 0) / Quantity.ofNat l.length

def Components.visibility (cs : Components ε) (isVisible : ε → Bool) : VisibilityMetrics ρ :=
  let components := cs.toList.map fun c => c.visibility isVisible
  { components
    average := mean (components.map ComponentVisibility.relative)
    overall := ratio (total (components.map ComponentVisibility.visible))
      (total (components.map ComponentVisibility.total)) }

def VisibilityMetrics.relative? (m : VisibilityMetrics ρ) (id : String) : Option ρ :=
  (m.components.find? (·.component = id)).map ComponentVisibility.relative

end Coupling
