/-!
# Quantities

Metrics are ratios of counts. Their definitions leave open which numbers the divisions are made
in, so that the same definition is printed from binary floating point and reasoned about in exact
fractions.
-/

namespace Coupling

class Quantity (ρ : Type) extends Add ρ, Sub ρ, Div ρ where
  ofNat : Nat → ρ
  abs : ρ → ρ

instance : Quantity Float where
  ofNat := Float.ofNat
  abs := Float.abs

/-- The part of nothing is zero. -/
def ratio {ρ : Type} [Quantity ρ] (part whole : Nat) : ρ :=
  if whole = 0 then Quantity.ofNat 0 else Quantity.ofNat part / Quantity.ofNat whole

end Coupling
