import Coupling.Report.Cycles
import Coupling.Report.Metrics

/-!
# The full report

All metrics and the cycles of a snapshot, one after the other with a blank line in between.
-/

namespace Coupling

namespace Snapshot

def lakos (s : Snapshot) (pass : CondensationPass) : Except Failure (LakosMetrics Float) := do
  let cs ← s.componentSet
  let g ← s.componentGraph cs
  return g.lakosAlong (pass _ g.successors)

def couplings (s : Snapshot) : Except Failure (CouplingMetrics Float) := do
  let cs ← s.componentSet
  let g ← s.componentGraph cs
  return g.couplings Element.isVisible Element.isAbstract

def visibility (s : Snapshot) : Except Failure (VisibilityMetrics Float) := do
  let cs ← s.componentSet
  return cs.visibility Element.isVisible

end Snapshot

structure FullReport where
  lakos : LakosMetrics Float
  couplings : CouplingMetrics Float
  visibility : VisibilityMetrics Float
  cycles : CyclesReport

/-- All metrics are read off the same components and the same graph between them; the cycles are
searched for in a graph of their own. -/
def Snapshot.fullReport (s : Snapshot) (configuration : Configuration) (pass : CondensationPass) :
    Except Trouble FullReport := do
  let cs ← s.componentSet.mapError .failure
  let g ← (s.componentGraph cs).mapError .failure
  let lakos := g.lakosAlong (pass _ g.successors)
  let couplings := g.couplings Element.isVisible Element.isAbstract
  let visibility := cs.visibility Element.isVisible
  let cycles ← s.cyclesReport configuration
  return { lakos, couplings, visibility, cycles }

instance : Report FullReport where
  plain r :=
    "\n".intercalate
      [Report.plain r.lakos, Report.plain r.couplings, Report.plain r.visibility, r.cycles.plain]
  json r :=
    .object [("lakos", Report.json r.lakos), ("martin", Report.json r.couplings),
      ("visibility", Report.json r.visibility), ("cycles", r.cycles.json)]

end Coupling
