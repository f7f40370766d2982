import Coupling.Cycle.Basic
import Coupling.Graph.Fingerprint
import Coupling.Report.Basic
import Coupling.Report.Layout
import Coupling.Settings.Basic
import Coupling.Snapshot.Basic
import Coupling.Trouble

/-!
# Reports of cycles
-/

namespace Coupling

structure CyclesReport where
  fingerprint : String
  limits : CycleLimits
  found : Capped (Cycle String Dependency)

def Snapshot.cyclesReport (s : Snapshot) (configuration : Configuration) :
    Except Trouble CyclesReport := do
  let g ← s.cycleGraph.mapError .failure
  let found ← (g.cycles configuration.limits configuration.budget).mapError .aborted
  return { fingerprint := g.fingerprint, limits := configuration.limits, found }

namespace CyclesReport

open Json (Value)

def plainStep (step : CycleStep String Dependency) : String :=
  Layout.line s!"  {step.source} -> {step.target}" ++
    String.join (step.edges.map fun d => Layout.line s!"    {d.text}") ++
    if step.suppressed = 0 then "" else Layout.line s!"    ... and {step.suppressed} more"

def plainCycle (number : Nat) (cycle : Cycle String Dependency) : String :=
  Layout.line s!"\nCycle {number}: {cycle.text}" ++ String.join (cycle.steps.map plainStep)

def plainTitle (r : CyclesReport) : String :=
  let count := r.found.items.length
  if r.found.truncated then s!"Dependency cycles ({count}, limit {r.limits.maxCycles} reached)"
  else s!"Dependency cycles ({count})"

def plain (r : CyclesReport) : String :=
  if r.found.items.isEmpty then Layout.line "No dependency cycles found."
  else
    Layout.title r.plainTitle ++
      String.join (r.found.items.zipIdx.map fun (cycle, i) => plainCycle (i + 1) cycle)

def jsonStep (step : CycleStep String Dependency) : Value :=
  .object [("from", .text step.source), ("to", .text step.target),
    ("dependencies", .array (step.edges.map fun d => .text d.text)),
    ("total_dependencies", .nat step.totalEdges)]

def jsonCycle (cycle : Cycle String Dependency) : Value :=
  .object [("path", .text cycle.text), ("steps", .array (cycle.steps.map jsonStep))]

def json (r : CyclesReport) : Value :=
  .object [("fingerprint", .text r.fingerprint), ("max_cycles", .nat r.limits.maxCycles),
    ("max_edges_per_step", .nat r.limits.maxEdgesPerStep),
    ("truncated", .bool r.found.truncated), ("cycles", .array (r.found.items.map jsonCycle))]

instance : Report CyclesReport := ⟨plain, json⟩

end CyclesReport

end Coupling
