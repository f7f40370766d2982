import Coupling.Metric.Lakos
import Coupling.Metric.Martin
import Coupling.Metric.Visibility
import Coupling.Report.Basic
import Coupling.Report.Layout

/-!
# Reports of metrics
-/

namespace Coupling

open Json (Value)
open Layout (Column)

instance : Report (LakosMetrics Float) where
  plain m :=
    let columns : List (Column DependsOn) := [⟨"DEPENDS ON", 10, fun d => toString d.count⟩]
    Layout.title "Lakos metrics" ++ Layout.entry "CCD" (toString m.cumulative)
      ++ Layout.entry "ACD" (Layout.ratio m.average)
      ++ Layout.entry "RACD" (Layout.ratio m.relativeAverage)
      ++ Layout.entry "NCCD" (Layout.ratio m.normalized)
      ++ if m.perComponent.isEmpty then ""
        else "\n" ++ Layout.table DependsOn.component columns m.perComponent
  json m :=
    .object [("cumulative_component_dependency", .nat m.cumulative),
      ("average_component_dependency", .float m.average),
      ("relative_average_component_dependency", .float m.relativeAverage),
      ("normalized_cumulative_component_dependency", .float m.normalized),
      ("per_component", .array (m.perComponent.map fun d =>
        .object [("component", .text d.component), ("depends_on", .nat d.count)]))]

instance : Report (CouplingMetrics Float) where
  plain m :=
    let columns : List (Column (ComponentCoupling Float)) :=
      [⟨"CE", 4, fun c => toString c.efferent⟩,
        ⟨"CA", 4, fun c => toString c.afferent⟩,
        ⟨"I", 8, fun c => Layout.ratio c.instability⟩,
        ⟨"A", 8, fun c => Layout.ratio c.abstractness⟩,
        ⟨"D", 8, fun c => Layout.ratio c.distance⟩]
    Layout.title "Martin metrics" ++
      if m.components.isEmpty then Layout.line "No components."
      else Layout.table ComponentCoupling.component columns m.components
  json m :=
    .object [("components", .array (m.components.map fun c =>
      .object [("component", .text c.component), ("efferent_coupling", .nat c.efferent),
        ("afferent_coupling", .nat c.afferent), ("instability", .float c.instability),
        ("abstractness", .float c.abstractness),
        ("normalized_distance_from_main_sequence", .float c.distance)]))]

instance : Report (VisibilityMetrics Float) where
  plain m :=
    let columns : List (Column (ComponentVisibility Float)) :=
      [⟨"VISIBLE", 8, fun c => toString c.visible⟩,
        ⟨"TOTAL", 8, fun c => toString c.total⟩,
        ⟨"RV", 8, fun c => Layout.ratio c.relative⟩]
    Layout.title "Visibility metrics" ++ Layout.entry "ARV" (Layout.ratio m.average)
      ++ Layout.entry "GRV" (Layout.ratio m.overall)
      ++ if m.components.isEmpty then ""
        else "\n" ++ Layout.table ComponentVisibility.component columns m.components
  json m :=
    .object [("components", .array (m.components.map fun c =>
        .object [("component", .text c.component), ("visible_elements", .nat c.visible),
          ("total_elements", .nat c.total), ("relative_visibility", .float c.relative)])),
      ("average_relative_visibility", .float m.average),
      ("global_relative_visibility", .float m.overall)]

end Coupling
