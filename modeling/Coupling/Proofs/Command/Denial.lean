import Coupling.Command.Basic
import Coupling.Proofs.Cycle.Detection
import Coupling.Proofs.Snapshot.Correspondence

/-!
# When cycles are denied

A run that denies cycles is meant to fail on a snapshot whose components depend on each other in a
ring, and on no other. Rings are told from the names of elements alone (`Snapshot.Ring`), and the
limits on what is reported have no say in it.
-/

namespace Coupling

open Relation

namespace Snapshot

variable {s : Snapshot} {cs : Components Element}

/-- Components of which each depends on the next, the last on the first. -/
def Ring (s : Snapshot) : Prop :=
  ∃ (k : Nat) (c : Nat → ComponentRecord),
    1 ≤ k ∧ c k = c 0 ∧ ∀ i < k, s.Crosses (c i) (c (i + 1))

theorem ring_iff : s.Ring ↔ ∃ c, TransGen s.Crosses c c := by
  simp only [transGen_iff_exists_sequence]
  constructor
  · intro ring
    obtain ⟨k, c, pos, closed, crosses⟩ := ring
    refine ⟨c 0, k - 1, c, rfl, ?_, ?_⟩
    · rw [Nat.sub_add_cancel pos, closed]
    · intro i hi
      exact crosses i (by omega)
  · intro walk
    obtain ⟨_, k, c, rfl, closed, crosses⟩ := walk
    exact ⟨k + 1, c, Nat.le_add_left 1 k, closed, fun i hi => crosses i (Nat.le_of_lt_succ hi)⟩

section Derived

variable {g : ComponentGraph cs} {G : Graph String Dependency}

theorem Derived.exists_node (h : s.Derived g G) (accepted : s.componentSet = .ok cs)
    {c : ComponentRecord} (hc : c ∈ s.components) : ∃ v, G.node v = c.id := by
  obtain ⟨i, _, _, name⟩ := h.exists_place accepted hc
  exact ⟨_, name⟩

theorem Derived.exists_record (h : s.Derived g G) (accepted : s.componentSet = .ok cs)
    (v : Fin G.size) : ∃ c ∈ s.components, c.id = G.node v := by
  have mem : G.node v ∈ s.components.map ComponentRecord.id := by
    rw [← h.nodes accepted, Vector.mem_toList_iff]
    exact Vector.getElem_mem v.isLt
  exact List.mem_map.mp mem

theorem Derived.arc_iff_crosses (h : s.Derived g G) (accepted : s.componentSet = .ok cs)
    {a b : ComponentRecord} (ha : a ∈ s.components) (hb : b ∈ s.components) {v w : Fin G.size}
    (source : G.node v = a.id) (target : G.node w = b.id) : G.Arc v w ↔ s.Crosses a b := by
  rw [Graph.arc_iff_listed, h.listed, source, target, crosses_iff accepted ha hb]

/-- A walk of components is a walk of their nodes. -/
theorem Derived.walk_of_crosses (h : s.Derived g G) (accepted : s.componentSet = .ok cs)
    {a b : ComponentRecord} (walk : TransGen s.Crosses a b) {v w : Fin G.size}
    (source : G.node v = a.id) (target : G.node w = b.id) : TransGen G.Arc v w := by
  -- the walk grows at its end, so the node of the end changes with it
  induction walk generalizing w with
  | single crosses =>
    exact .single ((h.arc_iff_crosses accepted crosses.source crosses.target source target).mpr
      crosses)
  | tail _ crosses ih =>
    obtain ⟨u, hu⟩ := h.exists_node accepted crosses.source
    exact (ih hu).tail
      ((h.arc_iff_crosses accepted crosses.source crosses.target hu target).mpr crosses)

theorem Derived.acyclic_iff (h : s.Derived g G) (accepted : s.componentSet = .ok cs) :
    Acyclic G.Arc ↔ ¬ s.Ring := by
  rw [ring_iff]
  constructor
  · intro acyclic ring
    obtain ⟨c, walk⟩ := ring
    obtain ⟨_, crosses, _⟩ := TransGen.head'_iff.mp walk
    obtain ⟨v, hv⟩ := h.exists_node accepted crosses.source
    exact acyclic v (h.walk_of_crosses accepted walk hv hv)
  · intro none v walk
    -- a record for every node, by which a walk of nodes becomes one of components
    choose record mem name using h.exists_record accepted
    have crosses : ∀ v w, G.Arc v w → s.Crosses (record v) (record w) := by
      intro v w arc
      exact (h.arc_iff_crosses accepted (mem v) (mem w) (name v).symm (name w).symm).mp arc
    exact none ⟨record v, walk.lift record crosses⟩

/-- A reported cycle takes two components, since none of them depends on itself. -/
theorem Derived.exists_two (h : s.Derived g G) (accepted : s.componentSet = .ok cs) (cap : Nat)
    {c : List (Fin G.size)} (circuit : ElementaryCircuit G.Arc c) :
    ∃ a ∈ s.components, ∃ b ∈ s.components,
      a.id ≠ b.id ∧ a.id ∈ (G.cycleOf cap c).nodes ∧ b.id ∈ (G.cycleOf cap c).nodes := by
  obtain ⟨v, hv, w, hw, ne⟩ := circuit.exists_ne h.irreflexive
  obtain ⟨a, ha, source⟩ := h.exists_record accepted v
  obtain ⟨b, hb, target⟩ := h.exists_record accepted w
  rw [G.nodes_cycleOf]
  refine ⟨a, ha, b, hb, ?_, ?_, ?_⟩
  · rw [source, target]
    exact fun same => ne (G.node_injective same)
  · rw [source]
    exact List.mem_map_of_mem hv
  · rw [target]
    exact List.mem_map_of_mem hw

end Derived

/-! ## Reports and the decision -/

theorem cyclesReport_eq_ok {configuration : Configuration} {r : CyclesReport} :
    s.cyclesReport configuration = .ok r ↔
      ∃ G, s.cycleGraph = .ok G ∧ ∃ found,
        G.cycles configuration.limits configuration.budget = .ok found ∧
        ⟨G.fingerprint, configuration.limits, found⟩ = r := by
  simp only [cyclesReport, bind_eq_ok, mapError_eq_ok, pure, Except.pure, Except.ok.injEq]

theorem exists_cyclesReport (accepted : s.componentSet = .ok cs) (limits : CycleLimits) :
    ∃ r, s.cyclesReport ⟨limits, .unbounded⟩ = .ok r := by
  obtain ⟨_, G, _, hG, _⟩ := exists_graphs accepted
  obtain ⟨_, _, cut⟩ := G.exists_exhausts
  exact ⟨_, cyclesReport_eq_ok.mpr ⟨G, hG, _, cut limits, rfl⟩⟩

/-- Once a report is made, there is one under any limits, and all of them cut the same list. -/
theorem exhausts_of_reported {configuration : Configuration} {r : CyclesReport}
    (reported : s.cyclesReport configuration = .ok r) :
    ∃ cs, s.componentSet = .ok cs ∧ ∃ (g : ComponentGraph cs) (G : Graph String Dependency),
      s.Derived g G ∧ ∃ all, G.Exhausts all ∧ ∀ limits,
        s.cyclesReport { configuration with limits } = .ok
          { fingerprint := G.fingerprint
            limits
            found := (Capped.cut limits.maxCycles all).map (G.cycleOf limits.maxEdgesPerStep) } := by
  obtain ⟨G, hG, found, detected, _⟩ := cyclesReport_eq_ok.mp reported
  obtain ⟨cs, accepted, _⟩ := bind_eq_ok.mp hG
  obtain ⟨g, G', _, hG', derived⟩ := exists_graphs accepted
  cases hG.symm.trans hG'
  obtain ⟨all, exhausts, cut⟩ := G.exhausts_of_cycles_eq_ok detected
  refine ⟨cs, accepted, g, G, derived, all, exhausts, ?_⟩
  intro limits
  exact cyclesReport_eq_ok.mpr ⟨G, hG, _, cut limits, rfl⟩

end Snapshot

theorem CyclesReport.denial?_eq_none_iff (r : CyclesReport) :
    r.denial? = none ↔ r.found.items = [] := by
  rw [denial?, ← List.isEmpty_iff]
  split <;> simp [*]

/-- The run failed because of cycles. -/
def Outcome.Denied (outcome : Outcome) : Prop :=
  ∃ n truncated, outcome.trouble = some (.denied n truncated)

theorem CyclesReport.denied_iff (r : CyclesReport) (output : String) :
    (Outcome.mk output r.denial?).Denied ↔ r.found.items ≠ [] := by
  rw [ne_eq, ← r.denial?_eq_none_iff, Outcome.Denied, denial?]
  split <;> simp

theorem CyclesReport.outcome_deny (r : CyclesReport) (written : String) :
    r.deny.outcome written = ⟨written, r.denial?⟩ := by
  rw [deny]
  cases r.denial? with
  | none => exact Run.outcome_pure
  | some trouble => exact Run.outcome_throw trouble

/-- The report has been written by the time the cycles are denied. -/
theorem Command.run_deny {s : Snapshot} {configuration : Configuration} {r : CyclesReport}
    (reported : s.cyclesReport configuration = .ok r) (format : OutputFormat) (tools : Toolkit) :
    (Command.cycles true).run format configuration s tools =
      ⟨format.render r tools.print, r.denial?⟩ := by
  rw [Command.run, Command.steps, reported, Run.outcome_ok_bind, Run.outcome_write_bind, if_pos rfl,
    r.outcome_deny, String.empty_append]

namespace Snapshot

variable {s : Snapshot}

/-- If there is a report, then a run that denies cycles fails on the snapshots with a ring, under
whatever limits and with whatever tools, and passes on all others. -/
theorem denied_iff_ring {configuration : Configuration} {r : CyclesReport}
    (reported : s.cyclesReport configuration = .ok r) :
    (r.found.items = [] ↔ ¬ s.Ring) ∧
    (∀ cycle ∈ r.found.items, ∃ a ∈ s.components, ∃ b ∈ s.components,
      a.id ≠ b.id ∧ a.id ∈ cycle.nodes ∧ b.id ∈ cycle.nodes) ∧
    ∀ limits format tools,
      (((Command.cycles true).run format { configuration with limits } s tools).Denied ↔ s.Ring) ∧
      (((Command.cycles true).run format { configuration with limits } s tools).trouble = none ↔
        ¬ s.Ring) := by
  obtain ⟨cs, accepted, g, G, derived, all, exhausts, cut⟩ := exhausts_of_reported reported
  have empty_iff : ∀ limits : CycleLimits,
      ((Capped.cut limits.maxCycles all).map (G.cycleOf limits.maxEdgesPerStep)).items = [] ↔
        ¬ s.Ring := by
    intro limits
    rw [Capped.items_map, List.map_eq_nil_iff, Capped.items_cut_eq_nil_iff limits.maxCycles_pos,
      exhausts.eq_nil_iff, derived.acyclic_iff accepted]
  cases reported.symm.trans (cut configuration.limits)
  refine ⟨empty_iff configuration.limits, ?_, ?_⟩
  · intro cycle hcycle
    obtain ⟨c, hc, rfl⟩ := List.mem_map.mp hcycle
    exact derived.exists_two accepted _ ((exhausts.mem_iff c).mp (List.mem_of_mem_take hc))
  · intro limits format tools
    rw [Command.run_deny (cut limits), CyclesReport.denied_iff, CyclesReport.denial?_eq_none_iff,
      ne_eq, empty_iff limits, not_not]
    exact ⟨Iff.rfl, Iff.rfl⟩

/-- Two of three components depend on each other through an element that they share. -/
def entangled : Snapshot where
  components :=
    [⟨"a", [{ name := "x" }, { name := "u" }]⟩, ⟨"b", [{ name := "u" }]⟩, ⟨"c", [{ name := "z" }]⟩]
  dependencies :=
    [{ origin := "x", target := "z" }, { origin := "u", target := "u" }]

theorem denied_iff_ring_entangled :
    ∃ r, entangled.cyclesReport ⟨.default, .unbounded⟩ = .ok r ∧ entangled.Ring ∧
      r.found.items ≠ [] ∧
      ∀ limits format, ((Command.cycles true).run format ⟨limits, .unbounded⟩ entangled).Denied := by
  have accepted : ∃ cs, entangled.componentSet = .ok cs := by
    apply Components.exists_ofList
    · decide
    · decide
  obtain ⟨cs, accepted⟩ := accepted
  obtain ⟨r, reported⟩ := exists_cyclesReport accepted .default
  obtain ⟨empty_iff, _, decision⟩ := denied_iff_ring reported
  have there : entangled.Crosses ⟨"a", [{ name := "x" }, { name := "u" }]⟩
      ⟨"b", [{ name := "u" }]⟩ := ⟨by decide, by decide, by decide, by decide⟩
  have back : entangled.Crosses ⟨"b", [{ name := "u" }]⟩
      ⟨"a", [{ name := "x" }, { name := "u" }]⟩ := ⟨by decide, by decide, by decide, by decide⟩
  have ring : entangled.Ring := ring_iff.mpr ⟨_, (TransGen.single there).tail back⟩
  refine ⟨r, reported, ring, ?_, ?_⟩
  · intro empty
    exact empty_iff.mp empty ring
  · intro limits format
    exact (decision limits format .own).1.mpr ring

end Snapshot

end Coupling
