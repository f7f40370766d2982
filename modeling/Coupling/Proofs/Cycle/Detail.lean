import Coupling.Proofs.Cycle.Detection
import Coupling.Proofs.Graph.Parallel

/-!
# The detail of reported cycles

The cap on edges decides how many descriptors a step lists and nothing else. A step tells how many
edges are listed between its ends and shows the first of them (`CycleStep.Describes`), and the
report under a cap is the report under any larger one with its steps shortened.
-/

namespace Coupling

variable {ν δ : Type}

namespace CycleStep

/-- What a step tells under every cap. -/
def outline (step : CycleStep ν δ) : ν × ν × Nat := (step.source, step.target, step.totalEdges)

def shorten (cap : Nat) (step : CycleStep ν δ) : CycleStep ν δ :=
  { step with edges := step.edges.take cap }

/-- What a step tells of the edges between its ends if at most `cap` of them are shown. -/
structure Describes [DecidableEq ν] (edges : List (ν × ν × δ)) (cap : Nat)
    (step : CycleStep ν δ) : Prop where
  total : step.totalEdges = (descriptorsBetween edges step.source step.target).length
  pos : 0 < step.totalEdges
  shown : step.edges =
    (descriptorsBetween edges step.source step.target).take (min cap step.totalEdges)
  shown_le : step.edges.length ≤ step.totalEdges
  suppressed : (step.suppressed : Int) = max 0 ((step.totalEdges : Int) - cap)

theorem Describes.of_take [DecidableEq ν] {edges : List (ν × ν × δ)} {cap : Nat}
    {step : CycleStep ν δ}
    (total : step.totalEdges = (descriptorsBetween edges step.source step.target).length)
    (pos : 0 < step.totalEdges)
    (shown : step.edges = (descriptorsBetween edges step.source step.target).take cap) :
    step.Describes edges cap := by
  have length : step.edges.length = min cap step.totalEdges := by
    rw [shown, List.length_take, total]
  refine ⟨total, pos, ?_, ?_, ?_⟩
  · rw [shown, total, ← List.take_eq_take_min]
  · omega
  · rw [CycleStep.suppressed]
    omega

end CycleStep

namespace Cycle

def outline (cycle : Cycle ν δ) : List (ν × ν × Nat) := cycle.steps.map CycleStep.outline

def shorten (cap : Nat) (cycle : Cycle ν δ) : Cycle ν δ := ⟨cycle.steps.map (CycleStep.shorten cap)⟩

/-- Every step leads to where the next one starts, the last one to where the first one does. -/
structure Closed (cycle : Cycle ν δ) : Prop where
  ne_nil : cycle.steps ≠ []
  joined : cycle.steps.map CycleStep.target = cycle.nodes.rotate 1

@[simp] theorem outline_shorten (cap : Nat) (cycle : Cycle ν δ) :
    (cycle.shorten cap).outline = cycle.outline := by
  rw [outline, shorten, List.map_map]
  rfl

end Cycle

theorem map_snd_closedPairs {α : Type} (c : List α) : (closedPairs c).map Prod.snd = c.rotate 1 := by
  rw [closedPairs_eq_zip_rotate, List.map_snd_zip (by simp)]

namespace Graph

section Steps

variable (g : Graph ν δ)

theorem shorten_cycleStep {cap cap' : Nat} (le : cap ≤ cap') (v w : Fin g.size) :
    (g.cycleStep cap' v w).shorten cap = g.cycleStep cap v w := by
  simp only [CycleStep.shorten, cycleStep, ← List.map_take, List.take_take, Nat.min_eq_left le]

theorem shorten_cycleOf {cap cap' : Nat} (le : cap ≤ cap') (c : List (Fin g.size)) :
    (g.cycleOf cap' c).shorten cap = g.cycleOf cap c := by
  simp only [Cycle.shorten, cycleOf, List.map_map, Function.comp_def, g.shorten_cycleStep le]

theorem cycleOf_closed (cap : Nat) {c : List (Fin g.size)} (circuit : ElementaryCircuit g.Arc c) :
    (g.cycleOf cap c).Closed where
  ne_nil empty := by
    apply circuit.ne_nil
    have nodes := g.nodes_cycleOf cap c
    rw [Cycle.nodes, empty] at nodes
    simpa using nodes.symm
  joined := by
    have targets : (g.cycleOf cap c).steps.map CycleStep.target =
        ((closedPairs c).map Prod.snd).map g.node := by
      simp [cycleOf, cycleStep]
    rw [targets, map_snd_closedPairs, nodes_cycleOf, List.map_rotate]

/-- A step in terms of the edges that are listed between its ends. -/
theorem cycleStep_eq [DecidableEq ν] (cap : Nat) (v w : Fin g.size) :
    g.cycleStep cap v w =
      let between := descriptorsBetween (g.edges.toList.map g.listed) (g.node v) (g.node w)
      { source := g.node v
        target := g.node w
        edges := between.take cap
        totalEdges := between.length } := by
  rw [cycleStep, List.map_take, g.map_edgesBetween, g.length_edgesBetween]

theorem describes_cycleStep [DecidableEq ν] (cap : Nat) {v w : Fin g.size} (arc : g.Arc v w) :
    (g.cycleStep cap v w).Describes (g.edges.toList.map g.listed) cap := by
  have pos : 0 < (g.cycleStep cap v w).totalEdges :=
    List.length_pos_iff.mpr ((g.edgesBetween_ne_nil v w).mpr arc)
  rw [cycleStep_eq] at pos ⊢
  exact .of_take rfl pos rfl

end Steps

/-- Of two reports under the same cap on cycles, the one under the smaller cap on edges is the other
one with its steps shortened; each shows the first of the edges that were given. -/
theorem cycles_under_edge_cap [DecidableEq ν] [Hashable ν] [Label ν] {nodes : List ν}
    {edges : List (ν × ν × δ)} {g : Graph ν δ} (built : ofLists nodes edges = .ok g)
    (limits limits' : CycleLimits) (same : limits.maxCycles = limits'.maxCycles)
    (le : limits.maxEdgesPerStep ≤ limits'.maxEdgesPerStep) :
    ∃ result result' : Capped (Cycle ν δ),
      g.cycles limits .unbounded = .ok result ∧ g.cycles limits' .unbounded = .ok result' ∧
      result.truncated = result'.truncated ∧
      result.items.map Cycle.outline = result'.items.map Cycle.outline ∧
      result.items = result'.items.map (Cycle.shorten limits.maxEdgesPerStep) ∧
      ∀ cycle ∈ result.items, cycle.Closed ∧
        ∀ step ∈ cycle.steps, step.Describes edges limits.maxEdgesPerStep := by
  obtain ⟨all, h, cut⟩ := g.exists_exhausts
  have shortened : (all.take limits.maxCycles).map (g.cycleOf limits.maxEdgesPerStep) =
      ((all.take limits'.maxCycles).map (g.cycleOf limits'.maxEdgesPerStep)).map
        (Cycle.shorten limits.maxEdgesPerStep) := by
    rw [same, List.map_map]
    apply List.map_congr_left
    intro c _
    exact (g.shorten_cycleOf le c).symm
  refine ⟨_, _, cut limits, cut limits', ?_, ?_, shortened, ?_⟩
  · rw [Capped.truncated_map, Capped.truncated_map, Capped.truncated_cut, Capped.truncated_cut, same]
  · rw [Capped.items_map, Capped.items_cut, shortened, List.map_map]
    apply List.map_congr_left
    intro cycle _
    exact cycle.outline_shorten _
  · intro cycle reported
    obtain ⟨c, hc, rfl⟩ := List.mem_map.mp reported
    have circuit := (h.mem_iff c).mp (List.mem_of_mem_take hc)
    refine ⟨g.cycleOf_closed _ circuit, ?_⟩
    intro step hstep
    obtain ⟨p, hp, rfl⟩ := List.mem_map.mp hstep
    have described := g.describes_cycleStep limits.maxEdgesPerStep (circuit.arcs p hp)
    rw [(ofLists_eq_ok built).2] at described
    exact described

/-- Parallel edges with others in between, and a self-loop. -/
def braid : List (String × String × Nat) :=
  [("a", "b", 0), ("b", "a", 1), ("a", "b", 2), ("a", "a", 3), ("a", "b", 4), ("a", "a", 5)]

/-- The default limits, but with one edge to a step. -/
def terse : CycleLimits :=
  { CycleLimits.default with
    maxEdgesPerStep := 1
    maxEdgesPerStep_pos := Nat.one_pos }

section Braid

variable {g : Graph String Nat} {u v : Fin g.size}

theorem exists_nodes_braid (nodes : g.nodes.toList = ["b", "a"]) :
    ∃ u v : Fin g.size, u < v ∧ g.node u = "b" ∧ g.node v = "a" ∧ ∀ w, w = u ∨ w = v := by
  have size : g.size = 2 := by simpa using congrArg List.length nodes
  have first := congrArg (fun l => l[0]?) nodes
  have second := congrArg (fun l => l[1]?) nodes
  refine ⟨⟨0, by omega⟩, ⟨1, by omega⟩, by simp, ?_, ?_, ?_⟩
  · simpa [node, size] using first
  · simpa [node, size] using second
  · intro w
    simp only [Fin.ext_iff]
    omega

theorem eq_nil_of_both (both : ∀ w, w = u ∨ w = v) {l : List (Fin g.size)} (not_u : u ∉ l)
    (not_v : v ∉ l) : l = [] := by
  rw [List.eq_nil_iff_forall_not_mem]
  intro w
  rcases both w with rfl | rfl
  · exact not_u
  · exact not_v

/-- The circuits are that of both nodes and that of the second one alone. -/
theorem elementaryCircuit_braid_iff (listed : g.edges.toList.map g.listed = braid) (lt : u < v)
    (first : g.node u = "b") (second : g.node v = "a") (both : ∀ w, w = u ∨ w = v)
    {c : List (Fin g.size)} : ElementaryCircuit g.Arc c ↔ c = [u, v] ∨ c = [v] := by
  have there : g.Arc u v := by simp [arc_iff_listed, listed, first, second, braid]
  have back : g.Arc v u := by simp [arc_iff_listed, listed, first, second, braid]
  have loop : g.Arc v v := by simp [arc_iff_listed, listed, second, braid]
  have none : ¬ g.Arc u u := by simp [arc_iff_listed, listed, first, braid]
  constructor
  · intro h
    obtain ⟨x, l, rfl⟩ := List.exists_cons_of_ne_nil h.ne_nil
    obtain ⟨nodup, walk, least⟩ := elementaryCircuit_cons.mp h
    have fresh := (List.nodup_cons.mp nodup).1
    rcases both x with rfl | rfl
    · -- the walk goes on to the only other node, and then there is none left
      rcases l with _ | ⟨y, l⟩
      · exact absurd (List.isChain_pair.mp walk) none
      · rcases both y with rfl | rfl
        · exact absurd List.mem_cons_self fresh
        · have fresh' := (List.nodup_cons.mp (List.nodup_cons.mp nodup).2).1
          have rest : l = [] :=
            eq_nil_of_both both (fun mem => fresh (List.mem_cons_of_mem _ mem)) fresh'
          exact Or.inl (by rw [rest])
    · have rest : l = [] :=
        eq_nil_of_both both (fun mem => absurd (least _ mem) (not_le.mpr lt)) fresh
      exact Or.inr (by rw [rest])
  · rintro (rfl | rfl)
    · rw [elementaryCircuit_cons]
      simp [lt.ne, lt.le, there, back]
    · rw [elementaryCircuit_cons]
      simp [loop]

end Braid

/-- The steps list one edge each, and count three edges from one node to the other and two from that
node to itself. -/
theorem cycles_under_edge_cap_braid :
    ∃ g : Graph String Nat, ofLists ["b", "a", "b"] braid = .ok g ∧
      terse.maxCycles = CycleLimits.default.maxCycles ∧
      terse.maxEdgesPerStep ≤ CycleLimits.default.maxEdgesPerStep ∧
      ∃ result result' : Capped (Cycle String Nat),
        g.cycles terse .unbounded = .ok result ∧ g.cycles .default .unbounded = .ok result' ∧
        result.truncated = result'.truncated ∧
        result.items.map Cycle.outline = result'.items.map Cycle.outline ∧
        result.items = result'.items.map (Cycle.shorten terse.maxEdgesPerStep) ∧
        (∀ cycle ∈ result.items, cycle.Closed ∧
          ∀ step ∈ cycle.steps, step.Describes braid terse.maxEdgesPerStep) ∧
        result.items.Perm [⟨[⟨"b", "a", [1], 1⟩, ⟨"a", "b", [0], 3⟩]⟩, ⟨[⟨"a", "a", [3], 2⟩]⟩] := by
  have known : ∀ edge ∈ braid, edge.1 ∈ ["b", "a", "b"] ∧ edge.2.1 ∈ ["b", "a", "b"] := by
    decide
  obtain ⟨g, built⟩ := exists_ofLists known
  have same : terse.maxCycles = CycleLimits.default.maxCycles := rfl
  have le : terse.maxEdgesPerStep ≤ CycleLimits.default.maxEdgesPerStep := by decide
  obtain ⟨result, result', short, long, truncated, outlines, shortened, told⟩ :=
    cycles_under_edge_cap built terse .default same le
  obtain ⟨nodes, listed⟩ := ofLists_eq_ok built
  obtain ⟨u, v, lt, first, second, both⟩ := exists_nodes_braid nodes
  obtain ⟨all, h, cut⟩ := g.exists_exhausts
  have circuits : all.Perm [[u, v], [v]] := by
    rw [List.perm_ext_iff_of_nodup h.nodup (by simp)]
    intro c
    rw [h.mem_iff, elementaryCircuit_braid_iff listed lt first second both]
    simp
  have whole : all.take terse.maxCycles = all := by
    apply List.take_of_length_le
    rw [circuits.length_eq]
    simp [terse, CycleLimits.default]
  have there : descriptorsBetween braid "a" "b" = [0, 2, 4] := by decide
  have back : descriptorsBetween braid "b" "a" = [1] := by decide
  have loop : descriptorsBetween braid "a" "a" = [3, 5] := by decide
  cases short.symm.trans (cut terse)
  refine ⟨g, built, same, le, _, result', short, long, truncated, outlines, shortened, told, ?_⟩
  have reported := circuits.map (g.cycleOf terse.maxEdgesPerStep)
  rw [Capped.items_map, Capped.items_cut, whole]
  simpa [cycleOf, closedPairs, cycleStep_eq, listed, first, second, there, back, loop, terse]
    using reported

end Graph

end Coupling
