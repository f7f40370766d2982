import Coupling.Proofs.Command.Denial
import Coupling.Proofs.Report.Layout
import Coupling.Proofs.Snapshot.Agreement

/-!
# All or nothing

A run writes its report or nothing. What keeps it from writing are obstacles on its way to the
report (`Invocation.Obstacle`), each of which stands in the way of the whole run, since all that can
fail is done before the first piece is written (`run_of_not_denied`); the denial of cycles alone
comes after the report, and changes nothing in it. The full report meets the obstacles of all
commands, which are those of the report of cycles (`Obstacle.of_doing`). Nothing is assumed of the
tools except that they answer: a reader may refuse any text, and the order of components may be any
list.
-/

namespace Coupling

theorem Graph.usedUp_of_sccs {ν δ : Type} {g : Graph ν δ} {budget : WorkBudget} {failure : Failure}
    (failed : g.sccs budget = .error failure) : budget.UsedUp failure :=
  Walk.usedUp_of_all (map_eq_error.mp failed)

namespace Snapshot

variable {s : Snapshot} {cs : Components Element} {configuration : Configuration}
  {failure : Failure} {trouble : Trouble}

/-! ## The reports of one snapshot -/

/-- The search for cycles runs out of the budget, which has this limit. -/
def Overworks (s : Snapshot) (budget : WorkBudget) (limit : Nat) : Prop :=
  budget.limit = some limit ∧
    ∃ G, s.cycleGraph = .ok G ∧ G.sccs budget = .error (.outOfWork limit)

theorem cycleGraph_eq_error : s.cycleGraph = .error failure ↔ s.componentSet = .error failure := by
  constructor
  · intro failed
    cases accepted : s.componentSet with
    | error failure' =>
      cases (cycleGraph_of_refused accepted).symm.trans failed
      rfl
    | ok cs =>
      obtain ⟨_, _, _, hG, _⟩ := exists_graphs accepted
      cases hG.symm.trans failed
  · exact cycleGraph_of_refused

theorem cyclesReport_eq_error :
    s.cyclesReport configuration = .error trouble ↔
      (∃ failure, s.componentSet = .error failure ∧ .failure failure = trouble) ∨
      ∃ limit, s.Overworks configuration.budget limit ∧ .aborted (.outOfWork limit) = trouble := by
  simp only [cyclesReport, bind_eq_error, mapError_eq_error, mapError_eq_ok, cycleGraph_eq_error,
    Graph.cycles, map_eq_error, pure, Except.pure, reduceCtorEq, and_false, exists_false, or_false]
  constructor
  · rintro (refused | ⟨G, hG, failure, exhausted, rfl⟩)
    · exact Or.inl refused
    · obtain ⟨limit, bounded, rfl⟩ := Graph.usedUp_of_sccs exhausted
      exact Or.inr ⟨limit, ⟨bounded, G, hG, exhausted⟩, rfl⟩
  · rintro (refused | ⟨limit, ⟨_, G, hG, exhausted⟩, rfl⟩)
    · exact Or.inl refused
    · exact Or.inr ⟨G, hG, _, exhausted, rfl⟩

theorem Overworks.exists_accepted {budget : WorkBudget} {limit : Nat}
    (overworks : s.Overworks budget limit) : ∃ cs, s.componentSet = .ok cs := by
  obtain ⟨_, G, hG, _⟩ := overworks
  obtain ⟨cs, accepted, _⟩ := bind_eq_ok.mp hG
  exact ⟨cs, accepted⟩

/-- Once the components are accepted, nothing keeps the metrics from being computed, and the full
report has them as the commands compute them; only the search for cycles is left of it. -/
theorem fullReport_of_accepted (accepted : s.componentSet = .ok cs) (pass : CondensationPass) :
    ∃ l c v, s.lakos pass = .ok l ∧ s.couplings = .ok c ∧ s.visibility = .ok v ∧
      ∀ configuration, s.fullReport configuration pass =
        (s.cyclesReport configuration).map fun r => ⟨l, c, v, r⟩ := by
  obtain ⟨g, _, hg, _⟩ := exists_graphs accepted
  have lakos : s.lakos pass = .ok (g.lakosAlong (pass _ g.successors)) := by
    rw [Snapshot.lakos, accepted]
    simp only [bind, Except.bind, hg, pure, Except.pure]
  have couplings : s.couplings = .ok (g.couplings Element.isVisible Element.isAbstract) := by
    rw [Snapshot.couplings, accepted]
    simp only [bind, Except.bind, hg, pure, Except.pure]
  have visibility : s.visibility = .ok (cs.visibility Element.isVisible) := by
    rw [Snapshot.visibility, accepted]
    rfl
  refine ⟨_, _, _, lakos, couplings, visibility, fun configuration => ?_⟩
  have components : s.componentSet.mapError Trouble.failure = .ok cs := by
    rw [accepted]
    rfl
  have graph : (s.componentGraph cs).mapError Trouble.failure = .ok g := by
    rw [hg]
    rfl
  rw [fullReport, components]
  simp only [bind, Except.bind, graph]
  cases s.cyclesReport configuration with
  | error trouble => rfl
  | ok r => rfl

theorem fullReport_of_refused (s : Snapshot) (configuration : Configuration)
    (pass : CondensationPass) (refused : s.componentSet = .error failure) :
    s.lakos pass = .error failure ∧ s.couplings = .error failure ∧
      s.visibility = .error failure ∧
      s.fullReport configuration pass = .error (.failure failure) := by
  refine ⟨?_, ?_, ?_, ?_⟩
  · rw [lakos, refused]
    rfl
  · rw [couplings, refused]
    rfl
  · rw [visibility, refused]
    rfl
  · rw [fullReport, refused]
    rfl

end Snapshot

/-! ## What a run has written -/

/-- The outcome of a run that writes what has been made for it, if it has been made. -/
def Outcome.ofExcept : Except Trouble String → Outcome
  | .ok output => ⟨output, none⟩
  | .error trouble => ⟨"", some trouble⟩

namespace Outcome

variable {x : Except Trouble String} {trouble : Trouble}

theorem trouble_ofExcept : (ofExcept x).trouble = some trouble ↔ x = .error trouble := by
  cases x with
  | error _ => simp [ofExcept]
  | ok _ => simp [ofExcept]

theorem output_ofExcept_eq (failed : (ofExcept x).trouble ≠ none) : (ofExcept x).output = "" := by
  cases x with
  | error _ => rfl
  | ok _ => exact absurd rfl failed

end Outcome

namespace Run

variable {α : Type}

/-- Trouble in the making of a report comes before any of it is written. -/
theorem outcome_report (x : Except Trouble α) (text : α → String) :
    outcome (liftM x >>= fun a => write (text a)) = .ofExcept (x.map text) := by
  cases x with
  | error trouble => exact outcome_error_bind trouble _
  | ok a =>
    rw [outcome_ok_bind, ← bind_pure (write (text a)), outcome_write_bind, outcome_pure,
      String.empty_append]
    rfl

end Run

/-! ## Commands -/

namespace Command

variable {s : Snapshot} {configuration : Configuration} {format : OutputFormat} {tools : Toolkit}
  {trouble : Trouble}

def SeeksCycles (command : Command) : Prop := command = .report ∨ ∃ deny, command = .cycles deny

/-- What a command writes if nothing is denied. -/
def result (command : Command) (format : OutputFormat) (configuration : Configuration)
    (s : Snapshot) (tools : Toolkit) : Except Trouble String :=
  match command with
  | .cycles _ => (s.cyclesReport configuration).map fun r => format.render r tools.print
  | .lakos =>
    ((s.lakos tools.condense).mapError .failure).map fun m => format.render m tools.print
  | .martin => (s.couplings.mapError .failure).map fun m => format.render m tools.print
  | .visibility => (s.visibility.mapError .failure).map fun m => format.render m tools.print
  | .report =>
    (s.fullReport configuration tools.condense).map fun r => format.render r tools.print

theorem result_of_refused {failure : Failure} (refused : s.componentSet = .error failure)
    (command : Command) :
    command.result format configuration s tools = .error (.failure failure) := by
  obtain ⟨lakos, couplings, visibility, full⟩ :=
    s.fullReport_of_refused configuration tools.condense refused
  cases command with
  | cycles _ =>
    have report : s.cyclesReport configuration = .error (.failure failure) :=
      Snapshot.cyclesReport_eq_error.mpr (Or.inl ⟨failure, refused, rfl⟩)
    rw [result, report]
    rfl
  | lakos =>
    rw [result, lakos]
    rfl
  | martin =>
    rw [result, couplings]
    rfl
  | visibility =>
    rw [result, visibility]
    rfl
  | report =>
    rw [result, full]
    rfl

theorem result_eq_error_iff_of_accepted {cs : Components Element}
    (accepted : s.componentSet = .ok cs) (command : Command) :
    command.result format configuration s tools = .error trouble ↔
      command.SeeksCycles ∧ s.cyclesReport configuration = .error trouble := by
  obtain ⟨l, c, v, lakos, couplings, visibility, full⟩ :=
    s.fullReport_of_accepted accepted tools.condense
  cases command with
  | cycles deny => simp [result, SeeksCycles, map_eq_error]
  | lakos => simp [result, SeeksCycles, lakos, mapError_eq_error, map_eq_error]
  | martin => simp [result, SeeksCycles, couplings, mapError_eq_error, map_eq_error]
  | visibility => simp [result, SeeksCycles, visibility, mapError_eq_error, map_eq_error]
  | report => simp [result, SeeksCycles, full, map_eq_error]

theorem result_eq_error (command : Command) :
    command.result format configuration s tools = .error trouble ↔
      (∃ failure, s.componentSet = .error failure ∧ .failure failure = trouble) ∨
      command.SeeksCycles ∧ ∃ limit, s.Overworks configuration.budget limit ∧
        .aborted (.outOfWork limit) = trouble := by
  cases decided : s.componentSet with
  | error failure =>
    have never : ∀ limit, ¬ s.Overworks configuration.budget limit := by
      intro limit overworks
      obtain ⟨cs, accepted⟩ := overworks.exists_accepted
      cases decided.symm.trans accepted
    rw [result_of_refused decided]
    simp [never]
  | ok cs =>
    rw [result_eq_error_iff_of_accepted decided, Snapshot.cyclesReport_eq_error, decided]
    simp

theorem run_of_not_denied {command : Command} (allowed : command ≠ .cycles true) :
    command.run format configuration s tools =
      .ofExcept (command.result format configuration s tools) := by
  cases command with
  | cycles deny =>
    have allowed : deny = false := by simpa using allowed
    subst allowed
    exact Run.outcome_report (s.cyclesReport configuration) fun r => format.render r tools.print
  | lakos => exact Run.outcome_report _ _
  | martin => exact Run.outcome_report _ _
  | visibility => exact Run.outcome_report _ _
  | report => exact Run.outcome_report _ _

end Command

/-! ## Runs -/

namespace Invocation

variable {i : Invocation} {around : Surroundings} {tools : Toolkit} {trouble : Trouble}

theorem root_eq_error {directory : WorkingDirectory} :
    i.root directory = .error trouble ↔ i.project = none ∧ ∃ complaint,
      directory = .unknown complaint ∧ .unreadable (.workingDirectory complaint) = trouble := by
  cases given : i.project with
  | some project => simp [root, given]
  | none =>
    cases directory with
    | known path => simp [root, given]
    | unknown complaint => simp [root, given]

/-- The run gets as far as to do its command on this snapshot. -/
structure Reaches (i : Invocation) (around : Surroundings) (tools : Toolkit)
    (configuration : Configuration) (s : Snapshot) : Prop where
  configured : i.configuration around tools = .ok configuration
  loaded : Snapshot.load i.snapshot (around.file i.snapshot) tools.readSnapshot = .ok s

/-- What keeps a run from writing its report. The first two keep it from its configuration. -/
inductive Obstacle (i : Invocation) (around : Surroundings) (tools : Toolkit) : Trouble → Prop where
  | directory {complaint : String} (given : i.project = none)
      (unknown : around.directory = .unknown complaint) :
      Obstacle i around tools (.unreadable (.workingDirectory complaint))
  | configuration {root : String} {trouble : Trouble}
      (rooted : i.root around.directory = .ok root)
      (failed : i.configurationBelow root around tools = .error trouble) :
      Obstacle i around tools trouble
  | loading {configuration : Configuration} {trouble : Trouble}
      (configured : i.configuration around tools = .ok configuration)
      (failed : Snapshot.load i.snapshot (around.file i.snapshot) tools.readSnapshot =
        .error trouble) :
      Obstacle i around tools trouble
  | components {configuration : Configuration} {s : Snapshot} {failure : Failure}
      (reaches : i.Reaches around tools configuration s)
      (refused : s.componentSet = .error failure) :
      Obstacle i around tools (.failure failure)
  | budget {configuration : Configuration} {s : Snapshot} {limit : Nat}
      (reaches : i.Reaches around tools configuration s) (seeks : i.command.SeeksCycles)
      (overworks : s.Overworks configuration.budget limit) :
      Obstacle i around tools (.aborted (.outOfWork limit))

/-- What the run writes if nothing is denied. -/
def result (i : Invocation) (around : Surroundings) (tools : Toolkit) : Except Trouble String := do
  let configuration ← i.configuration around tools
  let s ← Snapshot.load i.snapshot (around.file i.snapshot) tools.readSnapshot
  i.command.result i.format configuration s tools

theorem configuration_eq_error :
    i.configuration around tools = .error trouble ↔
      (i.project = none ∧ ∃ complaint, around.directory = .unknown complaint ∧
        .unreadable (.workingDirectory complaint) = trouble) ∨
      ∃ root, i.root around.directory = .ok root ∧
        i.configurationBelow root around tools = .error trouble := by
  rw [configuration, bind_eq_error, root_eq_error]

theorem result_eq_error :
    i.result around tools = .error trouble ↔ i.Obstacle around tools trouble := by
  simp only [result, bind_eq_error, configuration_eq_error, Command.result_eq_error]
  constructor
  · rintro ((⟨given, complaint, unknown, rfl⟩ | ⟨root, rooted, failed⟩) | ⟨configuration,
      configured, failed | ⟨s, loaded, ⟨failure, refused, rfl⟩ | ⟨seeks, limit, overworks, rfl⟩⟩⟩)
    · exact .directory given unknown
    · exact .configuration rooted failed
    · exact .loading configured failed
    · exact .components ⟨configured, loaded⟩ refused
    · exact .budget ⟨configured, loaded⟩ seeks overworks
  · intro obstacle
    cases obstacle with
    | directory given unknown => exact Or.inl (Or.inl ⟨given, _, unknown, rfl⟩)
    | configuration rooted failed => exact Or.inl (Or.inr ⟨_, rooted, failed⟩)
    | loading configured failed => exact Or.inr ⟨_, configured, Or.inl failed⟩
    | components reaches refused =>
      exact Or.inr ⟨_, reaches.configured, Or.inr ⟨_, reaches.loaded, Or.inl ⟨_, refused, rfl⟩⟩⟩
    | budget reaches seeks overworks =>
      exact Or.inr ⟨_, reaches.configured, Or.inr ⟨_, reaches.loaded,
        Or.inr ⟨seeks, _, overworks, rfl⟩⟩⟩

/-- The run denies cycles, and its report has some. -/
def MeetsDenial (i : Invocation) (around : Surroundings) (tools : Toolkit) : Prop :=
  i.command = .cycles true ∧ ∃ configuration s r, i.Reaches around tools configuration s ∧
    s.cyclesReport configuration = .ok r ∧ r.found.items ≠ []

/-- The same run, but with another command. -/
def doing (i : Invocation) (command : Command) : Invocation := { i with command }

theorem Reaches.doing {configuration : Configuration} {s : Snapshot}
    (reaches : i.Reaches around tools configuration s) (command : Command) :
    (i.doing command).Reaches around tools configuration s :=
  ⟨reaches.configured, reaches.loaded⟩

theorem Reaches.run {configuration : Configuration} {s : Snapshot}
    (reaches : i.Reaches around tools configuration s) :
    i.run around tools = i.command.run i.format configuration s tools := by
  rw [Invocation.run, steps, reaches.configured, Run.outcome_ok_bind, reaches.loaded,
    Run.outcome_ok_bind]
  rfl

theorem Reaches.result {configuration : Configuration} {s : Snapshot}
    (reaches : i.Reaches around tools configuration s) :
    i.result around tools = i.command.result i.format configuration s tools := by
  rw [Invocation.result, reaches.configured]
  simp only [bind, Except.bind, reaches.loaded]

theorem Reaches.run_doing {configuration : Configuration} {s : Snapshot}
    (reaches : i.Reaches around tools configuration s) (command : Command)
    (allowed : command ≠ .cycles true) :
    (i.doing command).run around tools =
      .ofExcept (command.result i.format configuration s tools) :=
  (reaches.doing command).run.trans (Command.run_of_not_denied allowed)

theorem run_of_not_configured (failed : i.configuration around tools = .error trouble) :
    i.run around tools = ⟨"", some trouble⟩ := by
  rw [run, steps, failed, Run.outcome_error_bind]

theorem run_of_not_loaded {configuration : Configuration}
    (configured : i.configuration around tools = .ok configuration)
    (failed : Snapshot.load i.snapshot (around.file i.snapshot) tools.readSnapshot =
      .error trouble) :
    i.run around tools = ⟨"", some trouble⟩ := by
  rw [run, steps, configured, Run.outcome_ok_bind, failed, Run.outcome_error_bind]

/-- All that can fail before a denial is done before anything is written. -/
theorem run_of_not_denied (allowed : ¬ i.MeetsDenial around tools) :
    i.run around tools = .ofExcept (i.result around tools) := by
  cases configured : i.configuration around tools with
  | error trouble =>
    rw [run_of_not_configured configured, result, configured]
    rfl
  | ok configuration =>
    cases loaded : Snapshot.load i.snapshot (around.file i.snapshot) tools.readSnapshot with
    | error trouble =>
      rw [run_of_not_loaded configured loaded, result, configured]
      simp only [bind, Except.bind, loaded]
      rfl
    | ok s =>
      have reaches : i.Reaches around tools configuration s := ⟨configured, loaded⟩
      rw [reaches.run, reaches.result]
      by_cases denies : i.command = .cycles true
      · rw [denies]
        cases reported : s.cyclesReport configuration with
        | error trouble =>
          rw [Command.run, Command.steps, Command.result, reported, Run.outcome_error_bind]
          rfl
        | ok r =>
          have passed : r.denial? = none := by
            rw [r.denial?_eq_none_iff]
            by_contra listed
            exact allowed ⟨denies, configuration, s, r, reaches, reported, listed⟩
          rw [Command.run_deny reported, passed, Command.result, reported]
          rfl
      · exact Command.run_of_not_denied denies

theorem MeetsDenial.run (denied : i.MeetsDenial around tools) :
    (i.run around tools).trouble ≠ none ∧
      (i.doing (.cycles false)).run around tools = ⟨(i.run around tools).output, none⟩ := by
  obtain ⟨denies, configuration, s, r, reaches, reported, listed⟩ := denied
  rw [reaches.run, denies, Command.run_deny reported,
    reaches.run_doing (.cycles false) (by decide), Command.result, reported]
  refine ⟨?_, rfl⟩
  rwa [ne_eq, r.denial?_eq_none_iff]

theorem trouble_eq_some_iff (allowed : ¬ i.MeetsDenial around tools) :
    (i.run around tools).trouble = some trouble ↔ i.Obstacle around tools trouble := by
  rw [run_of_not_denied allowed, Outcome.trouble_ofExcept, result_eq_error]

/-- A command that seeks cycles meets every obstacle. -/
theorem Obstacle.of_doing {command command' : Command}
    (seeks : command.SeeksCycles → command'.SeeksCycles)
    (obstacle : (i.doing command).Obstacle around tools trouble) :
    (i.doing command').Obstacle around tools trouble := by
  cases obstacle with
  | directory given unknown => exact .directory given unknown
  | configuration rooted failed => exact .configuration rooted failed
  | loading configured failed => exact .loading configured failed
  | components reaches refused => exact .components (reaches.doing command') refused
  | budget reaches seeks' overworks =>
    exact .budget (reaches.doing command') (seeks seeks') overworks

theorem exists_reaches (succeeds : (i.run around tools).trouble = none) :
    ∃ configuration s, i.Reaches around tools configuration s := by
  cases configured : i.configuration around tools with
  | error trouble =>
    rw [run_of_not_configured configured] at succeeds
    cases succeeds
  | ok configuration =>
    cases loaded : Snapshot.load i.snapshot (around.file i.snapshot) tools.readSnapshot with
    | error trouble =>
      rw [run_of_not_loaded configured loaded] at succeeds
      cases succeeds
    | ok s => exact ⟨configuration, s, configured, loaded⟩

/-- Where the full report is written, each command writes its part of it. -/
theorem exists_reports (succeeds : ((i.doing .report).run around tools).trouble = none) :
    ∃ r : FullReport,
      (i.doing .report).run around tools = ⟨i.format.render r tools.print, none⟩ ∧
      (i.doing .lakos).run around tools = ⟨i.format.render r.lakos tools.print, none⟩ ∧
      (i.doing .martin).run around tools = ⟨i.format.render r.couplings tools.print, none⟩ ∧
      (i.doing .visibility).run around tools =
        ⟨i.format.render r.visibility tools.print, none⟩ ∧
      (i.doing (.cycles false)).run around tools =
        ⟨i.format.render r.cycles tools.print, none⟩ := by
  obtain ⟨configuration, s, configured, loaded⟩ := exists_reaches succeeds
  have reaches : i.Reaches around tools configuration s := ⟨configured, loaded⟩
  rw [reaches.run_doing .report (by decide), Command.result] at succeeds
  rw [reaches.run_doing .report (by decide), reaches.run_doing .lakos (by decide),
    reaches.run_doing .martin (by decide), reaches.run_doing .visibility (by decide),
    reaches.run_doing (.cycles false) (by decide)]
  simp only [Command.result]
  cases decided : s.componentSet with
  | error failure =>
    obtain ⟨_, _, _, full⟩ := s.fullReport_of_refused configuration tools.condense decided
    rw [full] at succeeds
    cases succeeds
  | ok cs =>
    obtain ⟨l, c, v, lakos, couplings, visibility, full⟩ :=
      s.fullReport_of_accepted decided tools.condense
    cases reported : s.cyclesReport configuration with
    | error trouble =>
      rw [full, reported] at succeeds
      cases succeeds
    | ok r =>
      rw [full, lakos, couplings, visibility, reported]
      exact ⟨⟨l, c, v, r⟩, rfl, rfl, rfl, rfl, rfl⟩

/-- A run that fails writes nothing, and what makes it fail is an obstacle on its way to the report,
unless cycles are denied and there are some: then it writes what it would have written otherwise.
The full report is written where the report of cycles is; then every command writes its part of it,
and for readers it consists of these parts. -/
theorem run_all_or_nothing (i : Invocation) (around : Surroundings) (tools : Toolkit) :
    (¬ i.MeetsDenial around tools →
      (∀ trouble,
        (i.run around tools).trouble = some trouble ↔ i.Obstacle around tools trouble) ∧
      ((i.run around tools).trouble ≠ none → (i.run around tools).output = "")) ∧
    (i.MeetsDenial around tools →
      (i.run around tools).trouble ≠ none ∧
      (i.doing (.cycles false)).run around tools = ⟨(i.run around tools).output, none⟩) ∧
    (((i.doing .report).run around tools).trouble = none ↔
      ((i.doing (.cycles false)).run around tools).trouble = none) ∧
    (((i.doing .report).run around tools).trouble = none →
      ((i.doing .lakos).run around tools).trouble = none ∧
      ((i.doing .martin).run around tools).trouble = none ∧
      ((i.doing .visibility).run around tools).trouble = none ∧
      (i.format = .plain →
        Layout.Spaced
          [((i.doing .lakos).run around tools).output, ((i.doing .martin).run around tools).output,
            ((i.doing .visibility).run around tools).output,
            ((i.doing (.cycles false)).run around tools).output]
          ((i.doing .report).run around tools).output)) := by
  have reporting : ¬ (i.doing .report).MeetsDenial around tools := by
    rintro ⟨denies, _⟩
    cases denies
  have listing : ¬ (i.doing (.cycles false)).MeetsDenial around tools := by
    rintro ⟨denies, _⟩
    cases denies
  refine ⟨fun allowed => ⟨fun _ => trouble_eq_some_iff allowed, ?_⟩, MeetsDenial.run, ?_, ?_⟩
  · rw [run_of_not_denied allowed]
    exact Outcome.output_ofExcept_eq
  · have seeks : Command.report.SeeksCycles ↔ (Command.cycles false).SeeksCycles := by
      simp [Command.SeeksCycles]
    have same : ∀ trouble, (i.doing .report).Obstacle around tools trouble ↔
        (i.doing (.cycles false)).Obstacle around tools trouble :=
      fun _ => ⟨.of_doing seeks.mp, .of_doing seeks.mpr⟩
    simp only [Option.eq_none_iff_forall_ne_some, ne_eq, trouble_eq_some_iff reporting,
      trouble_eq_some_iff listing, same]
  · intro succeeds
    obtain ⟨r, full, lakos, couplings, visibility, cycles⟩ := exists_reports succeeds
    rw [full, lakos, couplings, visibility, cycles]
    refine ⟨rfl, rfl, rfl, fun plain => ?_⟩
    rw [plain]
    exact Layout.spaced_fullReport r

/-- A directory with nothing but a snapshot of two components that depend on each other. -/
def besideTwoWay : Surroundings where
  directory := .known "/work"
  environment := {}
  file path :=
    if path = "two.json" then
      .text "[[[\"a\", [[\"x\"]]], [\"b\", [[\"y\"]]]], [[\"x\", \"y\"], [\"y\", \"x\"]]]"
    else .absent

def denyTwoWay : Invocation where
  command := .cycles true
  snapshot := "two.json"

theorem reaches_twoWay :
    denyTwoWay.Reaches besideTwoWay .own ⟨.default, .unbounded⟩ Snapshot.twoWay where
  configured := eq_ok_of_toOption (by decide +kernel)
  loaded := eq_ok_of_toOption (by decide +kernel)

theorem run_all_or_nothing_twoWay :
    denyTwoWay.MeetsDenial besideTwoWay .own ∧
    (denyTwoWay.doing (.cycles false)).run besideTwoWay =
      ⟨(denyTwoWay.run besideTwoWay).output, none⟩ ∧
    Layout.Spaced
      [((denyTwoWay.doing .lakos).run besideTwoWay).output,
        ((denyTwoWay.doing .martin).run besideTwoWay).output,
        ((denyTwoWay.doing .visibility).run besideTwoWay).output,
        ((denyTwoWay.doing (.cycles false)).run besideTwoWay).output]
      ((denyTwoWay.doing .report).run besideTwoWay).output := by
  obtain ⟨cs, accepted⟩ := Snapshot.exists_componentSet_twoWay
  obtain ⟨r, reported⟩ := Snapshot.exists_cyclesReport accepted .default
  have listed : r.found.items ≠ [] := by
    obtain ⟨cs, accepted, g, G, derived, all, exhausts, cut⟩ :=
      Snapshot.exhausts_of_reported reported
    cases reported.symm.trans (cut .default)
    have there : Snapshot.twoWay.Crosses ⟨"a", [{ name := "x" }]⟩ ⟨"b", [{ name := "y" }]⟩ :=
      ⟨by decide, by decide, by decide, by decide⟩
    have back : Snapshot.twoWay.Crosses ⟨"b", [{ name := "y" }]⟩ ⟨"a", [{ name := "x" }]⟩ :=
      ⟨by decide, by decide, by decide, by decide⟩
    have ring : Snapshot.twoWay.Ring :=
      Snapshot.ring_iff.mpr ⟨_, (Relation.TransGen.single there).tail back⟩
    rw [ne_eq, Capped.items_map, List.map_eq_nil_iff, Capped.items_cut_eq_nil_iff (by decide),
      exhausts.eq_nil_iff, derived.acyclic_iff accepted, not_not]
    exact ring
  have denied : denyTwoWay.MeetsDenial besideTwoWay .own :=
    ⟨rfl, _, _, r, reaches_twoWay, reported, listed⟩
  obtain ⟨-, deny, report_iff, report⟩ := denyTwoWay.run_all_or_nothing besideTwoWay .own
  obtain ⟨-, same⟩ := deny denied
  have succeeds : ((denyTwoWay.doing (.cycles false)).run besideTwoWay).trouble = none := by
    rw [same]
  obtain ⟨-, -, -, spaced⟩ := report (report_iff.mpr succeeds)
  exact ⟨denied, same, spaced rfl⟩

end Invocation

end Coupling
