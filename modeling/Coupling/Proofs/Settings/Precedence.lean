import Coupling.Proofs.Text.Integer
import Coupling.Settings.Basic

/-!
# Which source of a limit counts

`Sources.Gives` says which number the sources of a limit come to, and `Sources.Garbles` that they
come to a text that is no number; neither looks behind the first source that is there. The faults
of a configuration are ranked (`Misset`), and settings are refused for the one of least rank
(`resolve_eq_error`). As what is given and what is garbled depends on first sources alone, whatever
stands behind them may change without any effect (`resolve_of_agree`).
-/

namespace Coupling

/-- The sources of one limit; each outranks those behind it. -/
structure Sources where
  flag : Option Int
  text : Option String
  file : Option Int
  default : Nat

namespace Sources

variable {s s' : Sources} {i j : Int} {t t' name : String} {fault : SettingsFault}

/-- The first source gives a number. -/
inductive Gives (s : Sources) : Int → Prop where
  | flag {i : Int} (given : s.flag = some i) : Gives s i
  | text {t : String} {i : Int} (noFlag : s.flag = none) (given : s.text = some t)
    (read : Text.Numeral (Text.trim t.toList) i) : Gives s i
  | file {i : Int} (noFlag : s.flag = none) (noText : s.text = none) (given : s.file = some i) :
    Gives s i
  | default (noFlag : s.flag = none) (noText : s.text = none) (noFile : s.file = none) :
    Gives s s.default

/-- The first source is a text that stands for no number. -/
structure Garbles (s : Sources) (t : String) : Prop where
  noFlag : s.flag = none
  given : s.text = some t
  unread : ∀ i, ¬ Text.Numeral (Text.trim t.toList) i

/-- The first source that is there is the same. -/
def Agree (s s' : Sources) : Prop :=
  s.flag = s'.flag ∧ (s.flag = none →
    s.text = s'.text ∧ (s.text = none → s.file = s'.file ∧ s.default = s'.default))

theorem Gives.not_garbles (h : s.Gives i) : ¬ s.Garbles t := by
  intro garbled
  cases h with
  | flag given => simp [garbled.noFlag] at given
  | text _ given read =>
    cases garbled.given.symm.trans given
    exact garbled.unread _ read
  | file _ noText => simp [garbled.given] at noText
  | default _ noText => simp [garbled.given] at noText

theorem Garbles.unique (h : s.Garbles t) (h' : s.Garbles t') : t = t' :=
  Option.some.inj (h.given.symm.trans h'.given)

/-- What the sources come to, as the settings look at them. -/
def choose (s : Sources) (name : String) : Except SettingsFault Int :=
  chooseLimit s.flag name s.text s.file s.default

theorem choose_eq_ok : s.choose name = .ok i ↔ s.Gives i := by
  obtain ⟨flag, text, file, default⟩ := s
  unfold choose chooseLimit
  dsimp only
  constructor
  · intro chosen
    split at chosen
    next =>
      cases chosen
      exact .flag rfl
    next =>
      rw [readVariable, mapError_eq_ok, Text.readInteger_eq_ok] at chosen
      exact .text rfl rfl chosen
    next =>
      cases chosen
      exact .file rfl rfl rfl
    next =>
      cases chosen
      exact .default rfl rfl rfl
  · intro given
    cases given with
    | flag given =>
      cases given
      rfl
    | text noFlag given read =>
      cases noFlag
      cases given
      exact mapError_eq_ok.mpr (Text.readInteger_eq_ok.mpr read)
    | file noFlag noText given =>
      cases noFlag
      cases noText
      cases given
      rfl
    | default noFlag noText noFile =>
      cases noFlag
      cases noText
      cases noFile
      rfl

theorem Gives.unique (h : s.Gives i) (h' : s.Gives j) : i = j := by
  have chosen : s.choose "" = .ok i := choose_eq_ok.mpr h
  have chosen' : s.choose "" = .ok j := choose_eq_ok.mpr h'
  exact Except.ok.inj (chosen.symm.trans chosen')

theorem choose_eq_error : s.choose name = .error fault ↔
    ∃ t cause, s.Garbles t ∧ Text.readInteger (Text.trim t.toList) = .error cause ∧
      fault = .notAnInteger name t cause := by
  obtain ⟨flag, text, file, default⟩ := s
  unfold choose chooseLimit
  dsimp only
  constructor
  · intro refused
    split at refused
    next => cases refused
    next t =>
      obtain ⟨cause, read, rfl⟩ := mapError_eq_error.mp refused
      refine ⟨t, cause, ⟨rfl, rfl, fun i numeral => ?_⟩, read, rfl⟩
      rw [Text.readInteger_eq_ok.mpr numeral] at read
      cases read
    next => cases refused
    next => cases refused
  · rintro ⟨t, cause, garbled, read, rfl⟩
    cases garbled.noFlag
    cases garbled.given
    exact mapError_eq_error.mpr ⟨cause, read, rfl⟩

theorem Agree.choose_eq (h : s.Agree s') (name : String) : s.choose name = s'.choose name := by
  obtain ⟨flag, text, file, default⟩ := s
  obtain ⟨flag', text', file', default'⟩ := s'
  obtain ⟨flags, behind⟩ := h
  cases flags
  cases flag with
  | some i => rfl
  | none =>
    obtain ⟨texts, behind⟩ := behind rfl
    cases texts
    cases text with
    | some t => rfl
    | none =>
      obtain ⟨files, defaults⟩ := behind rfl
      cases files
      cases defaults
      rfl

theorem Agree.gives (h : s.Agree s') (given : s.Gives i) : s'.Gives i := by
  have chosen : s.choose "" = .ok i := choose_eq_ok.mpr given
  rw [h.choose_eq] at chosen
  exact choose_eq_ok.mp chosen

end Sources

/-! ## Checks -/

theorem CycleLimits.ofInts_eq_ok {i j : Int} {limits : CycleLimits} :
    ofInts i j = .ok limits ↔
      (limits.maxCycles : Int) = i ∧ (limits.maxEdgesPerStep : Int) = j := by
  have cycles := limits.maxCycles_pos
  have edges := limits.maxEdgesPerStep_pos
  unfold ofInts
  constructor
  · intro accepted
    split at accepted
    next =>
      split at accepted
      next =>
        cases accepted
        exact ⟨Int.toNat_of_nonneg (by omega), Int.toNat_of_nonneg (by omega)⟩
      next => cases accepted
    next => cases accepted
  · rintro ⟨rfl, rfl⟩
    rw [dif_pos (by omega), dif_pos (by omega)]
    rfl

theorem CycleLimits.ofInts_eq_error {i j : Int} {failure : Failure} :
    ofInts i j = .error failure ↔
      (i < 1 ∧ failure = .notPositive .maxCycles i) ∨
        (1 ≤ i ∧ j < 1 ∧ failure = .notPositive .maxEdgesPerStep j) := by
  unfold ofInts
  constructor
  · intro refused
    split at refused
    next cycles =>
      split at refused
      next => cases refused
      next edges =>
        cases refused
        exact Or.inr ⟨cycles, by omega, rfl⟩
    next cycles =>
      cases refused
      exact Or.inl ⟨by omega, rfl⟩
  · rintro (⟨low, rfl⟩ | ⟨cycles, low, rfl⟩)
    · rw [dif_neg (by omega)]
    · rw [dif_pos (by omega), dif_neg (by omega)]

namespace FileSettings

variable {file file' : FileSettings} {flags flags' : FlagSettings}
  {environment environment' : VariableSettings} {c c' : Configuration} {i j w : Int} {k l : Nat}
  {fault fault' : SettingsFault}

def cycleSources (file : FileSettings) (flags : FlagSettings) (environment : VariableSettings) :
    Sources :=
  ⟨flags.maxCycles, environment.maxCycles, file.maxCycles, 100⟩

def edgeSources (file : FileSettings) (flags : FlagSettings) (environment : VariableSettings) :
    Sources :=
  ⟨flags.maxEdgesPerStep, environment.maxEdgesPerStep, file.maxEdgesPerStep, 20⟩

/-- What is wrong with the settings, each fault with its rank. -/
inductive Misset (file : FileSettings) (flags : FlagSettings) (environment : VariableSettings) :
    Nat → SettingsFault → Prop where
  | cyclesText {t : String} {cause : Text.IntegerFault}
    (garbled : (file.cycleSources flags environment).Garbles t)
    (said : Text.readInteger (Text.trim t.toList) = .error cause) :
    Misset file flags environment 0 (.notAnInteger "STRATA_MAX_CYCLES" t cause)
  | edgesText {t : String} {cause : Text.IntegerFault}
    (garbled : (file.edgeSources flags environment).Garbles t)
    (said : Text.readInteger (Text.trim t.toList) = .error cause) :
    Misset file flags environment 1 (.notAnInteger "STRATA_MAX_EDGES_PER_STEP" t cause)
  | cycles {i : Int} (given : (file.cycleSources flags environment).Gives i) (low : i < 1) :
    Misset file flags environment 2 (.limits (.notPositive .maxCycles i))
  | edges {i : Int} (given : (file.edgeSources flags environment).Gives i) (low : i < 1) :
    Misset file flags environment 3 (.limits (.notPositive .maxEdgesPerStep i))
  | work {w : Int} (given : file.maxWork = some w) (low : w < 1) :
    Misset file flags environment 4 (.budget (.notPositive .maxWork w))

/-! ## The work budget -/

theorem budget_eq_ok {budget : WorkBudget} : file.budget = .ok budget ↔
    budget.limit.map Nat.cast = file.maxWork ∧ ∀ w ∈ file.maxWork, 1 ≤ w := by
  obtain ⟨limit⟩ := budget
  unfold FileSettings.budget
  cases file.maxWork with
  | none => simp [WorkBudget.unbounded, eq_comm]
  | some w =>
    simp only [mapError_eq_ok, WorkBudget.bounded, Option.map_eq_some_iff, Option.mem_some_iff,
      forall_eq']
    constructor
    · intro accepted
      split at accepted
      next positive =>
        cases accepted
        exact ⟨⟨w.toNat, rfl, Int.toNat_of_nonneg (by omega)⟩, positive⟩
      next => cases accepted
    · rintro ⟨⟨n, rfl, rfl⟩, positive⟩
      rw [if_pos (by omega)]
      rfl

theorem budget_eq_error : file.budget = .error fault ↔
    ∃ w, file.maxWork = some w ∧ w < 1 ∧ fault = .budget (.notPositive .maxWork w) := by
  unfold FileSettings.budget
  cases file.maxWork with
  | none => simp
  | some w =>
    simp only [mapError_eq_error, WorkBudget.bounded, Option.some.injEq]
    constructor
    · rintro ⟨failure, refused, rfl⟩
      split at refused
      next => cases refused
      next low =>
        cases refused
        exact ⟨w, rfl, by omega, rfl⟩
    · rintro ⟨_, rfl, low, rfl⟩
      exact ⟨_, by rw [if_neg (by omega)], rfl⟩

/-! ## Resolving -/

theorem resolve_eq : file.resolve flags environment = do
    let maxCycles ← (file.cycleSources flags environment).choose maxCyclesVariable
    let maxEdgesPerStep ← (file.edgeSources flags environment).choose maxEdgesPerStepVariable
    let limits ← (CycleLimits.ofInts maxCycles maxEdgesPerStep).mapError .limits
    return { limits, budget := ← file.budget } := rfl

theorem resolve_eq_ok : file.resolve flags environment = .ok c ↔
    (file.cycleSources flags environment).Gives c.limits.maxCycles ∧
      (file.edgeSources flags environment).Gives c.limits.maxEdgesPerStep ∧
      c.budget.limit.map Nat.cast = file.maxWork ∧ ∀ w ∈ file.maxWork, 1 ≤ w := by
  simp only [resolve_eq, bind_eq_ok, Sources.choose_eq_ok, mapError_eq_ok,
    CycleLimits.ofInts_eq_ok, budget_eq_ok, pure, Except.pure, Except.ok.injEq]
  constructor
  · rintro ⟨_, cycles, _, edges, limits, ⟨rfl, rfl⟩, budget, work, rfl⟩
    exact ⟨cycles, edges, work⟩
  · rintro ⟨cycles, edges, work⟩
    exact ⟨_, cycles, _, edges, c.limits, ⟨rfl, rfl⟩, c.budget, work, rfl⟩

theorem Misset.one_le (h : Misset file flags environment k fault)
    (cycles : (file.cycleSources flags environment).Gives i) : 1 ≤ k := by
  cases h with
  | cyclesText garbled => exact absurd garbled cycles.not_garbles
  | _ => omega

theorem Misset.two_le (h : Misset file flags environment k fault)
    (cycles : (file.cycleSources flags environment).Gives i)
    (edges : (file.edgeSources flags environment).Gives j) : 2 ≤ k := by
  have past := h.one_le cycles
  cases h with
  | edgesText garbled => exact absurd garbled edges.not_garbles
  | _ => omega

theorem Misset.three_le (h : Misset file flags environment k fault)
    (cycles : (file.cycleSources flags environment).Gives i)
    (edges : (file.edgeSources flags environment).Gives j) (positive : 1 ≤ i) : 3 ≤ k := by
  have past := h.two_le cycles edges
  cases h with
  | cycles given =>
    cases given.unique cycles
    omega
  | _ => omega

theorem Misset.four_le (h : Misset file flags environment k fault)
    (cycles : (file.cycleSources flags environment).Gives i)
    (edges : (file.edgeSources flags environment).Gives j) (positive : 1 ≤ i)
    (positive' : 1 ≤ j) : 4 ≤ k := by
  have past := h.three_le cycles edges positive
  cases h with
  | edges given =>
    cases given.unique edges
    omega
  | _ => omega

/-- Settings that are accepted have no fault. -/
theorem not_misset_of_ok (accepted : file.resolve flags environment = .ok c) :
    ¬ Misset file flags environment k fault := by
  obtain ⟨cycles, edges, _, work⟩ := resolve_eq_ok.mp accepted
  intro misset
  have past := misset.four_le cycles edges (by exact_mod_cast c.limits.maxCycles_pos)
    (by exact_mod_cast c.limits.maxEdgesPerStep_pos)
  cases misset with
  | work given low =>
    have positive := work _ given
    omega
  | _ => omega

theorem misset_of_error (refused : file.resolve flags environment = .error fault) :
    ∃ k, Misset file flags environment k fault ∧
      ∀ l < k, ∀ other, ¬ Misset file flags environment l other := by
  simp only [resolve_eq, bind_eq_error, Sources.choose_eq_error, Sources.choose_eq_ok,
    mapError_eq_error, mapError_eq_ok, CycleLimits.ofInts_eq_error, CycleLimits.ofInts_eq_ok,
    budget_eq_error] at refused
  -- one case for each place at which resolving stops; whatever has a smaller rank was passed before
  rcases refused with ⟨t, cause, garbled, said, rfl⟩ | ⟨i, cycles, refused⟩
  · exact ⟨0, .cyclesText garbled said, fun l lt => absurd lt (Nat.not_lt_zero l)⟩
  rcases refused with ⟨t, cause, garbled, said, rfl⟩ | ⟨j, edges, refused⟩
  · refine ⟨1, .edgesText garbled said, fun l lt other misset => ?_⟩
    exact absurd (misset.one_le cycles) (by omega)
  rcases refused with ⟨_, ⟨low, rfl⟩ | ⟨positive, low, rfl⟩, rfl⟩ | ⟨limits, ⟨rfl, rfl⟩, refused⟩
  · refine ⟨2, .cycles cycles low, fun l lt other misset => ?_⟩
    exact absurd (misset.two_le cycles edges) (by omega)
  · refine ⟨3, .edges edges low, fun l lt other misset => ?_⟩
    exact absurd (misset.three_le cycles edges positive) (by omega)
  rcases refused with ⟨w, given, low, rfl⟩ | ⟨_, _, refused⟩
  · refine ⟨4, .work given low, fun l lt other misset => ?_⟩
    have past := misset.four_le cycles edges (by exact_mod_cast limits.maxCycles_pos)
      (by exact_mod_cast limits.maxEdgesPerStep_pos)
    omega
  · cases refused

theorem Misset.unique (h : Misset file flags environment k fault)
    (h' : Misset file flags environment k fault') : fault = fault' := by
  cases h with
  | cyclesText garbled said =>
    cases h' with
    | cyclesText garbled' said' =>
      cases garbled.unique garbled'
      cases said.symm.trans said'
      rfl
  | edgesText garbled said =>
    cases h' with
    | edgesText garbled' said' =>
      cases garbled.unique garbled'
      cases said.symm.trans said'
      rfl
  | cycles given =>
    cases h' with
    | cycles given' => rw [given.unique given']
  | edges given =>
    cases h' with
    | edges given' => rw [given.unique given']
  | work given =>
    cases h' with
    | work given' =>
      cases given.symm.trans given'
      rfl

theorem resolve_eq_error : file.resolve flags environment = .error fault ↔
    ∃ k, Misset file flags environment k fault ∧
      ∀ l < k, ∀ other, ¬ Misset file flags environment l other := by
  constructor
  · exact misset_of_error
  · rintro ⟨k, misset, least⟩
    cases outcome : file.resolve flags environment with
    | ok c => exact absurd misset (not_misset_of_ok outcome)
    | error other =>
      obtain ⟨l, misset', least'⟩ := misset_of_error outcome
      have same : k = l := by
        rcases Nat.lt_trichotomy k l with lt | same | gt
        · exact absurd misset (least' k lt fault)
        · exact same
        · exact absurd misset' (least l gt other)
      subst same
      rw [misset.unique misset']

theorem resolve_of_agree
    (cycles : (file.cycleSources flags environment).Agree (file'.cycleSources flags' environment'))
    (edges : (file.edgeSources flags environment).Agree (file'.edgeSources flags' environment'))
    (work : file.maxWork = file'.maxWork) :
    file.resolve flags environment = file'.resolve flags' environment' := by
  have budget : file.budget = file'.budget := by
    rw [FileSettings.budget, FileSettings.budget, work]
  rw [resolve_eq, resolve_eq, cycles.choose_eq, edges.choose_eq, budget]

theorem resolve_succeeds_iff : (∃ c, file.resolve flags environment = .ok c) ↔
    ∃ i j, (file.cycleSources flags environment).Gives i ∧
      (file.edgeSources flags environment).Gives j ∧ 1 ≤ i ∧ 1 ≤ j ∧
      ∀ w ∈ file.maxWork, 1 ≤ w := by
  constructor
  · rintro ⟨c, accepted⟩
    obtain ⟨cycles, edges, _, work⟩ := resolve_eq_ok.mp accepted
    exact ⟨_, _, cycles, edges, by exact_mod_cast c.limits.maxCycles_pos,
      by exact_mod_cast c.limits.maxEdgesPerStep_pos, work⟩
  · rintro ⟨i, j, cycles, edges, positive, positive', work⟩
    have shown : i.toNat = i := Int.toNat_of_nonneg (by omega)
    have shown' : j.toNat = j := Int.toNat_of_nonneg (by omega)
    have limit : (file.maxWork.map Int.toNat).map Nat.cast = file.maxWork := by
      cases given : file.maxWork with
      | none => rfl
      | some w =>
        have positive := work w given
        exact congrArg some (Int.toNat_of_nonneg (by omega))
    refine ⟨⟨⟨i.toNat, j.toNat, by omega, by omega⟩, ⟨file.maxWork.map Int.toNat⟩⟩, ?_⟩
    refine resolve_eq_ok.mpr ⟨?_, ?_, limit, work⟩
    · rw [shown]
      exact cycles
    · rw [shown']
      exact edges

/-- A configuration carries what the first source of each limit gives, and the budget of the file;
there is one exactly if both numbers can be read and they and the budget are at least one; else the
fault of least rank is reported. Whatever stands behind the first source of a limit may change
without effect, and the sources of one limit have no effect on the value of the other. -/
theorem resolve_exact (file : FileSettings) (flags : FlagSettings)
    (environment : VariableSettings) :
    (∀ c, file.resolve flags environment = .ok c ↔
      (file.cycleSources flags environment).Gives c.limits.maxCycles ∧
        (file.edgeSources flags environment).Gives c.limits.maxEdgesPerStep ∧
        c.budget.limit.map Nat.cast = file.maxWork ∧ ∀ w ∈ file.maxWork, 1 ≤ w) ∧
    ((∃ c, file.resolve flags environment = .ok c) ↔
      ∃ i j, (file.cycleSources flags environment).Gives i ∧
        (file.edgeSources flags environment).Gives j ∧ 1 ≤ i ∧ 1 ≤ j ∧
        ∀ w ∈ file.maxWork, 1 ≤ w) ∧
    (∀ fault, file.resolve flags environment = .error fault ↔
      ∃ k, Misset file flags environment k fault ∧
        ∀ l < k, ∀ other, ¬ Misset file flags environment l other) ∧
    (∀ (file' : FileSettings) (flags' : FlagSettings) (environment' : VariableSettings),
      (file.cycleSources flags environment).Agree (file'.cycleSources flags' environment') →
      (file.edgeSources flags environment).Agree (file'.edgeSources flags' environment') →
      file.maxWork = file'.maxWork →
      file.resolve flags environment = file'.resolve flags' environment') ∧
    ∀ (file' : FileSettings) (flags' : FlagSettings) (environment' : VariableSettings) (c c'),
      file.resolve flags environment = .ok c → file'.resolve flags' environment' = .ok c' →
      ((file.cycleSources flags environment).Agree (file'.cycleSources flags' environment') →
        c.limits.maxCycles = c'.limits.maxCycles) ∧
      ((file.edgeSources flags environment).Agree (file'.edgeSources flags' environment') →
        c.limits.maxEdgesPerStep = c'.limits.maxEdgesPerStep) := by
  refine ⟨fun c => resolve_eq_ok, resolve_succeeds_iff, fun fault => resolve_eq_error,
    fun _ _ _ => resolve_of_agree, ?_⟩
  intro file' flags' environment' c c' accepted accepted'
  obtain ⟨cycles, edges, _⟩ := resolve_eq_ok.mp accepted
  obtain ⟨cycles', edges', _⟩ := resolve_eq_ok.mp accepted'
  constructor
  · intro agree
    exact_mod_cast (agree.gives cycles).unique cycles'
  · intro agree
    exact_mod_cast (agree.gives edges).unique edges'

/-- Behind a flag an unreadable text does no harm, nor do numbers in the file that are not
positive behind a flag or a text. -/
theorem resolve_exact_shadowed :
    ∃ c, resolve ⟨some 7, some 3, some 5000⟩ ⟨some 2, none⟩ ⟨none, some " 4 "⟩ = .ok c ∧
      resolve ⟨some 0, some (-1), some 5000⟩ ⟨some 2, none⟩ ⟨some "lots", some " 4 "⟩ = .ok c ∧
      c.limits.maxCycles = 2 ∧ c.limits.maxEdgesPerStep = 4 ∧ c.budget.limit = some 5000 := by
  have four : Text.Numeral (Text.trim " 4 ".toList) 4 :=
    Text.readInteger_eq_ok.mp (eq_ok_of_toOption (by decide +kernel))
  have positive : ∀ w ∈ some (5000 : Int), 1 ≤ w := by
    intro w given
    cases given
    decide
  obtain ⟨values, succeeds, _, unaffected, _⟩ :=
    resolve_exact ⟨some 7, some 3, some 5000⟩ ⟨some 2, none⟩ ⟨none, some " 4 "⟩
  obtain ⟨c, plain⟩ := succeeds.mpr
    ⟨2, 4, .flag rfl, .text rfl rfl four, by decide, by decide, positive⟩
  obtain ⟨cycles, edges, work, _⟩ := (values c).mp plain
  have same := unaffected ⟨some 0, some (-1), some 5000⟩ ⟨some 2, none⟩ ⟨some "lots", some " 4 "⟩
    ⟨rfl, fun absent => nomatch absent⟩ ⟨rfl, fun _ => ⟨rfl, fun absent => nomatch absent⟩⟩ rfl
  refine ⟨c, plain, same ▸ plain, ?_, ?_, ?_⟩
  · exact_mod_cast cycles.unique (.flag rfl)
  · exact_mod_cast edges.unique (.text rfl rfl four)
  · obtain ⟨n, limit, shown⟩ := Option.map_eq_some_iff.mp work
    rw [limit]
    exact congrArg some (by omega)

end FileSettings

end Coupling
