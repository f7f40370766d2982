import Coupling.Command.Run
import Coupling.Report.Full
import Coupling.Settings.Format
import Coupling.Snapshot.Format

/-!
# Commands

A command reads the settings of the project, then a snapshot, makes a report and writes it. What it
leaves to others stands in a `Toolkit`: reading and writing the notations of files and reports, and
the order of components in which their dependencies are added up.
-/

namespace Coupling

inductive Command where
  | cycles (deny : Bool)
  | lakos
  | martin
  | visibility
  | report
  deriving DecidableEq, Repr

inductive FileContent where
  | absent
  /-- Not to be read, or not text. -/
  | unreadable
  | text (content : String)
  deriving DecidableEq, Repr

/-- The directory a run starts in, unless the system refuses to name it. -/
inductive WorkingDirectory where
  | known (path : String)
  | unknown (complaint : String)
  deriving DecidableEq, Repr

instance : Coe String WorkingDirectory := ⟨.known⟩

/-- What a command is asked to do. -/
structure Invocation where
  command : Command
  snapshot : String
  format : OutputFormat := .plain
  flags : FlagSettings := {}
  project : Option String := none
  deriving DecidableEq, Repr

/-- What a command finds where it is run. -/
structure Surroundings where
  directory : WorkingDirectory
  environment : VariableSettings
  file : String → FileContent

/-- What a run uses without looking into it. -/
structure Toolkit where
  readSettings : String → Option FileSettings
  readSnapshot : String → Except Json.ReadFault Snapshot
  print : Json.Value → String
  condense : CondensationPass

def Toolkit.own : Toolkit where
  readSettings := FileSettings.ofText
  readSnapshot := Snapshot.ofText
  print := Json.Value.print
  condense _ := Adjacency.completed

/-- A project without a settings file has no settings. -/
def FileSettings.load (path : String) (content : FileContent)
    (read : String → Option FileSettings := FileSettings.ofText) : Except Trouble FileSettings :=
  match content with
  | .absent => .ok {}
  | .unreadable => .error (.unreadable (.file path))
  | .text content =>
    match read content with
    | some settings => .ok settings
    | none => .error (.unparsable path)

def Snapshot.load (path : String) (content : FileContent)
    (read : String → Except Json.ReadFault Snapshot := Snapshot.ofText) : Except Trouble Snapshot :=
  match content with
  | .absent => .error (.unreadable (.file path))
  | .unreadable => .error (.unreadable (.file path))
  | .text content =>
    (read content).mapError fun
      | .malformed => .unparsable path
      | .mismatch cause => .misshapen path cause

def CyclesReport.denial? (r : CyclesReport) : Option Trouble :=
  if r.found.items.isEmpty then none
  else some (.denied r.found.items.length r.found.truncated)

/-- Fails if there are cycles. -/
def CyclesReport.deny (r : CyclesReport) : Run Unit :=
  match r.denial? with
  | none => pure ()
  | some trouble => throw trouble

namespace Command

/-- Makes the report and writes it; cycles are denied behind their report. -/
def steps (command : Command) (format : OutputFormat) (configuration : Configuration)
    (s : Snapshot) (tools : Toolkit) : Run Unit :=
  match command with
  | .cycles deny => do
    let r ← s.cyclesReport configuration
    Run.write (format.render r tools.print)
    if deny then r.deny
  | .lakos => do
    let metrics ← (s.lakos tools.condense).mapError Trouble.failure
    Run.write (format.render metrics tools.print)
  | .martin => do
    let metrics ← s.couplings.mapError Trouble.failure
    Run.write (format.render metrics tools.print)
  | .visibility => do
    let metrics ← s.visibility.mapError Trouble.failure
    Run.write (format.render metrics tools.print)
  | .report => do
    let r ← s.fullReport configuration tools.condense
    Run.write (format.render r tools.print)

def run (command : Command) (format : OutputFormat) (configuration : Configuration)
    (s : Snapshot) (tools : Toolkit := .own) : Outcome :=
  (command.steps format configuration s tools).outcome

end Command

namespace Invocation

/-- Where the settings of the project are: below the directory given for it, or else below the
working directory, which is asked for only then. -/
def root (i : Invocation) (directory : WorkingDirectory) : Except Trouble String :=
  match i.project, directory with
  | some project, _ => .ok project
  | none, .known path => .ok path
  | none, .unknown complaint => .error (.unreadable (.workingDirectory complaint))

def settingsPath (root : String) : String :=
  if root.isEmpty || root.endsWith "/" then root ++ ".strata/config.toml"
  else root ++ "/.strata/config.toml"

/-- The configuration of the project below `root`. -/
def configurationBelow (i : Invocation) (root : String) (around : Surroundings)
    (tools : Toolkit) : Except Trouble Configuration := do
  let path := settingsPath root
  let settings ← FileSettings.load path (around.file path) tools.readSettings
  (settings.resolve i.flags around.environment).mapError .settings

def configuration (i : Invocation) (around : Surroundings) (tools : Toolkit) :
    Except Trouble Configuration := do
  let root ← i.root around.directory
  i.configurationBelow root around tools

def steps (i : Invocation) (around : Surroundings) (tools : Toolkit) : Run Unit := do
  let configuration ← i.configuration around tools
  let s ← Snapshot.load i.snapshot (around.file i.snapshot) tools.readSnapshot
  i.command.steps i.format configuration s tools

def run (i : Invocation) (around : Surroundings) (tools : Toolkit := .own) : Outcome :=
  (i.steps around tools).outcome

end Invocation

end Coupling
