import Coupling.Command.Basic

/-!
# The arguments of the command line

The arguments are cut into options and words and then read from the left. The first word names the
command, the second the snapshot. Options may stand on either side of the command, each of them
once on each side, and the one behind the command counts. The first argument that is wrong, or that
asks for the version or for help, ends the reading.
-/

namespace Coupling

inductive Switch where
  | verbose
  | json
  | deny
  | help
  | version
  deriving DecidableEq, Repr

inductive Parameter where
  | maxCycles
  | maxEdgesPerStep
  | project
  deriving DecidableEq, Repr

inductive Argument where
  | switch (name : Switch)
  | parameter (name : Parameter) (value : String)
  | word (text : String)
  /-- Only words follow. -/
  | onlyWords
  /-- No known option, or one with a value too many or too few. -/
  | wrong
  deriving DecidableEq, Repr

/-- Why no command is run. -/
inductive Halt where
  | usage
  | help
  | version
  deriving DecidableEq, Repr

def Switch.ofName? : String → Option Switch
  | "verbose" => some .verbose
  | "json" => some .json
  | "deny" => some .deny
  | "help" => some .help
  | "version" => some .version
  | _ => none

def Switch.ofLetter? : Char → Option Switch
  | 'v' => some .verbose
  | 'h' => some .help
  | 'V' => some .version
  | _ => none

def Parameter.ofName? : String → Option Parameter
  | "max-cycles" => some .maxCycles
  | "max-edges-per-step" => some .maxEdgesPerStep
  | "project" => some .project
  | _ => none

/-- Whether an argument can be the value of the option in front of it. What looks like an option
cannot, but a negative number can where a number is expected. -/
def Parameter.accepts (p : Parameter) (value : String) : Bool :=
  match value.toList with
  | '-' :: c :: cs => p ≠ .project && (c :: cs).all Char.isDigit
  | _ => true

namespace Argument

def ofLetter (c : Char) : Argument :=
  match Switch.ofLetter? c with
  | some s => .switch s
  | none => .wrong

/-- The part in front of the first equals sign and, if there is one, the part behind it. -/
def splitValue (cs : List Char) : String × Option String :=
  (String.ofList (cs.takeWhile (· ≠ '=')),
    match cs.dropWhile (· ≠ '=') with
    | [] => none
    | _ :: value => some (String.ofList value))

/-- An option with a long name, given what is written with it and the argument that follows. The
second part of the answer tells whether that argument is the value. -/
def ofLong (name : String) (value following : Option String) : Argument × Bool :=
  match Switch.ofName? name, Parameter.ofName? name, value, following with
  | some s, _, none, _ => (.switch s, false)
  | none, some p, some v, _ => (.parameter p v, false)
  | none, some p, none, some v => if p.accepts v then (.parameter p v, true) else (.wrong, false)
  | _, _, _, _ => (.wrong, false)

def ofTexts : List String → List Argument
  | [] => []
  | text :: rest =>
    match text.toList with
    | ['-', '-'] => .onlyWords :: rest.map .word
    | '-' :: '-' :: cs =>
      let (name, value) := splitValue cs
      let (argument, taken) := ofLong name value rest.head?
      argument :: if taken then ofTexts rest.tail else ofTexts rest
    | '-' :: c :: cs => (c :: cs).map ofLetter ++ ofTexts rest
    | _ => .word text :: ofTexts rest
  termination_by texts => texts.length
  decreasing_by all_goals simp only [List.length_cons, List.length_tail]; omega

end Argument

/-- The options on one side of the command. -/
structure GivenOptions where
  verbose : Bool := false
  json : Bool := false
  flags : FlagSettings := {}
  project : Option String := none
  deriving DecidableEq, Repr

inductive Stage where
  | outside
  | inside (command : Command) (snapshot : Option String)
  /-- Help has been asked for, perhaps on a command. -/
  | helping (topic : Bool)
  deriving DecidableEq, Repr

structure Reading where
  stage : Stage := .outside
  outer : GivenOptions := {}
  inner : GivenOptions := {}
  deriving DecidableEq, Repr

def Command.ofName? : String → Option Command
  | "cycles" => some (.cycles false)
  | "lakos" => some .lakos
  | "martin" => some .martin
  | "visibility" => some .visibility
  | "report" => some .report
  | _ => none

/-- A value for an option that may have been given before. -/
def once {α : Type} (before : Option α) (value : Option α) : Except Halt (Option α) :=
  if before.isSome || value.isNone then .error .usage else .ok value

def integerArgument? (value : String) : Option Int := (Text.readInteger value.toList).toOption

namespace GivenOptions

def switch (g : GivenOptions) : Switch → Except Halt GivenOptions
  | .verbose => if g.verbose then .error .usage else .ok { g with verbose := true }
  | .json => if g.json then .error .usage else .ok { g with json := true }
  | .help => .error .help
  | _ => .error .usage

def set (g : GivenOptions) (p : Parameter) (value : String) : Except Halt GivenOptions :=
  match p with
  | .maxCycles => do
    let maxCycles ← once g.flags.maxCycles (integerArgument? value)
    return { g with flags := { g.flags with maxCycles } }
  | .maxEdgesPerStep => do
    let maxEdgesPerStep ← once g.flags.maxEdgesPerStep (integerArgument? value)
    return { g with flags := { g.flags with maxEdgesPerStep } }
  | .project => do
    let project ← once g.project (if value.isEmpty then none else some value)
    return { g with project }

end GivenOptions

namespace Reading

/-- A change of the options on the side where the reading is. -/
def change (r : Reading) (f : GivenOptions → Except Halt GivenOptions) : Except Halt Reading :=
  match r.stage with
  | .outside => do return { r with outer := ← f r.outer }
  | .inside .. => do return { r with inner := ← f r.inner }
  | .helping _ => .error .usage

def word (r : Reading) (text : String) : Except Halt Reading :=
  match r.stage with
  | .outside =>
    match Command.ofName? text with
    | some command => .ok { r with stage := .inside command none }
    | none => if text = "help" then .ok { r with stage := .helping false } else .error .usage
  | .inside command none =>
    if text.isEmpty then .error .usage else .ok { r with stage := .inside command (some text) }
  | .inside _ (some _) => .error .usage
  | .helping topic =>
    if !topic && (text = "help" || (Command.ofName? text).isSome) then
      .ok { r with stage := .helping true }
    else .error .usage

def switch (r : Reading) (s : Switch) : Except Halt Reading :=
  match s, r.stage with
  | .version, .outside => .error .version
  | .deny, .inside (.cycles false) snapshot =>
    .ok { r with stage := .inside (.cycles true) snapshot }
  | s, _ => r.change (·.switch s)

def step (r : Reading) : Argument → Except Halt Reading
  | .switch s => r.switch s
  | .parameter p value => r.change (·.set p value)
  | .word text => r.word text
  | .onlyWords =>
    match r.stage with
    | .inside .. => .ok r
    | _ => .error .usage
  | .wrong => .error .usage

def finish (r : Reading) : Except Halt Invocation :=
  match r.stage with
  | .inside command (some snapshot) =>
    .ok {
      command
      snapshot
      format := if r.outer.json || r.inner.json then .json else .plain
      flags.maxCycles := r.inner.flags.maxCycles <|> r.outer.flags.maxCycles
      flags.maxEdgesPerStep := r.inner.flags.maxEdgesPerStep <|> r.outer.flags.maxEdgesPerStep
      project := r.inner.project <|> r.outer.project }
  | .helping _ => .error .help
  | _ => .error .usage

end Reading

def Invocation.ofArguments (texts : List String) : Except Halt Invocation := do
  let r ← (Argument.ofTexts texts).foldlM Reading.step {}
  r.finish

def versionText : String := "strata-cli 0.4.0\n"

def usageText : String :=
  "Usage: strata [-v] [--json] [--max-cycles N] [--max-edges-per-step N] [--project DIR]\n" ++
    "              (cycles [--deny] | lakos | martin | visibility | report) SNAPSHOT\n"

end Coupling
