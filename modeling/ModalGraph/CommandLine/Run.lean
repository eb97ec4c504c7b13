import ModalGraph.CommandLine.Address
import ModalGraph.CommandLine.Completion
import ModalGraph.CommandLine.Endpoint
import ModalGraph.CommandLine.Folder
import ModalGraph.Service.Site
import ModalGraph.Settings.File

/-!
# Running a command line

`run` says what a command line comes to: what it prints and how it fails, or a site and the address to serve it on. All that it
takes from its surroundings are standard input and files. What is printed before a failure stays printed.
-/

namespace ModalGraph.CommandLine

/-- Where a command line runs. -/
structure Surroundings where
  stdin : String
  read : String → Except ReadFault String

/-- What a command line that ends comes to. -/
structure Outcome where
  stdout : Bytes := []
  /-- A remark for standard error. -/
  note : String := ""
  /-- How many evaluations the elapsed time is reported of. -/
  timed : Option Nat := none
  failure : Option Failure := none
  /-- Whether a failure is followed by a line on where to find help. -/
  pointsToHelp : Bool := false

/-- What a command line comes to. -/
inductive Action where
  | ended (o : Outcome)
  | listen (address : Address) (site : Site)

namespace Outcome

/-- A failure before anything is printed. -/
def failed (f : Failure) : Outcome :=
  { failure := some f }

/-- A text that is printed. -/
def printed (s : String) : Outcome :=
  { stdout := Bytes.ofString s }

/-- The line about elapsed times. -/
def timeLine (n : Nat) (elapsed each : String) : String :=
  s!"evaluated {n} times in {elapsed} ({each}/op)\n"

/-- The lines about a failure. -/
def failureLines (o : Outcome) (f : Failure) : String :=
  s!"Error: {f.message}\n" ++ if o.pointsToHelp then s!"Run '{Command.programName} --help' for usage.\n" else ""

/-- What goes to standard error, with the time of all evaluations and of each. -/
def stderr (o : Outcome) (elapsed each : String) : String :=
  o.note ++ (o.timed.map fun n => timeLine n elapsed each).getD "" ++ (o.failure.map o.failureLines).getD ""

/-- The exit code. -/
def exitCode (o : Outcome) : Nat :=
  if o.failure.isSome then 1 else 0

end Outcome

/-- A fault of a command line as a failure. -/
def UsageFault.failure (f : UsageFault) : Failure :=
  .stated f.message

/-! ## What all commands need -/

/-- The levels of logging. The empty one stands for the usual one. -/
def logLevels : List String := ["", "debug", "info", "warn", "error", "dpanic", "panic", "fatal"]

/-- The settings without a settings file: one byte per node, adjacency, and the boolean base `b`. -/
def defaultSettings : Settings :=
  { input := { node := ⟨.uint8, 1⟩, adjacency := true }, bases := [(Bytes.ofString "b", Base.bool 1)] }

/-- The operators and the settings of a settings file. A file that cannot be read counts as one that is malformed. -/
def loadFile (s : Surroundings) (path : String) : Except Failure (Registries × Settings) :=
  match s.read path with
  | .error _ => .error (.settingsText .parse)
  | .ok text => do
    let file ← SettingsFile.parse path text
    let ops ← inPlace s!"config {path}" file.registries
    return (ops, file.settings)

/-- Settings with another limit on iterations, if it is one. -/
def withLimit (settings : Settings) (limit : Int) : Settings :=
  if 0 < limit then { settings with maxIterations := limit } else settings

/-- The compiler that the flags of all commands call for. -/
def loadCompiler (s : Surroundings) (a : Arguments) : Except Failure Compiler := do
  let level := a.text "log-level" "warn"
  if !logLevels.contains (Text.lower (Bytes.ofString level)).toText then throw (UsageFault.logLevel level).failure
  let path := a.text "config" ""
  let (ops, settings) ← if path.isEmpty then .ok (Builtin.registries, defaultSettings) else loadFile s path
  Compiler.new ops (withLimit settings (a.int "max-iterations" 0))

/-! ## Compiling -/

/-- The summary of the model of a formula, and the compiler afterwards. -/
def summarize (c : Compiler) (formula : String) : Except Failure (String × Compiler) :=
  let out := c.compile false (Bytes.ofString formula)
  match out.result with
  | .error f => .error (.within s!"compile {Text.quoteString formula}" f)
  | .ok m =>
    match m.summary? with
    | none => .error .aborted
    | some summary => .ok (summary, out.compiler)

/-- Prints summaries one after the other with a blank line between neighbours, up to the first failure. -/
def summaries (separator : String) (c : Compiler) : List String → String × Option Failure
  | [] => ("", none)
  | formula :: rest =>
    match summarize c formula with
    | .error f => ("", some f)
    | .ok (summary, c) =>
      let (more, failure) := summaries "\n" c rest
      (separator ++ summary ++ more, failure)

/-- Compiles formulas and prints their summaries. -/
def runCompile (s : Surroundings) (a : Arguments) : Outcome :=
  match loadCompiler s a with
  | .error f => .failed f
  | .ok c =>
    let (text, failure) := summaries "" c a.words
    { stdout := Bytes.ofString text, failure := failure }

/-! ## Evaluating -/

/-- The text of a document; a dash stands for standard input. A folder can be opened, and fails as a document. -/
def readDocument (s : Surroundings) (path : String) : Except Failure String :=
  if path == "-" then .ok s.stdin
  else
    match s.read path with
    | .ok text => .ok text
    | .error .isFolder => inPlace s!"graphs {path}" (.error (.stated (ReadFault.isFolder.message path)))
    | .error f => .error (.stated (f.message path))

/-- The graphs of a document. -/
def readGraphs (s : Surroundings) (spec : InputSpec) (path : String) : Except Failure (List Graph) := do
  let text ← readDocument s path
  inPlace s!"graphs {path}" (Graph.decode text spec.node.dtype (spec.edge.getD spec.node).dtype)

/-- The labels of a formula on the graphs of a document, with the model and the input. -/
def evaluateWords (s : Surroundings) (a : Arguments) : Except Failure (Model × Input × Tensor) := do
  let c ← loadCompiler s a
  let spec := c.settings.input
  let gs ← readGraphs s spec (a.text "graphs" "")
  let m ← (c.compile false (Bytes.ofString (a.words.headD ""))).result
  let input ← spec.prepare gs
  let labels ← (Evaluator.evaluate c.settings.maxIterations true m (some input)).result
  return (m, input, labels)

/-- Evaluates a formula and prints its labels. Evaluating again gives the same labels, so it is done once however many times are
asked for. -/
def runEval (s : Surroundings) (a : Arguments) : Outcome :=
  let format := a.text "format" "json"
  let times := a.int "repeat" 1
  if format != "json" && format != "proto" then .failed (UsageFault.unknownFormat format).failure
  else if times < 1 then .failed (UsageFault.repeatCount times).failure
  else
    match evaluateWords s a with
    | .error f => .failed f
    | .ok (m, input, labels) =>
      { stdout :=
          if format == "proto" then labels.encode
          else Bytes.ofString ((evaluationJson m.formula labels input.index).compact ++ "\n")
        timed := if 1 < times then some times.toNat else none }

/-! ## Serving -/

/-- How a service answers by the flags of a command line. -/
def serviceOptions (a : Arguments) : ServiceOptions :=
  { pretty := a.switch "pretty", maxBody := max 0 (a.int "max-body-bytes" 8388608), origins := a.items "cors" }

/-- Whether the collector for spans can be used, if there is one. -/
def checkCollector (endpoint : String) : Except Failure Unit :=
  if endpoint.isEmpty then .ok ()
  else
    match Endpoint.check endpoint with
    | .ok () => .ok ()
    | .error f => .error (.stated s!"otel setup: {f.message}")

/-- The site that a command line describes, and the address to serve it on. -/
def siteOf (s : Surroundings) (a : Arguments) : Except Failure (Address × Site) := do
  let c ← loadCompiler s a
  checkCollector (a.text "otel.endpoint" "")
  let service ← inPlace "server init" (Service.new (some c) c.settings.maxIterations (serviceOptions a))
  match Address.parse (a.text "addr" ":8080") with
  | .error f => .error (.stated f.message)
  | .ok address => .ok (address, { service := service })

/-- Serves the site that a command line describes. -/
def runServe (s : Surroundings) (a : Arguments) : Action :=
  match siteOf s a with
  | .error f => .ended (.failed f)
  | .ok (address, site) => .listen address site

/-! ## All commands -/

/-- The help that words ask for. -/
def runHelp (words : List String) : Outcome :=
  match findCommand words with
  | .ok (c, _) => .printed c.helpText
  | .error _ => .printed (Command.unknownTopic words)

/-- Runs a command whose arguments are in order. -/
def runCommand (s : Surroundings) (c : Command) (a : Arguments) : Action :=
  match c with
  | .compile => .ended (runCompile s a)
  | .eval => .ended (runEval s a)
  | .serve => runServe s a
  | .help => .ended (runHelp a.words)
  | .script shell => .ended (.printed (shell.script (!a.switch "no-descriptions")))
  | .program | .completion => .ended (.printed c.helpText)

/-- The arguments of a command, if there is nothing wrong with them. -/
def checked (c : Command) (a : Arguments) : Except UsageFault Unit := do
  checkWords c a.words
  checkFlags c a

/-- Answers a shell that asks how a command line could go on. A question about a question is answered in the manner of the inner
one. -/
def runCompletion (described : Bool) (args : List String) : Outcome :=
  match args.getLast? with
  | none => .failed (UsageFault.tooFewWords 1 0).failure
  | some last =>
    let c := complete args.dropLast last
    { stdout := Bytes.ofString (c.text ((question? args.dropLast).getD described)), note := c.note }

/-- Runs a command line that is no question of a shell. Faults of flags come first, then a wish for help, and then faults of the
words and missing flags. -/
def runCommandLine (s : Surroundings) (args : List String) : Action :=
  match findCommand args with
  | .error f => .ended { failure := some f.failure, pointsToHelp := true }
  | .ok (c, rest) =>
    match Arguments.parse c.flags rest with
    | .error f => .ended (.failed (UsageFault.flag f).failure)
    | .ok a =>
      if a.switch "help" || !c.runs then .ended (.printed c.helpText)
      else
        match checked c a with
        | .error f => .ended (.failed f.failure)
        | .ok () => runCommand s c a

/-- Runs a command line. -/
def run (s : Surroundings) (args : List String) : Action :=
  match firstWord args, question? args with
  | some word, some described => .ended (runCompletion described (dropWord word args))
  | _, _ => runCommandLine s args

/-- The files that a command line may read. -/
def filesOf (args : List String) : List String :=
  match findCommand args with
  | .error _ => []
  | .ok (c, rest) =>
    match Arguments.parse c.flags rest with
    | .error _ => []
    | .ok a => [a.text "config" "", a.text "graphs" ""]

end ModalGraph.CommandLine
