import ModalGraph.CommandLine.Flag
import ModalGraph.CommandLine.Shell
import ModalGraph.Text.Blank

/-!
# Commands

The commands of the program with their flags, which command a command line means, and whether it has as many words as the command
takes. Until the command is known, every flag without an equals sign is taken to have its value in the next argument.
-/

namespace ModalGraph.CommandLine

/-- The commands; `program` is the program without a command. -/
inductive Command where
  | program
  | compile
  | eval
  | serve
  | help
  | completion
  | script (shell : Shell)
deriving DecidableEq, Repr

namespace Command

/-- The name of the program. -/
def programName : String := "mgc"

/-- The name of a command. -/
def name : Command → String
  | .program => programName
  | .compile => "compile"
  | .eval => "eval"
  | .serve => "serve"
  | .help => "help"
  | .completion => "completion"
  | .script shell => shell.name

/-- The names that lead to a command from the program on. -/
def path : Command → String
  | .program => programName
  | .script shell => s!"{programName} completion {shell.name}"
  | c => s!"{programName} {c.name}"

/-- The commands that can be named after a command. -/
def children : Command → List Command
  | .program => [.compile, .eval, .serve, .help, .completion]
  | .completion => Shell.all.map .script
  | _ => []

/-- The commands that are offered for a word that names none. -/
def offered : List Command := [.compile, .eval, .serve, .completion]

/-- Whether a command does something of its own, or only shows help. -/
def runs : Command → Bool
  | .program | .completion => false
  | _ => true

/-! ## Flags -/

/-- The flags of all commands. -/
def globalFlags : List Flag :=
  [{ name := "config", kind := .text, purpose := "HCL configuration file" },
    { name := "log-level", kind := .text, purpose := "Log level: debug, info, warn or error",
      shownDefault := some "\"warn\"" },
    { name := "max-iterations", kind := .int, purpose := "Fixpoint iteration limit (0 derives it from the input)" }]

/-- The flag that asks for help. -/
def helpFlag (c : Command) : Flag :=
  { name := "help", kind := .switch, purpose := s!"help for {c.name}", letter := some 'h' }

/-- The flags that only a command has. -/
def ownFlags : Command → List Flag
  | .eval =>
    [{ name := "format", kind := .text, purpose := "Output format: json or proto", shownDefault := some "\"json\"" },
      { name := "graphs", kind := .text, purpose := "Graph JSON file, or - for standard input" },
      { name := "repeat", kind := .int, purpose := "Evaluate N times and report the elapsed time", shownDefault := some "1" }]
  | .serve =>
    [{ name := "addr", kind := .text, purpose := "HTTP listen address", shownDefault := some "\":8080\"" },
      { name := "cors", kind := .list, purpose := "Allowed CORS origins" },
      { name := "max-body-bytes", kind := .int, purpose := "Request body limit (0 for none)", shownDefault := some "8388608" },
      { name := "otel.endpoint", kind := .text, purpose := "OTLP collector endpoint" },
      { name := "otel.service", kind := .text, purpose := "OpenTelemetry service name", shownDefault := some "\"mgc\"" },
      { name := "pretty", kind := .switch, purpose := "Pretty-print JSON responses" },
      { name := "timeout", kind := .duration, purpose := "Per-request timeout", shownDefault := some "10s" }]
  | .script _ => [{ name := "no-descriptions", kind := .switch, purpose := "disable completion descriptions" }]
  | _ => []

/-- The flags that a command understands. -/
def flags (c : Command) : List Flag :=
  c.helpFlag :: (c.ownFlags ++ globalFlags)

/-- The flags that a command cannot do without. -/
def requiredFlags : Command → List String
  | .eval => ["graphs"]
  | _ => []

end Command

/-! ## Faults -/

/-- What can be wrong with a command line. -/
inductive UsageFault where
  | flag (f : FlagFault)
  | unknownCommand (word : String) (c : Command) (similar : List String)
  | tooFewWords (least got : Nat)
  | wordCount (wanted got : Nat)
  | flagsMissing (names : List String)
  | unknownFormat (format : String)
  | repeatCount (n : Int)
  | logLevel (level : String)
deriving DecidableEq, Repr

/-- The wording of a fault. -/
def UsageFault.message : UsageFault → String
  | .flag f => f.message
  | .unknownCommand word c similar =>
    s!"unknown command {Text.quoteString word} for {Text.quoteString c.path}" ++
      if similar.isEmpty then ""
      else "\n\nDid you mean this?\n" ++ String.join (similar.map fun s => s!"\t{s}\n")
  | .tooFewWords least got => s!"requires at least {least} arg(s), only received {got}"
  | .wordCount wanted got => s!"accepts {wanted} arg(s), received {got}"
  | .flagsMissing names =>
    let list := "\", \"".intercalate names
    s!"required flag(s) \"{list}\" not set"
  | .unknownFormat format => s!"unknown format {Text.quoteString format}"
  | .repeatCount n => s!"repeat must be positive, got {n}"
  | .logLevel level => s!"log level: unrecognized level: {Text.quoteString level}"

/-! ## Similar words -/

/-- The distances from a word that is longer by one letter to the beginnings of a text, from the distances of the shorter word. -/
def nextDistances (b : UInt8) : Nat → List Nat → Bytes → List Nat
  | left, corner :: above :: row, c :: cs =>
    let d := if b == c then corner else Nat.min left (Nat.min above corner) + 1
    d :: nextDistances b d (above :: row) cs
  | _, _, _ => []

/-- The distances from a word to the beginnings of a text, the empty one first; the word is taken apart from its end. -/
def distances (target : Bytes) : Bytes → List Nat
  | [] => List.range (target.length + 1)
  | b :: bs => (bs.length + 1) :: nextDistances b (bs.length + 1) (distances target bs) target

/-- How many bytes must be added, taken away or changed to make one word of another. -/
def editDistance (a b : Bytes) : Nat :=
  (distances b a.reverse).getLastD a.length

/-- The commands that a word may be meant to name: those it begins, and those two changes away. -/
def similarTo (word : String) : List String :=
  let w := Text.lower (Bytes.ofString word)
  (Command.offered.map Command.name).filter fun name =>
    decide (editDistance w (Bytes.ofString name) ≤ 2) || w.isPrefixOf (Bytes.ofString name)

/-! ## Finding the command -/

/-- Whether an argument is taken to have its value in the next one. -/
def wantsValue (arg : String) : Bool :=
  !arg.toList.contains '=' && arg != "--" &&
    (arg.startsWith "--" || (arg.startsWith "-" && (Bytes.ofString arg).length == 2))

/-- The first word of a command line that is no value of a flag. A flag that is last but one or last hides what comes after it. -/
def firstWord : List String → Option String
  | [] => none
  | arg :: rest =>
    if arg == "--" then none
    else if wantsValue arg then
      match rest with
      | _ :: next :: more => firstWord (next :: more)
      | _ => none
    else if arg.isEmpty || arg.startsWith "-" then firstWord rest
    else some arg

/-- A command line without its first word. -/
def dropWord (word : String) : List String → List String
  | [] => []
  | arg :: rest =>
    if arg == "--" then arg :: rest
    else if wantsValue arg then
      match rest with
      | value :: more => arg :: value :: dropWord word more
      | [] => [arg]
    else if arg == word then rest
    else arg :: dropWord word rest

/-- How deep commands stand below the program. -/
def maxLevels : Nat := 2

/-- The command that words lead to from a command on, over so many levels at most, and the arguments for it. -/
def descend : Nat → Command → List String → Command × List String
  | 0, c, args => (c, args)
  | levels + 1, c, args =>
    match firstWord args with
    | none => (c, args)
    | some word =>
      match c.children.find? fun d => d.name == word with
      | some d => descend levels d (dropWord word args)
      | none => (c, args)

/-- The command that a command line means, and the arguments for it. -/
def findCommand (args : List String) : Except UsageFault (Command × List String) :=
  match descend maxLevels .program args, firstWord args with
  | (.program, _), some word => .error (.unknownCommand word .program (similarTo word))
  | found, _ => .ok found

/-- Whether a command takes some words. -/
def checkWords (c : Command) (words : List String) : Except UsageFault Unit :=
  match c with
  | .compile => if words.isEmpty then .error (.tooFewWords 1 0) else .ok ()
  | .eval => if words.length = 1 then .ok () else .error (.wordCount 1 words.length)
  | .serve | .script _ =>
    match words with
    | [] => .ok ()
    | w :: _ => .error (.unknownCommand w c [])
  | _ => .ok ()

/-- Whether all flags that a command needs are given. -/
def checkFlags (c : Command) (a : Arguments) : Except UsageFault Unit :=
  match c.requiredFlags.filter fun n => !a.has n with
  | [] => .ok ()
  | names => .error (.flagsMissing names)

end ModalGraph.CommandLine
