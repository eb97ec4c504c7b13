import ModalGraph.CommandLine.Command

/-!
# Help texts

What a command is for and how it is called, with its flags in the order of their names. The columns of a list are as wide as its
widest entry.
-/

namespace ModalGraph.CommandLine.Command

/-- What a command does, in a few words. -/
def short : Command → String
  | .program => "Compile and evaluate modal mu-calculus formulas over graphs"
  | .compile => "Compile formulas and print their computation graphs"
  | .eval => "Evaluate a formula over graphs"
  | .serve => "Serve /compile, /evaluate and /metrics over HTTP"
  | .help => "Help about any command"
  | .completion => "Generate the autocompletion script for the specified shell"
  | .script shell => s!"Generate the autocompletion script for {shell.name}"

/-- What a command does, at length. -/
def long : Command → List String
  | .program =>
    ["mgc compiles formulas of the modal mu-calculus into shared computation",
      "graphs and evaluates them over labelled graphs.",
      "",
      "Without --config, node labels are single uint8 columns, adjacency is",
      "available and the boolean fixpoint base \"b\" is declared."]
  | .compile =>
    ["Compiles every formula with one compiler, so later formulas reuse the",
      "nodes of earlier ones, and prints a summary of each model."]
  | .eval =>
    ["Evaluates a formula over the graphs of a JSON document:",
      "",
      "  \x7b\"x\": [[1],[2]], \"edges\": [[0,1]], \"e\": [[0]]\x7d",
      "",
      "or an array of them when the configuration is batched. Use --graphs - to",
      "read the document from standard input."]
  | .serve => [short .serve]
  | .help =>
    ["Help provides help for any command in the application.",
      "Simply type mgc help [path to command] for full details."]
  | .completion =>
    ["Generate the autocompletion script for mgc for the specified shell.",
      "See each sub-command's help for details on how to use the generated script."]
  | .script shell => shell.loading

/-- How a command that runs is called. -/
def call (c : Command) : String :=
  match c with
  | .compile => c.path ++ " FORMULA... [flags]"
  | .eval => c.path ++ " FORMULA [flags]"
  | .help => c.path ++ " [command] [flags]"
  | .script .bash => c.path
  | _ => c.path ++ " [flags]"

/-- The commands below a command, in the order of their names. -/
def below (c : Command) : List Command :=
  c.children.mergeSort fun a b => a.name ≤ b.name

/-- A text with blanks up to a width. -/
def pad (width : Nat) (s : String) : String :=
  s ++ String.ofList (List.replicate (width - s.length) ' ')

/-- The line of a command in a list. -/
def commandLine (c : Command) : String :=
  s!"  {pad 11 c.name} {c.short}"

/-- A flag with the word for its value. -/
def flagHead (f : Flag) : String :=
  let letter := match f.letter with
    | some c => String.ofList ['-', c, ',', ' ']
    | none => "    "
  s!"  {letter}--{f.name}" ++ if f.kind.word.isEmpty then "" else " " ++ f.kind.word

/-- The lines of some flags. -/
def flagLines (fs : List Flag) : List String :=
  let fs := fs.mergeSort fun f g => f.name ≤ g.name
  let width := (fs.map fun f => (flagHead f).length).foldl Nat.max 0
  fs.map fun f =>
    let default := match f.shownDefault with
      | some d => s!" (default {d})"
      | none => ""
    pad (width + 3) (flagHead f) ++ f.purpose ++ default

/-- A titled part of a help text, left out if it is empty. -/
def part (title : String) (lines : List String) : List String :=
  if lines.isEmpty then [] else "" :: title :: lines

/-- How a command is called. The flag that asks for help is shown where the command knows it already. -/
def usage (c : Command) (withHelp : Bool) : List String :=
  let own := (if withHelp then [c.helpFlag] else []) ++ c.ownFlags
  let calls := (if c.runs then [s!"  {c.call}"] else []) ++
    (if c.below.isEmpty then [] else [s!"  {c.path} [command]"])
  let ending := if c.below.isEmpty then []
    else ["", s!"Use \"{c.path} [command] --help\" for more information about a command."]
  "Usage:" :: calls ++ part "Available Commands:" (c.below.map commandLine) ++
    part "Flags:" (flagLines (if c = .program then own ++ globalFlags else own)) ++
    part "Global Flags:" (flagLines (if c = .program then [] else globalFlags)) ++ ending

/-- Lines as a text. -/
def unlines (lines : List String) : String :=
  String.join (lines.map fun l => l ++ "\n")

/-- The help text of a command. -/
def helpText (c : Command) : String :=
  unlines (c.long ++ [""] ++ c.usage true)

/-- A word between backquotes, or between double quotes if it holds a character that cannot stand between backquotes. -/
def backquoted (s : String) : String :=
  let plain := s.toList.all fun c => c == '\t' || (0x20 ≤ c.toNat && c.toNat != 0x60 && c.toNat != 0x7F && c.toNat != 0xFEFF)
  if plain then "`" ++ s ++ "`" else Text.quoteString s

/-- The answer to a request for help about words that name no command. -/
def unknownTopic (words : List String) : String :=
  let shown := " ".intercalate (words.map backquoted)
  s!"Unknown help topic [{shown}]\n" ++ unlines (usage .program false)

end ModalGraph.CommandLine.Command
