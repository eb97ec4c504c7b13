import ModalGraph.CommandLine.Help
import ModalGraph.CommandLine.Script.Bash
import ModalGraph.CommandLine.Script.Fish
import ModalGraph.CommandLine.Script.Powershell
import ModalGraph.CommandLine.Script.Zsh

/-!
# Scripts for completion

A shell completes command lines of the program after it has loaded a script. Whenever the last word is to go on, the script asks
the program with a word of its own and shows what it is offered.
-/

namespace ModalGraph.CommandLine

/-- The word with which a script asks for completions, with what they are for or without. -/
def requestWord (described : Bool) : String :=
  if described then "__complete" else "__completeNoDesc"

/-- The script for a shell. -/
def Shell.script (shell : Shell) (described : Bool) : String :=
  let request := requestWord described
  Command.unlines (match shell with
    | .bash => Script.bash request
    | .zsh => Script.zsh request
    | .fish => Script.fish request
    | .powershell => Script.powershell request)

end ModalGraph.CommandLine
