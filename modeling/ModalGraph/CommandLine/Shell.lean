/-!
# Shells

The shells that a script for completing command lines can be made for, and how such a script is loaded.
-/

namespace ModalGraph.CommandLine

/-- The shells with completion. -/
inductive Shell where
  | bash
  | zsh
  | fish
  | powershell
deriving DecidableEq, Repr

namespace Shell

/-- All shells. -/
def all : List Shell := [.bash, .zsh, .fish, .powershell]

/-- The name of a shell. -/
def name : Shell → String
  | .bash => "bash"
  | .zsh => "zsh"
  | .fish => "fish"
  | .powershell => "powershell"

/-- The line before the command that loads completions once. -/
def onceLines : List String :=
  ["To load completions in your current shell session:", ""]

/-- The line before the commands that load completions always. -/
def alwaysLines : List String :=
  ["", "To load completions for every new session, execute once:", ""]

/-- The line after the commands that load completions always. -/
def restartLines : List String :=
  ["", "You will need to start a new shell for this setup to take effect."]

/-- How completions of the program `mgc` are loaded, at length. -/
def loading : Shell → List String
  | .bash =>
    ["Generate the autocompletion script for the bash shell.",
      "",
      "This script depends on the 'bash-completion' package.",
      "If it is not installed already, you can install it via your OS's package manager.",
      ""] ++ onceLines ++
    ["\tsource <(mgc completion bash)"] ++ alwaysLines ++
    ["#### Linux:",
      "",
      "\tmgc completion bash > /etc/bash_completion.d/mgc",
      "",
      "#### macOS:",
      "",
      "\tmgc completion bash > $(brew --prefix)/etc/bash_completion.d/mgc"] ++ restartLines
  | .zsh =>
    ["Generate the autocompletion script for the zsh shell.",
      "",
      "If shell completion is not already enabled in your environment you will need",
      "to enable it.  You can execute the following once:",
      "",
      "\techo \"autoload -U compinit; compinit\" >> ~/.zshrc",
      ""] ++ onceLines ++
    ["\tsource <(mgc completion zsh)"] ++ alwaysLines ++
    ["#### Linux:",
      "",
      "\tmgc completion zsh > \"$\x7bfpath[1]\x7d/_mgc\"",
      "",
      "#### macOS:",
      "",
      "\tmgc completion zsh > $(brew --prefix)/share/zsh/site-functions/_mgc"] ++ restartLines
  | .fish =>
    ["Generate the autocompletion script for the fish shell.", ""] ++ onceLines ++
    ["\tmgc completion fish | source"] ++ alwaysLines ++
    ["\tmgc completion fish > ~/.config/fish/completions/mgc.fish"] ++ restartLines
  | .powershell =>
    ["Generate the autocompletion script for powershell.", ""] ++ onceLines ++
    ["\tmgc completion powershell | Out-String | Invoke-Expression",
      "",
      "To load completions for every new session, add the output of the above command",
      "to your powershell profile."]

end Shell

end ModalGraph.CommandLine
