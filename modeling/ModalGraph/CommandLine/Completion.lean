import ModalGraph.CommandLine.Script.Basic

/-!
# Completing command lines

A shell may ask how the last word of a command line could go on. It is offered the commands and the flags that begin like the
word, each with what it is for, and is told whether file names would do as well. Where a flag waits for its value, or something is
wrong with the words before, there is nothing to offer.
-/

namespace ModalGraph.CommandLine

/-- What a shell does with the words that it is offered. -/
inductive Directive where
  /-- File names will do if no word is offered. -/
  | files
  /-- No file name will do. -/
  | noFiles
deriving DecidableEq, Repr

namespace Directive

/-- The number that stands for a directive. -/
def code : Directive → Nat
  | .files => 0
  | .noFiles => 4

/-- The name of a directive. -/
def name : Directive → String
  | .files => "ShellCompDirectiveDefault"
  | .noFiles => "ShellCompDirectiveNoFileComp"

end Directive

/-- What a shell is answered: words with what they are for, and what to do with them. -/
structure Completion where
  offers : List (String × String)
  directive : Directive
deriving DecidableEq, Repr

namespace Completion

/-- The answer if there is nothing to offer. -/
def nothing : Completion :=
  ⟨[], .files⟩

/-- The answer as a text; the purposes of words may be left out. -/
def text (c : Completion) (described : Bool) : String :=
  Command.unlines (c.offers.map fun (word, purpose) => if described then s!"{word}\t{purpose}" else word) ++
    s!":{c.directive.code}\n"

/-- The line about the directive of an answer. -/
def note (c : Completion) : String :=
  s!"Completion ended with directive: {c.directive.name}\n"

end Completion

/-! ## What can be offered -/

/-- The ways to write a flag that begin like a word. -/
def flagOffers (word : String) (f : Flag) : List (String × String) :=
  let names := ("--" ++ f.name) :: (f.letter.map fun c => String.ofList ['-', c]).toList
  (names.filter fun n => n.startsWith word).map fun n => (n, f.purpose)

/-- The flags of a command in the order in which they are offered: those of all commands first. -/
def offeredFlags (c : Command) : List Flag :=
  let sorted := fun fs : List Flag => fs.mergeSort fun f g => f.name ≤ g.name
  if c = .program then sorted c.flags else sorted Command.globalFlags ++ sorted (c.helpFlag :: c.ownFlags)

/-- The flags that a command cannot do without and is not given yet. -/
def requiredOffers (c : Command) (a : Arguments) (word : String) : List (String × String) :=
  ((offeredFlags c).filter fun f => c.requiredFlags.contains f.name && !a.has f.name).flatMap (flagOffers word)

/-- The flags that a command may still be given. A list may be given again; what a command cannot do without comes first. -/
def flagCompletion (c : Command) (a : Arguments) (word : String) : Completion :=
  let required := requiredOffers c a word
  let all := ((offeredFlags c).filter fun f => f.kind = .list || !a.has f.name).flatMap (flagOffers word)
  ⟨if required.isEmpty then all else required, .noFiles⟩

/-- The commands below a command that begin like a word. -/
def commandOffers (c : Command) (word : String) : List (String × String) :=
  (c.below.filter fun d => d.name.startsWith word).map fun d => (d.name, d.short)

/-- What some commands take as words, whatever else they are given. -/
def ownCompletion? (c : Command) (a : Arguments) (word : String) : Option Completion :=
  match c with
  | .completion | .script _ => some ⟨[], .noFiles⟩
  | .help =>
    match findCommand a.words with
    | .ok (topic, _) => some ⟨commandOffers topic word, .noFiles⟩
    | .error _ => some ⟨[], .noFiles⟩
  | _ => none

/-- What may follow the words of a command: commands below it, flags that it cannot do without, and words of its own. -/
def wordCompletion (c : Command) (a : Arguments) (word : String) : Completion :=
  let commands := if a.words.isEmpty then commandOffers c word else []
  let offers := commands ++ requiredOffers c a word
  match ownCompletion? c a word with
  | some own => ⟨offers ++ own.offers, own.directive⟩
  | none => ⟨offers, if a.words.isEmpty && !c.below.isEmpty then .noFiles else .files⟩

/-! ## Which of it is asked for -/

/-- What the last word of a command line is: a word of its own, the value of a flag, or a part of a flag that is not known; with
the arguments before it and the text that is to go on. -/
inductive Pending where
  | word (args : List String) (text : String)
  | value (args : List String) (text : String)
  | unknownFlag
deriving DecidableEq, Repr

/-- The flag of some name; a name of one letter is a letter. -/
def flagNamed? (c : Command) (name : String) : Option Flag :=
  if name.utf8ByteSize = 1 then c.flags.find? fun f => f.letter.map (fun l => String.ofList [l]) == some name
  else c.flags.find? fun f => f.name == name

/-- The name of the flag in an argument, without its value: all of a long one, and the last letter of a group. -/
def flagNameIn (arg : String) : String :=
  let cs := arg.toList.takeWhile (· != '=')
  if cs.take 2 == ['-', '-'] then String.ofList (cs.drop 2) else String.ofList cs.getLast?.toList

/-- Whether an argument is a flag without a value. -/
def isBareFlag (arg : String) : Bool :=
  match arg.toList with
  | '-' :: '-' :: rest => !rest.isEmpty && !rest.contains '='
  | '-' :: rest => !rest.isEmpty && !rest.contains '='
  | _ => false

/-- What the last word is after some arguments. -/
def pending (c : Command) (args : List String) (last : String) : Pending :=
  let assigns := last.startsWith "-" && last.toList.contains '='
  if last.startsWith "-" && !assigns then .word args last
  else
    let own := if assigns then flagNameIn last else ""
    let text := if assigns then String.ofList ((last.toList.dropWhile (· != '=')).drop 1) else last
    let before := if own.isEmpty then args.getLast?.filter isBareFlag else none
    let name := if own.isEmpty then (before.map flagNameIn).getD "" else own
    if name.isEmpty then .word args text
    else
      match flagNamed? c name with
      | none => .unknownFlag
      | some f =>
        if !assigns && f.kind = .switch then .word args text
        else .value (if before.isSome then args.dropLast else args) text

/-- What may follow some arguments. A dash asks for a flag, unless two dashes have ended the flags. -/
def completeAfter (c : Command) (args : List String) (p : Pending) (last : String) : Completion :=
  match Arguments.parse c.flags args, Arguments.parse c.flags (args ++ ["--"]) with
  | .ok a, .ok b =>
    let ended := a.words.length < b.words.length
    match p with
    | .unknownFlag => if !ended then .nothing else if a.has "help" then ⟨[], .noFiles⟩ else wordCompletion c a last
    | .value _ text =>
      if a.has "help" then ⟨[], .noFiles⟩
      else if ended then (ownCompletion? c a text).getD .nothing
      else .nothing
    | .word _ text =>
      if a.has "help" then ⟨[], .noFiles⟩
      else if text.startsWith "-" && !text.toList.contains '=' && !ended then flagCompletion c a text
      else wordCompletion c a text
  | _, _ => .nothing

/-- The words with which a shell asks for completions, and whether it wants to know what they are for. -/
def completionWords : List (String × Bool) := [true, false].map fun described => (requestWord described, described)

/-- Whether some arguments are a question of a shell, and then whether it wants to know what the completions are for. -/
def question? (args : List String) : Option Bool :=
  (firstWord args).bind fun word => completionWords.lookup word

/-- How the last word of a question of a shell could go on: as a flag, whatever stands before it. -/
def questionCompletion (last : String) : Completion :=
  let help : Flag := { name := "help", kind := .switch, purpose := "help for __complete", letter := some 'h' }
  if last.startsWith "-" && !last.toList.contains '=' then ⟨(Command.globalFlags ++ [help]).flatMap (flagOffers last), .noFiles⟩
  else .nothing

/-- How the last word of a command line could go on. -/
def complete (args : List String) (last : String) : Completion :=
  if (question? args).isSome then questionCompletion last
  else
    match findCommand args with
    | .error _ => .nothing
    | .ok (c, rest) =>
      let p := pending c rest last
      match p with
      | .word args _ => completeAfter c args p last
      | .value args _ => completeAfter c args p last
      | .unknownFlag => completeAfter c rest p last

end ModalGraph.CommandLine
