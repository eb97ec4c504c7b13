import ModalGraph.Duration
import ModalGraph.Text.Separated

/-!
# Flags

A flag has a name and a value of one kind. It is written `--name=value` or `--name value`; a switch may stand alone, and a switch
with a letter may also be written by it. Flags and other words may be mixed, and `--` ends the flags. `Flag.parse` reads a command
line from left to right and stops at the first fault.
-/

namespace ModalGraph.CommandLine

/-- The kinds of values. -/
inductive FlagKind where
  | text
  | int
  | switch
  | duration
  | list
deriving DecidableEq, Repr

/-- The word for a value of a kind in help texts, empty for a switch. -/
def FlagKind.word : FlagKind → String
  | .text => "string"
  | .int => "int"
  | .switch => ""
  | .duration => "duration"
  | .list => "strings"

/-- The value of a flag. -/
inductive FlagValue where
  | text (s : String)
  | int (n : Int)
  | switch (b : Bool)
  | duration (nanoseconds : Int)
  | list (items : List String)
deriving DecidableEq, Repr

/-- A flag, what it is for, and how its default reads in help texts. -/
structure Flag where
  name : String
  kind : FlagKind
  purpose : String
  letter : Option Char := none
  shownDefault : Option String := none
deriving Repr

/-- What can be wrong with flags. -/
inductive FlagFault where
  | badForm (arg : String)
  | unknown (name : String)
  | unknownLetter (letter : UInt8) (group : Bytes)
  | valueMissing (arg : String)
  | invalidValue (value flag reason : String)
deriving DecidableEq, Repr

/-- The wording of a fault. -/
def FlagFault.message : FlagFault → String
  | .badForm arg => s!"bad flag syntax: {arg}"
  | .unknown name => s!"unknown flag: --{name}"
  | .unknownLetter letter group =>
    s!"unknown shorthand flag: {Text.quoteLetter (Char.ofNat letter.toNat)} in -{group.toText}"
  | .valueMissing arg => s!"flag needs an argument: {arg}"
  | .invalidValue value flag reason =>
    s!"invalid argument {Text.quoteString value} for {Text.quoteString flag} flag: {reason}"

/-! ## Values -/

/-- The words for true. -/
def trueWords : List String := ["1", "t", "T", "TRUE", "true", "True"]

/-- The words for false. -/
def falseWords : List String := ["0", "f", "F", "FALSE", "false", "False"]

/-- The words for a switch that is not understood. -/
def switchReason (value : String) : String :=
  s!"strconv.ParseBool: parsing {Text.quoteString value}: invalid syntax"

/-- The words for a number that is not understood or too large. -/
def intReason (value : String) : Numeral.Fault → String
  | .malformed => s!"strconv.ParseInt: parsing {Text.quoteString value}: invalid syntax"
  | .outOfRange => s!"strconv.ParseInt: parsing {Text.quoteString value}: value out of range"

/-- The value of a text, or why it is none. -/
def FlagKind.read (kind : FlagKind) (value : String) : Except String FlagValue :=
  match kind with
  | .text => .ok (.text value)
  | .int =>
    match Numeral.anyBaseInt64 value.toList with
    | .ok n => .ok (.int n)
    | .error f => .error (intReason value f)
  | .switch =>
    if trueWords.contains value then .ok (.switch true)
    else if falseWords.contains value then .ok (.switch false)
    else .error (switchReason value)
  | .duration =>
    match Duration.parse value with
    | .ok n => .ok (.duration n)
    | .error f => .error f.message
  | .list =>
    match Text.Separated.parse (Bytes.ofString value) with
    | .ok fields => .ok (.list (fields.map Bytes.toText))
    | .error f => .error f.message

namespace Flag

/-- A flag as it is named in faults. -/
def display (f : Flag) : String :=
  match f.letter with
  | some c => String.ofList ['-', c] ++ ", --" ++ f.name
  | none => "--" ++ f.name

/-- A flag that is given a value. -/
def assign (f : Flag) (value : String) : Except FlagFault (String × FlagValue) :=
  match f.kind.read value with
  | .ok v => .ok (f.name, v)
  | .error reason => .error (.invalidValue value f.display reason)

end Flag

/-! ## Command lines -/

/-- What a command line says: the values of flags in order, and the other words. -/
structure Arguments where
  values : List (String × FlagValue) := []
  words : List String := []
deriving Repr

/-- What the form of an argument shows. -/
inductive Form where
  | word
  | ending
  | long (body : String)
  | letters (group : Bytes)

/-- The form of an argument. A lone dash is a word. -/
def Form.of (arg : String) : Form :=
  match arg.toList with
  | ['-', '-'] => .ending
  | '-' :: '-' :: cs => .long (String.ofList cs)
  | '-' :: c :: cs => .letters (Bytes.ofString (String.ofList (c :: cs)))
  | _ => .word

/-- The flag of a long argument, and its value if it stands in the same argument or need not be given. -/
def longFlag (flags : List Flag) (arg body : String) : Except FlagFault (Flag × Option String) :=
  let cs := body.toList
  let name := String.ofList (cs.takeWhile (· != '='))
  if name.isEmpty || cs.head? == some '-' then .error (.badForm arg)
  else
    match flags.find? fun f => f.name == name with
    | none => .error (.unknown name)
    | some f =>
      match cs.dropWhile (· != '=') with
      | _ :: value => .ok (f, some (String.ofList value))
      | [] => .ok (f, if f.kind = .switch then some "true" else none)

/-- The beginning of what is meant for a test of the program and not for the program. -/
def testMark : Bytes := Bytes.ofString "test."

/-- The values of a group of letters, each of a switch. The first letter may have its value after an equals sign. What is meant
for a test is passed over. -/
def letterValues (flags : List Flag) : Bytes → Except FlagFault (List (String × FlagValue))
  | [] => .ok []
  | b :: rest =>
    if testMark.isPrefixOf (b :: rest) then .ok []
    else
      match flags.find? fun f => f.letter.map Bytes.ascii == some b with
      | none => .error (.unknownLetter b (b :: rest))
      | some f =>
        match rest with
        | e :: v :: vs =>
          if e == Bytes.ascii '=' then do return [← f.assign (Bytes.toText (v :: vs))]
          else do
            let value ← f.assign "true"
            return value :: (← letterValues flags (e :: v :: vs))
        | rest => do
          let value ← f.assign "true"
          return value :: (← letterValues flags rest)

/-- What a command line says. -/
def Arguments.parse (flags : List Flag) : List String → Except FlagFault Arguments
  | [] => .ok {}
  | arg :: rest =>
    match Form.of arg with
    | .word => do
      let a ← parse flags rest
      return { a with words := arg :: a.words }
    | .ending => .ok { words := rest }
    | .letters group => do
      let values ← letterValues flags group
      let a ← parse flags rest
      return { a with values := values ++ a.values }
    | .long body =>
      match longFlag flags arg body with
      | .error f => .error f
      | .ok (f, some value) => do
        let v ← f.assign value
        let a ← parse flags rest
        return { a with values := v :: a.values }
      | .ok (f, none) =>
        match rest with
        | [] => .error (.valueMissing arg)
        | value :: rest => do
          let v ← f.assign value
          let a ← parse flags rest
          return { a with values := v :: a.values }

namespace Arguments

/-- Whether a flag is given. -/
def has (a : Arguments) (name : String) : Bool :=
  a.values.any fun v => v.1 == name

/-- The last value that a flag is given. -/
def value? (a : Arguments) (name : String) : Option FlagValue :=
  a.values.reverse.lookup name

/-- The text of a flag. -/
def text (a : Arguments) (name default : String) : String :=
  match a.value? name with
  | some (.text s) => s
  | _ => default

/-- The number of a flag. -/
def int (a : Arguments) (name : String) (default : Int) : Int :=
  match a.value? name with
  | some (.int n) => n
  | _ => default

/-- The position of a switch; it is off if it is not given. -/
def switch (a : Arguments) (name : String) : Bool :=
  a.value? name == some (.switch true)

/-- The items of a flag, of all the times that it is given. -/
def items (a : Arguments) (name : String) : List String :=
  a.values.flatMap fun
    | (n, .list xs) => if n == name then xs else []
    | _ => []

end Arguments

end ModalGraph.CommandLine
