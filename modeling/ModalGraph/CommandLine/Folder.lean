import ModalGraph.Text.Bytes

/-!
# Files by their paths

A command line runs in a folder of files. A path leads step by step from there: an empty step or a dot stays, two dots go up, and a
name goes down. `Folder.read` follows a path and gives the text at its end, or the reason why there is none. Nothing is known of
what lies outside the folder but that there are folders.
-/

namespace ModalGraph.CommandLine

/-- Why there is no text at the end of a path. -/
inductive ReadFault where
  | missing
  | notFolder
  | isFolder
  | nameTooLong
  | invalidPath
deriving DecidableEq, Repr

namespace ReadFault

/-- The reason of a fault. -/
def reason : ReadFault → String
  | .missing => "no such file or directory"
  | .notFolder => "not a directory"
  | .isFolder => "is a directory"
  | .nameTooLong => "file name too long"
  | .invalidPath => "invalid argument"

/-- A folder can be opened, but not read. -/
def verb : ReadFault → String
  | .isFolder => "read"
  | _ => "open"

/-- The wording of a fault on a path. -/
def message (f : ReadFault) (path : String) : String :=
  s!"{f.verb} {path}: {f.reason}"

end ReadFault

/-- The steps of a path. -/
def stepsOf (path : String) : List String :=
  path.splitOn "/"

/-- The files of a folder and of the folders in it, by the names that lead to them. -/
structure Folder where
  files : List (List String × String)
deriving Repr

/-- Where a path has led to. -/
inductive Place where
  | outside
  | inside (names : List String)
  | file (text : String)
deriving Repr

namespace Folder

/-- The folder of some files by their paths. -/
def ofList (files : List (String × String)) : Folder :=
  ⟨files.map fun (path, text) => ((stepsOf path).filter fun s => !s.isEmpty && s != ".", text)⟩

/-- How many bytes a name may have. -/
def maxName : Nat := 255

/-- How many bytes a path may have. -/
def maxPath : Nat := 4095

/-- The place that a name leads to from a folder inside. -/
def enter (f : Folder) (names : List String) : Except ReadFault Place :=
  match f.files.lookup names with
  | some text => .ok (.file text)
  | none => if f.files.any fun (path, _) => names.isPrefixOf path then .ok (.inside names) else .error .missing

/-- One step of a path. -/
def step (f : Folder) (p : Place) (s : String) : Except ReadFault Place :=
  match p with
  | .file _ => .error .notFolder
  | .outside =>
    if s.isEmpty || s == "." || s == ".." then .ok .outside
    else if maxName < s.utf8ByteSize then .error .nameTooLong
    else .error .missing
  | .inside names =>
    if s.isEmpty || s == "." then .ok p
    else if s == ".." then .ok (if names.isEmpty then .outside else .inside names.dropLast)
    else if maxName < s.utf8ByteSize then .error .nameTooLong
    else f.enter (names ++ [s])

/-- The place that a path leads to. -/
def follow (f : Folder) (path : String) : Except ReadFault Place :=
  if path.toList.contains (Char.ofNat 0) then .error .invalidPath
  else if path.isEmpty then .error .missing
  else if maxPath < path.utf8ByteSize then .error .nameTooLong
  else (stepsOf path).foldlM f.step (if path.startsWith "/" then .outside else .inside [])

/-- The text at the end of a path. -/
def read (f : Folder) (path : String) : Except ReadFault String := do
  match ← f.follow path with
  | .file text => .ok text
  | _ => .error .isFolder

end Folder

end ModalGraph.CommandLine
