import ModalGraph.CommandLine.Run

/-!
# The program

Reads standard input and the files that the command line names, runs it, and prints what it comes to. Serving
needs a network, which this program has none of.
-/

namespace ModalGraph.Program

open CommandLine

/-- The text of a file, if it can be read. -/
def readFile (path : String) : IO (Except ReadFault String) := do
  try
    let bytes ← IO.FS.readBinFile path
    return .ok (Bytes.toText bytes.toList)
  catch
    | .inappropriateType .. => return .error .isFolder
    | _ => return .error .missing

/-- All bytes of a stream after those that are read already. -/
partial def readAll (stream : IO.FS.Stream) (read : ByteArray) : IO ByteArray := do
  let chunk ← stream.read 65536
  if chunk.isEmpty then return read else readAll stream (read ++ chunk)

/-- The surroundings of a command line. -/
def surroundings (args : List String) : IO Surroundings := do
  let paths := filesOf args
  let stdin ← if paths.contains "-" then readAll (← IO.getStdin) .empty else pure .empty
  let files ← paths.mapM fun p => return (p, ← readFile p)
  return { stdin := Bytes.toText stdin.toList, read := fun p => (files.lookup p).getD (.error .missing) }

/-- Runs a command line as often as it asks for, and gives what it comes to with the nanoseconds that this took. -/
def timedRun (s : Surroundings) (args : List String) : IO (Action × Nat) := do
  let start ← IO.monoNanosNow
  let action ← IO.lazyPure fun _ => run s args
  if let .ended { timed := some n, .. } := action then
    for _ in [1:n] do
      let _ ← IO.lazyPure fun _ => run s args
  return (action, (← IO.monoNanosNow) - start)

end ModalGraph.Program

open ModalGraph ModalGraph.CommandLine ModalGraph.Program in
/-- Runs the command line and exits with one if it fails. -/
def main (args : List String) : IO UInt32 := do
  let s ← surroundings args
  match ← timedRun s args with
  | (.ended o, elapsed) =>
    let stdout ← IO.getStdout
    stdout.write ⟨o.stdout.toArray⟩
    stdout.flush
    IO.eprint (o.stderr (Duration.text elapsed) (Duration.text (elapsed / o.timed.getD 1)))
    return o.exitCode.toUInt32
  | (.listen address _, _) =>
    IO.eprintln s!"Error: listen tcp {address.host}:{address.service}: socket: operation not supported"
    return 1
