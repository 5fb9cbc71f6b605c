import BraceScript.CommandLine
import Std.Time.DateTime.Timestamp

/-!
# The program

Reads the files that a command line names, carries the command out and prints the answer.
-/

namespace BraceScript

/-- What is under a path that could not be read. -/
def stateOfError : IO.Error → FileState
  | .noFileOrDirectory .. => .missing "No such file or directory (os error 2)"
  | .inappropriateType _ 21 _ => .unreadable "Is a directory (os error 21)"
  | .inappropriateType .. => .missing "Not a directory (os error 20)"
  | .invalidArgument .. => .missing "File name too long (os error 36)"
  | .permissionDenied .. => .unreadable "Permission denied (os error 13)"
  | e => .unreadable (toString e)

/-- What is under a path. -/
def readState (path : String) : IO FileState := do
  try
    let bytes ← IO.FS.readBinFile path
    match String.fromUTF8? bytes with
    | some content => return .text content
    | none => return .unreadable "stream did not contain valid UTF-8"
  catch e => return stateOfError e

/-- The number of steps that a script may take. -/
def stepLimit : Nat := 1152921504606846976

/-- The present time in seconds after the epoch. -/
def clock : IO Nat := do
  let now ← Std.Time.Timestamp.now
  return now.toSecondsSinceUnixEpoch.val.toNat

end BraceScript

open BraceScript in
def main (args : List String) : IO UInt32 := do
  let request := Request.ofArgs args
  let states ← (CommandLine.paths request).mapM fun path => do return (path, ← readState path)
  let world : World := ⟨fun path => (states.lookup path).getD (.missing "not looked for"), ← clock⟩
  match CommandLine.perform stepLimit world request with
  | some answer =>
    IO.print answer.stdout
    IO.eprint answer.stderr
    return answer.exit
  | none =>
    IO.eprintln "error: the script took too many steps"
    return 1
