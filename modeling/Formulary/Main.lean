import Formulary.Digest.Sha
import Formulary.Host.Standard
import Formulary.Shell.Program
import Std.Time.DateTime.Timestamp

/-!
# The command line

Reads the arguments, the clock and the files, and runs the program. An interactive session reads
lines until one ends it or there are no more.
-/

namespace Formulary.Shell

def clock : IO Calendar.Moment := do
  let t ← Std.Time.Timestamp.now
  return .ofTotal t.toNanosecondsSinceUnixEpoch.val .utc

/-- Numbers drawn from a random seed. -/
def dice : IO (Nat → Nat) := do
  let seed ← IO.getRandomBytes 16
  return fun n =>
    (Digest.Sha2.digest256 (seed.toList ++ Text.ofString (toString n))).foldl (fun acc b =>
      acc * 256 + b.toNat) 0 % Nat.pow 2 128

def readFile (path : String) : IO (Except FileFault Text) := do
  try
    return .ok (← IO.FS.readBinFile path).toList
  catch
    | .noFileOrDirectory .. => return .error .missing
    | .inappropriateType .. => return .error .directory
    | e => return .error (.other (toString e))

/-- The contents of the files that a command line reads. -/
def readFiles (words : List Text) : IO Files := do
  let contents ← (neededFiles words).mapM fun path => do return (path, ← readFile path)
  return fun path => ((contents.find? (·.1 == path)).map (·.2)).getD (.error .missing)

partial def lead (input output : IO.FS.Stream) (d : Desk) : IO Unit := do
  output.putStr "flee> "
  output.flush
  let line ← input.getLine
  if line.isEmpty then output.putStrLn ""
  else
    let line := Text.trim (Text.ofString line)
    if line.isEmpty then lead input output d
    else
      match answer d line with
      | (.ok reply, d) =>
        output.putStr reply.output.toString
        if !reply.ends then lead input output d
      | (.error f, d) =>
        output.putStrLn s!"error: {f.message}"
        lead input output d

end Formulary.Shell

open Formulary Formulary.Shell

def main (args : List String) : IO UInt32 := do
  let words := args.map Text.ofString
  match run ⟨Standard.host, ⟨← clock, ← dice⟩, ← readFiles words⟩ words with
  | .ok (.printed t) =>
    (← IO.getStdout).write ⟨t.toArray⟩
    return 0
  | .ok (.session d) =>
    let output ← IO.getStdout
    output.putStrLn "flee REPL, :help for commands"
    lead (← IO.getStdin) output d
    return 0
  | .error f =>
    (← IO.getStderr).putStrLn s!"Error: {f.message}"
    return 1
