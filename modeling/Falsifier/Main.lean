import Falsifier.Command.FileTree
import Falsifier.Command.Report

/-!
# The program

Reads the words of the command line and the input, and prints the report of the command. Messages
go to standard error as far as the variable `FALSIFIER_LOG` asks for them (`debug` or `trace`).
-/

namespace Falsifier

/-- The number by which the system reports an error. It may come with a negative sign, in 32 bits. -/
def codeOf : IO.Error → Nat
  | .noFileOrDirectory _ code _ | .permissionDenied _ code _ | .inappropriateType _ code _
  | .invalidArgument _ code _ => (Int.bmod code.toNat shortBound).natAbs
  | _ => 0

/-- What the system says about a file that cannot be read. -/
def reasonOf (e : IO.Error) : String :=
  match FileError.ofCode? (codeOf e) with
  | some error => error.message
  | none => toString e

/-- Read a stream to its end. -/
partial def drain (stream : IO.FS.Stream) (bytes : ByteArray) : IO ByteArray := do
  let more ← stream.read 65536
  if more.isEmpty then return bytes else drain stream (bytes ++ more)

/-- Read a file, or standard input when none is named. -/
def readInput (file : Option String) : IO Dimacs.Input := do
  try
    let bytes ← match file with
      | some path => IO.FS.readBinFile path
      | none => drain (← IO.getStdin) .empty
    return ⟨bytes.toList, .complete⟩
  catch e => return ⟨[], .broken (reasonOf e)⟩

/-- A number that nobody can foresee. -/
def entropy : IO Nat := do
  let bytes ← IO.getRandomBytes 8
  return bytes.toList.foldl (fun n b => 256 * n + b.toNat) 0

/-- The report of a call. -/
def reportOf (args : List String) : IO Command.Report := do
  match Command.ofArgs args with
  | .error refusal => return Command.refusalReport refusal
  | .ok command =>
    let input ← if command.readsInput then readInput command.file? else pure ⟨[], .complete⟩
    return command.report input (← entropy)

end Falsifier

open Falsifier in
/-- Run the command that the arguments name. -/
def main (args : List String) : IO UInt32 := do
  let report ← reportOf args
  if let some level := ((← IO.getEnv "FALSIFIER_LOG").bind Level.ofName?) then
    for m in report.messages do
      if level.shows m.level then IO.eprintln m.line
  IO.print report.output
  IO.eprint report.errors
  return UInt32.ofNat report.code
