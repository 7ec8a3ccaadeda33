/-
  The program on a command line.

  Reads the files that the command names, does the rest without any input or output
  (`Command.run`), and prints what that leaves behind.
-/
import PackratCpp.Cli.Run

namespace PackratCpp.Cli

/-- A failure to read, from what the system says about it. -/
def readFailure : IO.Error → ReadFailure
  | .noFileOrDirectory .. => .missing
  | .inappropriateType _ code details | .invalidArgument _ code details =>
    if code = 21 then .isDirectory
    else if code = 20 then .notDirectory
    else .other details
  | e => .other (toString e)

/-- What a file holds. -/
def readFile (path : String) : IO (Except ReadFailure String) := do
  try
    return Directory.decode (← IO.FS.readBinFile path)
  catch e =>
    return .error (readFailure e)

/-- All that a stream holds, behind what is in `start`. -/
partial def readAll (input : IO.FS.Stream) (start : ByteArray) : IO ByteArray := do
  let piece ← input.read 65536
  if piece.isEmpty then return start else readAll input (start ++ piece)

/-- What is there for a command to read. -/
def surroundings (command : Command) : IO Surroundings := do
  let paths := command.paths
  let files ← paths.mapM fun path => return (path, ← readFile path)
  let input ←
    if standardInput ∈ paths then
      pure (Directory.decode (← readAll (← IO.getStdin) .empty))
    else
      pure (.ok "")
  return ⟨fun path => (files.lookup path).getD (.error .missing), input⟩

/-- What is said to arguments that ask for nothing. -/
def usage : String :=
  "usage: cxxparse tree FILE | check FILE... | rules | --version"

end PackratCpp.Cli

open PackratCpp.Cli in
/-- Does what the arguments ask for. -/
def main (args : List String) : IO UInt32 := do
  match Command.ofArgs? args with
  | none =>
    IO.eprintln usage
    return 2
  | some command =>
    let filter := match ← IO.getEnv "RUST_LOG" with
      | some text => LogFilter.ofText text
      | none => .standard
    let t := command.run (← surroundings command)
    IO.print t.output
    IO.eprint (t.errorOutput filter)
    return t.code.toUInt32
