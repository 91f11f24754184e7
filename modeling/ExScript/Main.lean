import ExScript.CommandLine

/-!
# The program

Reads the file that the arguments name and the standard input, executes the command and hands its
outcome to the system.
-/

namespace ExScript.CommandLine

def fileErrorOf : IO.Error → FileError
  | .noFileOrDirectory .. => .missing
  | .inappropriateType .. => .directory
  | e => .other (toString e)

/-- The contents of the file of a command, if it has one. -/
def contentsFor (c : Command) : IO (Except FileError ByteArray) := do
  match c.path? with
  | none => return .error .missing
  | some path =>
    try return .ok (← IO.FS.readBinFile path)
    catch e => return .error (fileErrorOf e)

def needsInput : Command → Bool
  | .interactive .. => true
  | .file _ mode _ _ => mode = .run
  | .refuse _ => false

partial def readRest (stdin : IO.FS.Stream) (text : String) : IO String := do
  let line ← stdin.getLine
  if line.isEmpty then return text else readRest stdin (text ++ line)

def exitCode : Ending → UInt32
  | .exit code => code.toUInt32
  | _ => 1

def describeEnding : Ending → String
  | .exit _ => ""
  | .abort (.crashed c) => c.message ++ "\n"
  | .abort _ => "stopped\n"
  | .unprintable e => e.message ++ "\n"

end ExScript.CommandLine

open ExScript CommandLine

def main (args : List String) : IO UInt32 := do
  let command := Command.ofArgs args
  let contents ← contentsFor command
  let stdin ← IO.getStdin
  let input ← if needsInput command then readRest stdin "" else pure ""
  let outcome := command.execute contents (Streams.ofInput input) (← stdin.isTty)
  IO.print outcome.stdout
  IO.eprint (outcome.stderr ++ describeEnding outcome.ending)
  return exitCode outcome.ending
