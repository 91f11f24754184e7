import ExScript.Library.Callable

/-!
# Functions on the streams

`write` and `writeln` put the display texts of their arguments one after the other without anything
between them.  `read` writes a prompt if it has one and takes a line, whose carriage return at the
end is dropped.
-/

namespace ExScript.Library

/-- The display texts one after the other. -/
def writeAll (s : Streams) (args : List Value) : Streams :=
  args.foldl (fun s arg => s.write arg.display) s

def write : LibraryFunction := fun args => do
  modify fun s => writeAll s args
  return none

def writeln : LibraryFunction := fun args => do
  modify fun s => (writeAll s args).write "\n"
  return none

/-- One carriage return at the end of a line belongs to the line end. -/
def chomp (line : List Char) : List Char :=
  if line.getLast? = some '\r' then line.dropLast else line

def takeLine : EStateM LibraryFault Streams (Option (List Char)) := modifyGet Streams.takeLine

/-- The prompt is written even if there is no line left. -/
def read : LibraryFunction := fun args => do
  if 1 < args.length then throw (.error (.tooManyArguments args.length))
  modify fun s => writeAll s args
  match ← takeLine with
  | none => throw (.error .endOfInput)
  | some line => return some (.string (String.ofList (chomp line)))

def consoleTable : Table LibraryFunction :=
  Table.ofList [("write", write), ("writeln", writeln), ("read", read)]

end ExScript.Library
