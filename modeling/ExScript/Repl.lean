import ExScript.Session
import ExScript.Text.Blank

/-!
# Interactive sessions

Programs of one line each are run one after the other on the same session.  A line that fails is
reported, and the next one starts from a fresh session; after a line that succeeds its result is
shown and the channel is cleared.  The lines and the results go over streams of their own or over
those of the programs.
-/

namespace ExScript

/-- How a failure is reported.  Those that are not of the language are not. -/
def RunFailure.report : RunFailure → Except Abort String
  | source (.lex e) => .ok (String.join ["exlang: syntax error: ", e.message])
  | source (.parse e) => .ok (String.join ["exlang: parse error: ", e.message])
  | abort (.failed e) =>
    match e.cause.category with
    | .type => .ok (String.join ["exlang: type error: ", e.message])
    | .name => .ok (String.join ["exlang: error: ", e.message])
    | .fault | .recursion => .ok (String.join ["exlang: runtime error: ", e.message])
  | abort a => .error a

structure Repl where
  session : Session
  /-- The streams for lines and results, unless these are the streams of the programs. -/
  console : Option Streams
  /-- Whether a prompt is written before each line. -/
  prompts : Bool
  /-- Whether the log is written to the errors. -/
  verbose : Bool
  errors : String

namespace Repl

def prompt : String := "ex> "

def restartRecord : String := "exlang.cli: DEBUG: discarding interpreter state after error"

def takeLine (r : Repl) : Option (List Char) × Repl :=
  match r.console with
  | some streams =>
    let (line, streams) := streams.takeLine
    (line, { r with console := some streams })
  | none =>
    let (line, streams) := r.session.machine.streams.takeLine
    (line, { r with session := r.session.withStreams streams })

def write (r : Repl) (text : String) : Repl :=
  match r.console with
  | some streams => { r with console := some (streams.write text) }
  | none => { r with session := r.session.withStreams (r.session.machine.streams.write text) }

def writePrompt (r : Repl) : Repl := if r.prompts then r.write prompt else r

def writeError (r : Repl) (line : String) : Repl := { r with errors := r.errors ++ line ++ "\n" }

def writeRecord (r : Repl) (line : String) : Repl := if r.verbose then r.writeError line else r

/-- Moves the log of the session to the errors. -/
def flushLog (r : Repl) : Repl :=
  let flushed := r.session.records.foldl (fun r record => r.writeRecord record.line) r
  { flushed with session := flushed.session.clearLog }

/-- A line that succeeded: its result is shown, the channel is empty for the next line. -/
def succeed (r : Repl) (result : Option Value) : Repl :=
  let shown := match result with
    | some v => r.write (v.display ++ "\n")
    | none => r
  { shown with session := shown.session.clearChannel }

/-- A line that failed: everything but the streams starts again. -/
def restart (r : Repl) (report : String) : Repl :=
  let reported := (r.writeError report).writeRecord restartRecord
  { reported with session := reported.session.restart }

/-- Runs one line.  A failure that is not reported ends everything. -/
def runLine (r : Repl) (text : String) : Option Abort × Repl :=
  let (result, session) := r.session.runSource text
  let ran := { r with session := session }.flushLog
  match result with
  | .ok v => (none, ran.succeed v)
  | .error failure =>
    match failure.report with
    | .ok report => (none, ran.restart report)
    | .error a => (some a, ran)

inductive Input where
  | exit
  | blank
  | program (text : String)

/-- What a line asks for. -/
def Input.ofLine (line : List Char) : Input :=
  let text := Text.dropEndWhile (fun c => c = '\r' || c = '\n') line
  let word := Text.strip text
  if word = "exit".toList then exit
  else if word.isEmpty then blank
  else program (String.ofList text)

/-- Runs lines until there are no more, at most as many as there is fuel for. -/
def loop : Nat → Repl → Option Abort × Repl
  | 0, r => (none, r)
  | fuel + 1, r =>
    match r.writePrompt.takeLine with
    | (none, r) => (none, r)
    | (some line, r) =>
      match Input.ofLine line with
      | .exit => (none, r)
      | .blank => loop fuel r
      | .program text =>
        match r.runLine text with
        | (none, next) => loop fuel next
        | (some a, last) => (some a, last)

/-- The text from which lines are taken. -/
def unread (r : Repl) : List Char := (r.console.getD r.session.machine.streams).input

/-- Every line takes at least one character of the text, so the fuel is never used up. -/
def run (r : Repl) : Option Abort × Repl := loop (r.unread.length + 1) r

/-- An interactive session at its start. -/
def create (env : Env) (programs : Streams) (console : Option Streams) (prompts verbose : Bool) :
    Repl :=
  ⟨Session.create env programs, console, prompts, verbose, ""⟩

/-- What was shown to the user. -/
def shown (r : Repl) : String := (r.console.getD r.session.machine.streams).output

end Repl

end ExScript
