import ExScript.Repl
import ExScript.Text.DecimalDigit

/-!
# The command line

`Options.ofArgs` reads the arguments, `Options.command` tells what they ask for, and
`Command.execute` does it.  The contents of the file are read in between, by whoever has a file
system.
-/

namespace ExScript

namespace CommandLine

/-! ## Reading a depth -/

/-- White space around a number; the information separators do not count. -/
def isNumberBlank (c : Char) : Bool := Text.isBlank c && !(0x1c ≤ c.toNat && c.toNat ≤ 0x1f)

/-- Digits of any script with single underscores between them, as their values. -/
def readDigits? : List Char → Option (List Nat)
  | [] => none
  | [c] => (Text.decimalDigit? c).map fun d => [d]
  | c :: '_' :: rest => do
    let d ← Text.decimalDigit? c
    return d :: (← readDigits? rest)
  | c :: rest => do
    let d ← Text.decimalDigit? c
    return d :: (← readDigits? rest)

def splitSign : List Char → Int × List Char
  | '+' :: rest => (1, rest)
  | '-' :: rest => (-1, rest)
  | cs => (1, cs)

/-- More digits than this are refused, leading zeros included. -/
def maxDigits : Nat := 4300

def readInteger? (text : String) : Option Int := do
  let body := Text.dropEndWhile isNumberBlank (text.toList.dropWhile isNumberBlank)
  let (sign, cs) := splitSign body
  let digits ← readDigits? cs
  if maxDigits < digits.length then none
  else return sign * (digits.foldl (fun n d => n * 10 + d) 0 : Nat)

/-! ## Options -/

structure Options where
  file : String
  tokens : Bool
  ast : Bool
  verbose : Bool
  maxDepth : Int
  deriving DecidableEq, Repr

def Options.initial : Options := ⟨"", false, false, false, Env.defaultMaxDepth⟩

/-- Why arguments are not accepted, or are not read on. -/
inductive Refusal where
  | help
  | missingDepth
  | invalidDepth (text : String)
  | depthNotPositive
  | unknownFlag (arg : String)
  | unexpectedArgument (arg : String)
  | missingFile
  deriving DecidableEq, Repr

def usageLines : List String := [
    "exlang [OPTIONS] [FILE]",
    "",
    "Run an Ex program. Without FILE, start an interactive session.",
    "",
    "Options:",
    "  --tokens           Print the token stream and exit",
    "  --ast              Print the normalized program and exit",
    "  --max-depth N      Maximum user function call depth (default 256)",
    "  --verbose          Log interpreter activity to stderr",
    "  --help             Show this help message"]

def usage : String := String.join (usageLines.map (· ++ "\n"))

def Refusal.message : Refusal → String
  | help => usage
  | missingDepth => "exlang: --max-depth requires a value\n"
  | invalidDepth text => String.join ["exlang: invalid --max-depth '", text, "'\n"]
  | depthNotPositive => "exlang: --max-depth must be positive\n"
  | unknownFlag arg => String.join ["exlang: unknown flag '", arg, "'\n"]
  | unexpectedArgument arg => String.join ["exlang: unexpected argument '", arg, "'\n"]
  | missingFile => "exlang: missing file argument\n"

def readDepth (text : String) : Except Refusal Int :=
  match readInteger? text with
  | none => .error (.invalidDepth text)
  | some n => if n < 1 then .error .depthNotPositive else .ok n

/-- What an argument is, unless it is the value of the option before it. -/
inductive Argument where
  | help | tokens | ast | verbose | maxDepth
  | unknownFlag (text : String)
  | plain (text : String)
  deriving DecidableEq, Repr

def Argument.ofText (text : String) : Argument :=
  if text = "--help" || text = "-h" then help
  else if text = "--tokens" then tokens
  else if text = "--ast" then ast
  else if text = "--verbose" then verbose
  else if text = "--max-depth" then maxDepth
  else if text.toList.head? = some '-' then unknownFlag text
  else plain text

/-- Arguments from left to right; the first that does not fit ends the reading. -/
def Options.ofArgs : List String → Options → Except Refusal Options
  | [], o => .ok o
  | arg :: rest, o =>
    match Argument.ofText arg with
    | .help => .error .help
    | .tokens => ofArgs rest { o with tokens := true }
    | .ast => ofArgs rest { o with ast := true }
    | .verbose => ofArgs rest { o with verbose := true }
    | .maxDepth =>
      match rest with
      | [] => .error .missingDepth
      | text :: rest =>
        match readDepth text with
        | .ok n => ofArgs rest { o with maxDepth := n }
        | .error e => .error e
    | .unknownFlag text => .error (.unknownFlag text)
    | .plain text =>
      if o.file = "" then ofArgs rest { o with file := text }
      else .error (.unexpectedArgument text)

inductive Mode where
  | tokens | ast | run
  deriving DecidableEq, Repr

inductive Command where
  | refuse (refusal : Refusal)
  | interactive (maxDepth : Int) (verbose : Bool)
  | file (path : String) (mode : Mode) (maxDepth : Int) (verbose : Bool)
  deriving DecidableEq, Repr

/-- The tokens are listed if both listings are asked for. -/
def Options.mode (o : Options) : Mode :=
  if o.tokens then .tokens else if o.ast then .ast else .run

def Options.command (o : Options) : Command :=
  if o.file = "" then
    if o.mode = .run then .interactive o.maxDepth o.verbose else .refuse .missingFile
  else .file o.file o.mode o.maxDepth o.verbose

def Command.ofArgs (args : List String) : Command :=
  match Options.ofArgs args Options.initial with
  | .ok o => o.command
  | .error e => .refuse e

def Command.path? : Command → Option String
  | file path _ _ _ => some path
  | _ => none

/-! ## Execution -/

inductive FileError where
  | missing
  | directory
  | other (message : String)
  deriving DecidableEq, Repr

def FileError.message (path : String) : FileError → String
  | missing => "No such file or directory"
  | directory => String.join ["[Errno 21] Is a directory: ", Text.quoted path]
  | other message => message

inductive Ending where
  | exit (code : Nat)
  | abort (abort : Abort)
  | unprintable (error : PrintError)
  deriving DecidableEq, Repr

structure Outcome where
  ending : Ending
  stdout : String
  stderr : String
  deriving DecidableEq, Repr

def Refusal.outcome : Refusal → Outcome
  | help => ⟨.exit 0, usage, ""⟩
  | e => ⟨.exit 2, "", e.message⟩

/-- A file that cannot be used is reported with its path. -/
def fileFailure (path message : String) : Outcome :=
  ⟨.exit 1, "", String.join ["exlang: ", path, ": ", message, "\n"]⟩

/-- The failure of a run after some output and some lines of log. -/
def failureOutcome (failure : RunFailure) (stdout log : String) : Outcome :=
  match failure.report with
  | .ok report => ⟨.exit 1, stdout, log ++ report ++ "\n"⟩
  | .error a => ⟨.abort a, stdout, log⟩

def listTokens (source : String) : Outcome :=
  match tokenize source with
  | .ok tokens => ⟨.exit 0, String.join (tokens.map fun t => t.listing ++ "\n"), ""⟩
  | .error e => failureOutcome (.source (.lex e)) "" ""

def printProgram (source : String) : Outcome :=
  match parse source with
  | .error e => failureOutcome (.source e) "" ""
  | .ok program =>
    match program.print (some Printer.nestingLimit) with
    | .ok text => ⟨.exit 0, text, ""⟩
    | .error e => ⟨.unprintable e, "", ""⟩

def logText (s : Session) (verbose : Bool) : String :=
  if verbose then String.join (s.records.map fun r => r.line ++ "\n") else ""

def runProgram (source : String) (maxDepth : Int) (verbose : Bool) (streams : Streams) : Outcome :=
  let (result, s) := (Session.create (Env.standard maxDepth) streams).runSource source
  match result with
  | .ok _ => ⟨.exit 0, s.output, logText s verbose⟩
  | .error failure => failureOutcome failure s.output (logText s verbose)

def interact (maxDepth : Int) (verbose prompts : Bool) (streams : Streams) : Outcome :=
  let (result, r) := (Repl.create (Env.standard maxDepth) streams none prompts verbose).run
  match result with
  | none => ⟨.exit 0, r.shown, r.errors⟩
  | some a => ⟨.abort a, r.shown, r.errors⟩

def runFile (path : String) (mode : Mode) (maxDepth : Int) (verbose : Bool) (streams : Streams) :
    Except FileError ByteArray → Outcome
  | .error e => fileFailure path (e.message path)
  | .ok bytes =>
    match String.fromUTF8? bytes with
    | none => fileFailure path "invalid utf-8"
    | some source =>
      match mode with
      | .tokens => listTokens source
      | .ast => printProgram source
      | .run => runProgram source maxDepth verbose streams

/-- Executes a command, given the contents of its file.  `prompts` says whether a user sits at the
input. -/
def Command.execute (c : Command) (contents : Except FileError ByteArray) (streams : Streams)
    (prompts : Bool) : Outcome :=
  match c with
  | refuse e => e.outcome
  | interactive maxDepth verbose => interact maxDepth verbose prompts streams
  | file path mode maxDepth verbose => runFile path mode maxDepth verbose streams contents

end CommandLine

end ExScript
