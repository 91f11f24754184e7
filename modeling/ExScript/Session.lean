import ExScript.Evaluation
import ExScript.Library.Default
import ExScript.Source

/-!
# Runs and sessions

A session keeps one machine for any number of runs.  Nothing is reset between them, not even after a
failure: what a failed run left on the channel stays there.
-/

namespace ExScript

namespace Env

def defaultMaxDepth : Int := 256

/-- More rounds than any loop gets through. -/
def manyRounds : Nat := 4611686018427387904

/-- The standard library and as many rounds as wanted. -/
def standard (maxDepth : Int) : Env := ⟨Library.standard, maxDepth, manyRounds⟩

end Env

structure Session where
  env : Env
  machine : Machine

namespace Session

/-- The frames that a run may use: enough for calls up to the limit, and some more. -/
def frameLimit (maxDepth : Int) : Nat := (max 1000 (16 * maxDepth + 1000)).toNat

theorem frameLimit_eq_add (maxDepth : Int) (k : Nat) (h : k ≤ 1000) :
    ∃ frames, frameLimit maxDepth = frames + k :=
  ⟨frameLimit maxDepth - k, by rw [frameLimit]; omega⟩

def create (env : Env) (streams : Streams) : Session := ⟨env, Machine.initial streams⟩

/-- The result is the topmost value of the channel, which stays there. -/
def finish (m : Machine) : Option Value × Machine :=
  (m.channel.head?, { m with log := .finished m.channel.length :: m.log })

/-- The host is asked for frames with a 32-bit number. -/
def maxFrames : Int := 2147483647

/-- The host can be asked for the frames that calls up to this limit want. -/
def Hosted (maxDepth : Int) : Prop := 16 * maxDepth + 1000 ≤ maxFrames

instance (maxDepth : Int) : Decidable (Hosted maxDepth) := inferInstanceAs (Decidable (_ ≤ _))

/-- A `return` outside of all functions ends the run and leaves its value on the channel. -/
def runHosted (env : Env) (program : Node) (m : Machine) :
    Except Abort (Option Value) × Machine :=
  match Eval.exec env (frameLimit env.maxDepth) program m with
  | .ok _ m => let (result, m) := finish m; (.ok result, m)
  | .error (.returned v) m =>
    let (result, m) := finish { m with channel := v :: m.channel }
    (.ok result, m)
  | .error (.abort a) m => (.error a, m)

/-- Without the frames nothing is run at all. -/
def runMachine (env : Env) (program : Node) (m : Machine) :
    Except Abort (Option Value) × Machine :=
  if Hosted env.maxDepth then runHosted env program m else (.error (.crashed .tooManyFrames), m)

section Hosted

variable {env : Env}

theorem Hosted.of_le {d d' : Int} (h : d ≤ d') (h' : Hosted d') : Hosted d := by
  unfold Hosted at *
  omega

theorem runMachine_of_hosted (h : Hosted env.maxDepth) : runMachine env = runHosted env := by
  funext program m
  exact if_pos h

theorem runMachine_of_not_hosted (h : ¬ Hosted env.maxDepth) (program : Node) (m : Machine) :
    runMachine env program m = (.error (.crashed .tooManyFrames), m) :=
  if_neg h

end Hosted

def run (s : Session) (program : Node) : Except Abort (Option Value) × Session :=
  let (result, m) := runMachine s.env program s.machine
  (result, { s with machine := m })

theorem run_of_hosted {s : Session} (h : Hosted s.env.maxDepth) (program : Node) :
    s.run program = ((runHosted s.env program s.machine).1,
      { s with machine := (runHosted s.env program s.machine).2 }) := by
  rw [run, runMachine_of_hosted h]

def global? (s : Session) (name : String) : Option Value := s.machine.scopes.globals.find? name

def withChannel (s : Session) (channel : List Value) : Session :=
  { s with machine := { s.machine with channel := channel } }

def push (s : Session) (v : Value) : Session := s.withChannel (v :: s.machine.channel)

def pop (s : Session) (role : Role) (pos : Option Pos) : Except Abort Value × Session :=
  match s.machine.channel with
  | v :: rest => (.ok v, s.withChannel rest)
  | [] => (.error (.failed ⟨.missingValue role, pos⟩), s)

def clearChannel (s : Session) : Session := s.withChannel []

def withStreams (s : Session) (streams : Streams) : Session :=
  { s with machine := { s.machine with streams := streams } }

def clearLog (s : Session) : Session := { s with machine := { s.machine with log := [] } }

/-- A session at its start that goes on with the same streams. -/
def restart (s : Session) : Session := ⟨s.env, Machine.initial s.machine.streams⟩

def output (s : Session) : String := s.machine.streams.output

/-- Forgets what was written and logged so far. -/
def forgetOutput (s : Session) : Session :=
  (s.withStreams { s.machine.streams with output := "" }).clearLog

/-- The log, the first record first. -/
def records (s : Session) : List LogRecord := s.machine.log.reverse

end Session

/-- Why a source text has no result. -/
inductive RunFailure where
  | source (error : SourceError)
  | abort (abort : Abort)
  deriving DecidableEq, Repr

namespace Session

/-- Reads a text and runs it.  Without a program nothing happens to the session. -/
def runSource (s : Session) (source : String) : Except RunFailure (Option Value) × Session :=
  match parse source with
  | .error e => (.error (.source e), s)
  | .ok program =>
    let (result, s) := s.run program.toNode
    (result.mapError .abort, s)

end Session

/-- Runs a source text in a session of its own. -/
def runSource (env : Env) (streams : Streams) (source : String) :
    Except RunFailure (Option Value) × Streams :=
  let (result, s) := (Session.create env streams).runSource source
  (result, s.machine.streams)

end ExScript
