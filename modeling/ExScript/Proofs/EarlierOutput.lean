import ExScript.Proofs.ScopeFrame
import ExScript.Proofs.StandardLimits

/-!
# Output is only added to

No rule and no function of the standard library looks at what was written before.  So a run on
streams with earlier output ends in the same way, and its own output follows the earlier one
(`runSource_after`).
-/

namespace ExScript

/-! ## Streams with earlier output -/

namespace Streams

/-- The same streams with a text written before everything else. -/
def after (s : Streams) (text : String) : Streams := { s with output := text ++ s.output }

theorem write_after (s : Streams) (text more : String) :
    (s.after text).write more = (s.write more).after text := by
  simp [after, write, String.append_assoc]

theorem takeLine_after (s : Streams) (text : String) :
    (s.after text).takeLine = (s.takeLine.1, s.takeLine.2.after text) := by
  obtain ⟨input, output⟩ := s
  cases input with
  | nil => rfl
  | cons c rest => rfl

end Streams

namespace Library

variable {args : List Value} {text : String}

/-- Earlier output makes no difference to a function, and is kept. -/
def Oblivious (f : LibraryFunction) : Prop :=
  ∀ args s text, f args (Streams.after s text) =
    match f args s with
    | .ok result s => .ok result (s.after text)
    | .error fault s => .error fault (s.after text)

theorem writeAll_after (s : Streams) (args : List Value) (text : String) :
    writeAll (s.after text) args = (writeAll s args).after text := by
  induction args generalizing s with
  | nil => rfl
  | cons arg args ih =>
    show writeAll ((s.after text).write arg.display) args = _
    rw [Streams.write_after]
    exact ih _

theorem oblivious_write : Oblivious write := by
  intro args s text
  show EStateM.Result.ok none (writeAll (s.after text) args) = _
  rw [writeAll_after]
  rfl

theorem oblivious_writeln : Oblivious writeln := by
  intro args s text
  show EStateM.Result.ok none ((writeAll (s.after text) args).write "\n") = _
  rw [writeAll_after, Streams.write_after]
  rfl

theorem oblivious_read : Oblivious read := by
  intro args s text
  unfold read
  split
  · rfl
  · simp only [modify, takeLine, bind_modifyGet, writeAll_after, Streams.takeLine_after]
    cases (writeAll s args).takeLine.1 with
    | none => rfl
    | some line => rfl

theorem oblivious_standard {f : LibraryFunction} {name : String}
    (hf : standard.functions.find? name = some f) : Oblivious f := by
  have hmem := Table.mem_of_find?_ofList (show consoleTable.find? name = some f from hf)
  simp only [List.mem_cons, Prod.mk.injEq, List.not_mem_nil, or_false] at hmem
  rcases hmem with ⟨_, rfl⟩ | ⟨_, rfl⟩ | ⟨_, rfl⟩
  · exact oblivious_write
  · exact oblivious_writeln
  · exact oblivious_read

end Library

def Machine.after (m : Machine) (text : String) : Machine :=
  { m with streams := m.streams.after text }

namespace Eval

variable {α β : Type} {env : Env}

/-- Earlier output makes no difference to an evaluation, and is kept. -/
def Oblivious (p : Eval α) : Prop := ∀ m text, p (m.after text) = onReached (·.after text) (p m)

/-! ## Steps -/

theorem oblivious_pure (a : α) : Oblivious (pure a : Eval α) := fun _ _ => rfl

theorem oblivious_throw (e : Interrupt) : Oblivious (throw e : Eval α) := fun _ _ => rfl

theorem oblivious_fail (cause : Cause) (pos : Option Pos) : Oblivious (fail cause pos : Eval α) :=
  oblivious_throw _

theorem Oblivious.bind {p : Eval α} {f : α → Eval β} (hp : Oblivious p)
    (hf : ∀ a, Oblivious (f a)) : Oblivious (p >>= f) := by
  intro m text
  show EStateM.bind p f (m.after text) = onReached _ (EStateM.bind p f m)
  rw [EStateM.bind, EStateM.bind, hp m text]
  cases p m with
  | ok a m' => exact hf a m' text
  | error e m' => rfl

/-- What is looked at is the same with earlier output. -/
theorem oblivious_get {f : Machine → Eval α} (hf : ∀ m, Oblivious (f m))
    (hb : ∀ m text, f (m.after text) = f m) : Oblivious (get >>= f) := by
  intro m text
  show f (m.after text) (m.after text) = onReached _ (f m m)
  rw [hb]
  exact hf m m text

theorem oblivious_modify {f : Machine → Machine}
    (hf : ∀ m text, f (m.after text) = (f m).after text) : Oblivious (modify f : Eval Unit) :=
  fun m text => congrArg (EStateM.Result.ok ()) (hf m text)

theorem oblivious_log (r : LogRecord) : Oblivious (log r) := oblivious_modify fun _ _ => rfl

theorem oblivious_push (v : Value) : Oblivious (push v) := oblivious_modify fun _ _ => rfl

theorem oblivious_setChannel (channel : List Value) :
    Oblivious (modify fun m => { m with channel := channel } : Eval Unit) :=
  oblivious_modify fun _ _ => rfl

theorem oblivious_assign (name : String) (v : Value) : Oblivious (Eval.bind name v) :=
  oblivious_modify fun _ _ => rfl

theorem oblivious_truncate (n : Nat) : Oblivious (truncate n) := oblivious_modify fun _ _ => rfl

theorem oblivious_height : Oblivious height :=
  oblivious_get (fun _ => oblivious_pure _) fun _ _ => rfl

theorem oblivious_lookup (name : String) : Oblivious (lookup? name) :=
  oblivious_get (fun _ => oblivious_pure _) fun _ _ => rfl

theorem oblivious_pop (role : Role) (pos : Option Pos) : Oblivious (pop role pos) := by
  apply oblivious_get
  · intro m
    split
    · exact (oblivious_setChannel _).bind fun _ => oblivious_pure _
    · exact oblivious_fail _ _
  · exact fun _ _ => rfl

theorem oblivious_settle (name : String) (pos : Pos) (before : Nat) :
    Oblivious (settle name pos before) := by
  apply oblivious_get
  · intro m
    split
    · split
      · exact oblivious_fail _ _
      · exact (oblivious_setChannel _).bind fun _ => oblivious_assign name _
    · exact oblivious_fail _ _
  · exact fun _ _ => rfl

theorem oblivious_declare (f : UserFunction) : Oblivious (declare f) := by
  have hd : Oblivious
      (modify fun m => { m with functions := m.functions.insert f.name f } : Eval Unit) :=
    oblivious_modify fun _ _ => rfl
  apply oblivious_get
  · intro m
    split
    · exact (oblivious_log _).bind fun _ => hd
    · exact (oblivious_log _).bind fun _ => hd
  · exact fun _ _ => rfl

theorem oblivious_checkDepth (env : Env) (name : String) (pos : Pos) :
    Oblivious (checkDepth env name pos) := by
  apply oblivious_get
  · intro m
    split
    · exact oblivious_fail _ _
    · exact oblivious_pure ()
  · exact fun _ _ => rfl

theorem oblivious_callFunction {f : LibraryFunction} (hf : Library.Oblivious f) (name : String)
    (args : List Value) (pos : Pos) : Oblivious (callFunction f name args pos) := by
  intro m text
  -- the function is handed the streams, so that its own outcome decides how the call ends
  have hcall := hf args m.streams text
  unfold callFunction
  simp only [Library.bind_modifyGet, Machine.after, hcall]
  cases f args m.streams with
  | ok result streams => rfl
  | error fault streams => cases fault <;> rfl

theorem oblivious_enter : Oblivious enter := oblivious_modify fun _ _ => rfl

theorem oblivious_leave : Oblivious leave := by
  apply oblivious_get
  · intro m
    split
    · exact oblivious_modify fun _ _ => rfl
    · exact oblivious_throw _
  · exact fun _ _ => rfl

theorem Oblivious.attempt {p : Eval α} (h : Oblivious p) : Oblivious (attempt p) := by
  intro m text
  unfold Eval.attempt
  rw [h m text]
  cases p m with
  | ok a m' => rfl
  | error e m' => rfl

theorem Oblivious.inFrame {body : Eval Unit} (h : Oblivious body) : Oblivious (inFrame body) := by
  unfold Eval.inFrame
  apply oblivious_enter.bind
  intro _
  apply h.attempt.bind
  intro ended
  apply oblivious_leave.bind
  intro _
  cases ended with
  | ok a => exact oblivious_pure none
  | error e =>
    cases e with
    | returned v => exact oblivious_pure (some v)
    | abort a => exact oblivious_throw _

/-! ## Rules -/

theorem obliviousCongruence (henv : env.library = Library.standard) :
    Congruence Eq env env (fun p _ => Oblivious p) where
  library := rfl
  rounds := rfl
  pure := oblivious_pure
  bind := Oblivious.bind
  throw _ := oblivious_throw _
  log := oblivious_log
  push := oblivious_push
  pop role _ _ _ := oblivious_pop role _
  height := oblivious_height
  truncate := oblivious_truncate
  settle name before _ _ _ := oblivious_settle name _ before
  lookup := oblivious_lookup
  assign := oblivious_assign
  declare _ := oblivious_declare _
  callee name _ _ _ _ hk hz := by
    apply oblivious_get
    · intro m
      split
      · exact hk _ _ ⟨rfl, rfl, Node.aligned_list_refl (fun _ => rfl) _⟩
      · exact hz
    · exact fun _ _ => rfl
  callFunction hf args _ _ _ :=
    oblivious_callFunction (Library.oblivious_standard (henv ▸ hf)) _ args _
  checkDepth name _ _ _ := oblivious_checkDepth env name _
  inFrame := Oblivious.inFrame

theorem oblivious_exec (henv : env.library = Library.standard) (frames : Nat) (n : Node) :
    Oblivious (exec env frames n) :=
  ((obliviousCongruence henv).congruent frames).exec (Node.aligned_refl (fun _ => rfl) n)

end Eval

namespace Session

def after (s : Session) (text : String) : Session := { s with machine := s.machine.after text }

theorem runHosted_after {env : Env} (henv : env.library = Library.standard) (program : Node)
    (m : Machine) (text : String) :
    runHosted env program (m.after text)
      = ((runHosted env program m).1, (runHosted env program m).2.after text) := by
  unfold runHosted
  rw [Eval.oblivious_exec henv]
  cases Eval.exec env (frameLimit env.maxDepth) program m with
  | ok a m' => rfl
  | error e m' => cases e <;> rfl

theorem runMachine_after {env : Env} (henv : env.library = Library.standard) (program : Node)
    (m : Machine) (text : String) :
    runMachine env program (m.after text)
      = ((runMachine env program m).1, (runMachine env program m).2.after text) := by
  unfold runMachine
  split
  · exact runHosted_after henv program m text
  · rfl

/-- What earlier runs wrote makes no difference to a source text. -/
theorem runSource_after {s : Session} (henv : s.env.library = Library.standard)
    (source text : String) :
    (s.after text).runSource source
      = ((s.runSource source).1, (s.runSource source).2.after text) := by
  unfold runSource
  cases parse source with
  | error e => rfl
  | ok program =>
    simp only [run, after, runMachine_after henv]

end Session

end ExScript
