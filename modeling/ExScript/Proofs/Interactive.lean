import ExScript.CommandLine
import ExScript.Proofs.EarlierOutput

/-!
# Line after line

An interactive session that takes its lines from a stream of their own does nothing to that stream
but read it line by line: what it does with a line depends on the line and on the session alone
(`lineEffect`).  Each line finds an empty channel, and nothing else of the earlier lines than their
variables, functions and streams (`Resting`).  After a line that fails not even these are left, so
that from there on everything is as in a new session on what is left to read
(`onText_line`).
-/

namespace ExScript

namespace Session

/-- A session between two lines: no value waits on the channel and no call is active. -/
structure Resting (s : Session) : Prop where
  channel : s.machine.channel = []
  outer : s.machine.scopes.outer = []
  depth : s.machine.depth = 0
  log : s.machine.log = []

theorem runHosted_framed (env : Env) (program : Node) (m : Machine) :
    (runHosted env program m).2.scopes.outer = m.scopes.outer ∧
      (runHosted env program m).2.depth = m.depth := by
  have h := Eval.framed_exec env (frameLimit env.maxDepth) program
  have ho := h.outer m
  have hd := h.depth m
  unfold runHosted
  cases hr : Eval.exec env (frameLimit env.maxDepth) program m with
  | ok a m' =>
    rw [hr] at ho hd
    exact ⟨ho, hd⟩
  | error e m' =>
    rw [hr] at ho hd
    cases e <;> exact ⟨ho, hd⟩

theorem runMachine_framed (env : Env) (program : Node) (m : Machine) :
    (runMachine env program m).2.scopes.outer = m.scopes.outer ∧
      (runMachine env program m).2.depth = m.depth := by
  unfold runMachine
  split
  · exact runHosted_framed env program m
  · exact ⟨rfl, rfl⟩

theorem runSource_framed (s : Session) (source : String) :
    (s.runSource source).2.machine.scopes.outer = s.machine.scopes.outer ∧
      (s.runSource source).2.machine.depth = s.machine.depth := by
  unfold runSource
  cases parse source with
  | error e => exact ⟨rfl, rfl⟩
  | ok program => exact runMachine_framed s.env program.toNode s.machine

/-- The result of a run is what it leaves on top of the channel. -/
theorem runMachine_result {env : Env} {program : Node} {m m' : Machine} {v : Option Value}
    (h : runMachine env program m = (.ok v, m')) : v = m'.channel.head? := by
  unfold runMachine at h
  split at h
  next =>
    unfold runHosted at h
    cases hr : Eval.exec env (frameLimit env.maxDepth) program m with
    | ok a m₁ =>
      rw [hr] at h
      cases h
      rfl
    | error e m₁ =>
      rw [hr] at h
      cases e with
      | returned v =>
        cases h
        rfl
      | abort a => cases h
  next => cases h

theorem runSource_result {s s' : Session} {source : String} {v : Option Value}
    (h : s.runSource source = (.ok v, s')) : v = s'.machine.channel.head? := by
  unfold runSource at h
  cases hp : parse source with
  | error e => simp [hp] at h
  | ok program =>
    simp only [hp, run] at h
    cases hr : runMachine s.env program.toNode s.machine with
    | mk result m =>
      rw [hr] at h
      cases result with
      | error a => cases h
      | ok v =>
        cases h
        exact runMachine_result hr

end Session

namespace Repl

variable {r : Repl} {line text rest : List Char} {lines : List (List Char)}

/-! ## One line -/

/-- What is shown of the result of a line. -/
def resultText : Option Value → String
  | some v => v.display ++ "\n"
  | none => ""

/-- What a line does: whether it ends everything, the session after it, what is shown and what goes
to the errors. -/
structure LineEffect where
  ending : Option Abort
  session : Session
  shown : String
  errors : String

def lineEffect (verbose : Bool) (session : Session) (source : String) : LineEffect :=
  match session.runSource source with
  | (.ok v, s) =>
    ⟨none, s.clearLog.clearChannel, resultText v, CommandLine.logText s verbose⟩
  | (.error failure, s) =>
    match failure.report with
    | .ok report =>
      ⟨none, s.restart, "", CommandLine.logText s verbose ++ (report ++ "\n") ++
        if verbose then restartRecord ++ "\n" else ""⟩
    | .error a => ⟨some a, s.clearLog, "", CommandLine.logText s verbose⟩

def withEffect (r : Repl) (e : LineEffect) : Repl :=
  { r with
    session := e.session
    console := r.console.map (·.write e.shown)
    errors := r.errors ++ e.errors }

theorem flushLog_eq (r : Repl) :
    r.flushLog = { r with
      session := r.session.clearLog
      errors := r.errors ++ CommandLine.logText r.session r.verbose } := by
  have hfold (records : List LogRecord) (r : Repl) :
      records.foldl (fun r record => r.writeRecord record.line) r =
        { r with errors := r.errors ++
            if r.verbose then String.join (records.map fun record => record.line ++ "\n")
            else "" } := by
    induction records generalizing r with
    | nil => simp
    | cons record records ih =>
      rw [List.foldl_cons, ih]
      cases hv : r.verbose <;> simp [writeRecord, writeError, hv, String.append_assoc]
  unfold flushLog CommandLine.logText
  rw [hfold]

/-- The lines come from a stream of their own, and no prompts are written. -/
structure Separate (r : Repl) : Prop where
  console : r.console.isSome = true
  prompts : r.prompts = false

theorem Separate.exists_console (h : r.Separate) : ∃ c, r.console = some c :=
  Option.isSome_iff_exists.mp h.console

theorem runLine_eq (h : r.Separate) (source : String) :
    r.runLine source = ((lineEffect r.verbose r.session source).ending,
      r.withEffect (lineEffect r.verbose r.session source)) := by
  obtain ⟨c, hc⟩ := h.exists_console
  have hempty (s : Streams) : s.write "" = s := by simp [Streams.write]
  unfold runLine lineEffect
  cases hs : r.session.runSource source with
  | mk result s =>
    cases result with
    | ok v =>
      cases v <;> simp [flushLog_eq, succeed, write, hc, withEffect, resultText, hempty]
    | error failure =>
      cases hr : failure.report with
      | ok report =>
        cases hv : r.verbose <;>
          simp [hr, hv, flushLog_eq, restart, writeError, writeRecord, hc, withEffect, hempty,
            String.append_assoc, Session.restart, Session.clearLog]
      | error a => simp [hr, flushLog_eq, hc, withEffect, hempty]

theorem Separate.withEffect (h : r.Separate) (e : LineEffect) : (r.withEffect e).Separate where
  console := by simp [Repl.withEffect, h.console]
  prompts := h.prompts

/-! ## The text that lines are taken from -/

/-- The same session with another text to take its lines from. -/
def withText (r : Repl) (text : List Char) : Repl :=
  { r with console := r.console.map fun s => { s with input := text } }

theorem Separate.withText (h : r.Separate) (text : List Char) : (r.withText text).Separate where
  console := by simp [Repl.withText, h.console]
  prompts := h.prompts

theorem withEffect_withText (e : LineEffect) :
    (r.withText text).withEffect e = (r.withEffect e).withText text := by
  simp [withEffect, withText, Streams.write, Function.comp_def]

theorem unread_withText (h : r.Separate) : (r.withText text).unread = text := by
  obtain ⟨c, hc⟩ := h.exists_console
  simp [unread, withText, hc]

theorem shown_withEffect (h : r.Separate) (e : LineEffect) :
    (r.withEffect e).shown = r.shown ++ e.shown := by
  obtain ⟨c, hc⟩ := h.exists_console
  simp [shown, withEffect, Streams.write, hc]

theorem unread_withEffect (h : r.Separate) (e : LineEffect) :
    (r.withEffect e).unread = r.unread := by
  obtain ⟨c, hc⟩ := h.exists_console
  simp [unread, withEffect, Streams.write, hc]

theorem shown_withText (h : r.Separate) : (r.withText text).shown = r.shown := by
  obtain ⟨c, hc⟩ := h.exists_console
  simp [shown, withText, hc]

theorem takeLine_nil (h : r.Separate) (hr : r.unread = []) :
    r.writePrompt.takeLine = (none, r) := by
  obtain ⟨session, console, prompts, verbose, errors⟩ := r
  obtain ⟨c, hc⟩ := h.exists_console
  cases (hc : console = some c)
  cases (h.prompts : prompts = false)
  obtain ⟨input, output⟩ := c
  cases (hr : input = [])
  rfl

/-- A line is taken from the text, and at least one character with it. -/
theorem takeLine_cons (h : r.Separate) (hr : r.unread ≠ []) :
    ∃ line rest, rest.length < r.unread.length ∧
      r.writePrompt.takeLine = (some line, r.withText rest) := by
  obtain ⟨session, console, prompts, verbose, errors⟩ := r
  obtain ⟨c, hc⟩ := h.exists_console
  cases (hc : console = some c)
  cases (h.prompts : prompts = false)
  obtain ⟨input, output⟩ := c
  have hne : input ≠ [] := hr
  have hpos : 0 < input.length := List.length_pos_of_ne_nil hne
  refine ⟨input.takeWhile (· != '\n'),
    input.drop ((input.takeWhile (· != '\n')).length + 1), ?_, ?_⟩
  · show _ < input.length
    rw [List.length_drop]
    omega
  · simp [writePrompt, takeLine, Streams.takeLine_of_ne_nil output hne, withText]

theorem takeLine_line (h : r.Separate) (hl : '\n' ∉ line) :
    (r.withText (line ++ '\n' :: rest)).writePrompt.takeLine = (some line, r.withText rest) := by
  obtain ⟨session, console, prompts, verbose, errors⟩ := r
  obtain ⟨c, hc⟩ := h.exists_console
  cases (hc : console = some c)
  cases (h.prompts : prompts = false)
  simp [writePrompt, takeLine, withText, Streams.takeLine_of_lineFeed rest c.output hl]

/-- A line is run, and the session goes on unless that was the end of it. -/
def afterLine (r : Repl) (line : List Char) (goOn : Repl → Option Abort × Repl) :
    Option Abort × Repl :=
  match Input.ofLine line with
  | .exit => (none, r)
  | .blank => goOn r
  | .program source =>
    let effect := lineEffect r.verbose r.session source
    match effect.ending with
    | none => goOn (r.withEffect effect)
    | some a => (some a, r.withEffect effect)

theorem loop_line {next : Repl} (h : next.Separate)
    (hl : r.writePrompt.takeLine = (some line, next)) (fuel : Nat) :
    loop (fuel + 1) r = next.afterLine line (loop fuel) := by
  simp only [loop, hl, runLine_eq h, afterLine]
  cases Input.ofLine line with
  | exit => rfl
  | blank => rfl
  | program source =>
    cases he : (lineEffect next.verbose next.session source).ending <;> simp [he]

/-- A line leaves the text for the next lines alone. -/
theorem afterLine_congr {goOn goOn' : Repl → Option Abort × Repl} (h : r.Separate)
    (hg : ∀ next : Repl, next.Separate → next.unread = r.unread → goOn next = goOn' next) :
    r.afterLine line goOn = r.afterLine line goOn' := by
  unfold afterLine
  cases Input.ofLine line with
  | exit => rfl
  | blank => exact hg r h rfl
  | program source =>
    cases he : (lineEffect r.verbose r.session source).ending with
    | none =>
      simp only [he]
      exact hg _ (h.withEffect _) (unread_withEffect h _)
    | some a => simp only [he]

/-- A line is gone after it was run, so that one more than there are characters is fuel enough. -/
theorem loop_eq_loop {fuel fuel' : Nat} (h : r.Separate) (hf : r.unread.length < fuel)
    (hf' : r.unread.length < fuel') : loop fuel r = loop fuel' r := by
  induction fuel generalizing fuel' r with
  | zero => omega
  | succ fuel ih =>
    cases fuel' with
    | zero => omega
    | succ fuel' =>
      by_cases hr : r.unread = []
      · rw [loop, loop, takeLine_nil h hr]
      · obtain ⟨line, rest, hlen, hl⟩ := takeLine_cons h hr
        have hs := h.withText rest
        rw [loop_line hs hl, loop_line hs hl]
        apply afterLine_congr hs
        intro next hn hu
        rw [unread_withText h] at hu
        apply ih hn
        · rw [hu]
          omega
        · rw [hu]
          omega

theorem separate_afterLine {goOn : Repl → Option Abort × Repl} (h : r.Separate)
    (hg : ∀ next : Repl, next.Separate → (goOn next).2.Separate) :
    (r.afterLine line goOn).2.Separate := by
  unfold afterLine
  cases Input.ofLine line with
  | exit => exact h
  | blank => exact hg r h
  | program source =>
    have he := h.withEffect (lineEffect r.verbose r.session source)
    cases hending : (lineEffect r.verbose r.session source).ending with
    | none => simpa only [hending] using hg _ he
    | some a => simpa only [hending] using he

theorem separate_loop (h : r.Separate) (fuel : Nat) : (loop fuel r).2.Separate := by
  induction fuel generalizing r with
  | zero => exact h
  | succ fuel ih =>
    by_cases hr : r.unread = []
    · rw [loop, takeLine_nil h hr]
      exact h
    · obtain ⟨line, rest, _, hl⟩ := takeLine_cons h hr
      have hs := h.withText rest
      rw [loop_line hs hl]
      exact separate_afterLine hs fun next hn => ih hn

theorem run_nil (h : r.Separate) : (r.withText []).run = (none, r.withText []) := by
  have hu : (r.withText []).unread = [] := unread_withText h
  rw [run, loop, takeLine_nil (h.withText []) hu]

theorem run_cons (h : r.Separate) (hl : '\n' ∉ line) (rest : List Char) :
    (r.withText (line ++ '\n' :: rest)).run = (r.withText rest).afterLine line run := by
  have hs := h.withText rest
  rw [run, loop_line hs (takeLine_line h hl)]
  apply afterLine_congr hs
  intro next hn hu
  rw [unread_withText h] at hu
  apply loop_eq_loop hn
  · rw [hu, unread_withText h, List.length_append, List.length_cons]
    omega
  · omega

/-! ## Earlier lines -/

/-- The same session after something was shown, written by programs and reported. -/
def after (r : Repl) (shown written reported : String) : Repl :=
  { r with
    session := r.session.after written
    console := r.console.map (·.after shown)
    errors := reported ++ r.errors }

section After

variable {shown written reported : String}

theorem Separate.after (h : r.Separate) : (r.after shown written reported).Separate where
  console := by simp [Repl.after, h.console]
  prompts := h.prompts

theorem unread_after (h : r.Separate) : (r.after shown written reported).unread = r.unread := by
  obtain ⟨c, hc⟩ := h.exists_console
  simp [unread, Repl.after, Streams.after, hc]

theorem shown_after (h : r.Separate) :
    (r.after shown written reported).shown = shown ++ r.shown := by
  obtain ⟨c, hc⟩ := h.exists_console
  simp [Repl.shown, Repl.after, Streams.after, hc]

theorem takeLine_after (h : r.Separate) :
    (r.after shown written reported).writePrompt.takeLine
      = (r.writePrompt.takeLine.1, r.writePrompt.takeLine.2.after shown written reported) := by
  obtain ⟨session, console, prompts, verbose, errors⟩ := r
  obtain ⟨c, hc⟩ := h.exists_console
  cases (hc : console = some c)
  cases (h.prompts : prompts = false)
  simp [writePrompt, takeLine, Repl.after, Streams.takeLine_after]

theorem lineEffect_after {session : Session} (henv : session.env.library = Library.standard)
    (verbose : Bool) (source : String) :
    lineEffect verbose (session.after written) source =
      { lineEffect verbose session source with
        session := (lineEffect verbose session source).session.after written } := by
  unfold lineEffect
  rw [Session.runSource_after henv]
  cases session.runSource source with
  | mk result s =>
    cases result with
    | ok v => rfl
    | error failure =>
      cases hr : failure.report with
      | ok report => simp only [hr]; rfl
      | error a => simp only [hr]; rfl

theorem withEffect_after (e : LineEffect) :
    (r.after shown written reported).withEffect { e with session := e.session.after written }
      = (r.withEffect e).after shown written reported := by
  simp [withEffect, Repl.after, Streams.write_after, Function.comp_def, String.append_assoc]

theorem env_lineEffect (verbose : Bool) (session : Session) (source : String) :
    (lineEffect verbose session source).session.env = session.env := by
  have hs : (session.runSource source).2.env = session.env := by
    unfold Session.runSource
    cases parse source <;> rfl
  unfold lineEffect
  cases hr : session.runSource source with
  | mk result s =>
    rw [hr] at hs
    cases result with
    | ok v => exact hs
    | error failure =>
      cases hf : failure.report with
      | ok report => simp only [hf]; exact hs
      | error a => simp only [hf]; exact hs

theorem afterLine_after {goOn : Repl → Option Abort × Repl} (h : r.Separate)
    (henv : r.session.env.library = Library.standard)
    (hg : ∀ next : Repl, next.Separate → next.session.env.library = Library.standard →
      goOn (next.after shown written reported)
        = ((goOn next).1, (goOn next).2.after shown written reported)) :
    (r.after shown written reported).afterLine line goOn
      = ((r.afterLine line goOn).1, (r.afterLine line goOn).2.after shown written reported) := by
  unfold afterLine
  cases Input.ofLine line with
  | exit => rfl
  | blank => exact hg r h henv
  | program source =>
    have heffect : lineEffect (r.after shown written reported).verbose
        (r.after shown written reported).session source = _ :=
      lineEffect_after henv r.verbose source
    simp only [heffect, withEffect_after]
    cases (lineEffect r.verbose r.session source).ending with
    | none =>
      apply hg
      · exact h.withEffect _
      · show (lineEffect r.verbose r.session source).session.env.library = _
        rw [env_lineEffect, henv]
    | some a => rfl

/-- What was shown, written and reported before stays in front of everything else. -/
theorem loop_after (h : r.Separate) (henv : r.session.env.library = Library.standard)
    (fuel : Nat) :
    loop fuel (r.after shown written reported)
      = ((loop fuel r).1, (loop fuel r).2.after shown written reported) := by
  induction fuel generalizing r with
  | zero => rfl
  | succ fuel ih =>
    have ht := @takeLine_after r shown written reported h
    by_cases hr : r.unread = []
    · rw [takeLine_nil h hr] at ht
      rw [loop, loop, ht, takeLine_nil h hr]
    · obtain ⟨line, rest, _, hl⟩ := takeLine_cons h hr
      have hs := h.withText rest
      rw [hl] at ht
      rw [loop_line hs hl, loop_line hs.after ht]
      exact afterLine_after hs henv fun next hn he => ih hn he

theorem run_after (h : r.Separate) (henv : r.session.env.library = Library.standard) :
    (r.after shown written reported).run
      = (r.run.1, r.run.2.after shown written reported) := by
  rw [run, unread_after h]
  exact loop_after h henv _

end After

/-! ## Several lines -/

/-- Lines with their ends. -/
def textOf (lines : List (List Char)) : List Char := lines.flatMap (· ++ ['\n'])

theorem textOf_cons_append :
    textOf (line :: lines) ++ rest = line ++ '\n' :: (textOf lines ++ rest) := by
  simp [textOf]

/-- The second session is the first one after some lines, none of which ended everything. -/
inductive Passes : Repl → List (List Char) → Repl → Prop
  | nil (r : Repl) : Passes r [] r
  | blank {r r' : Repl} {line : List Char} {lines : List (List Char)}
    (hb : Input.ofLine line = .blank) (h : Passes r lines r') : Passes r (line :: lines) r'
  | program {r r' : Repl} {line : List Char} {lines : List (List Char)} {source : String}
    (hp : Input.ofLine line = .program source)
    (he : (lineEffect r.verbose r.session source).ending = none)
    (h : Passes (r.withEffect (lineEffect r.verbose r.session source)) lines r') :
    Passes r (line :: lines) r'

namespace Passes

variable {r' : Repl}

theorem append {r'' : Repl} {more : List (List Char)} (h : Passes r lines r')
    (h' : Passes r' more r'') : Passes r (lines ++ more) r'' := by
  induction h with
  | nil r => exact h'
  | blank hb _ ih => exact .blank hb (ih h')
  | program hp he _ ih => exact .program hp he (ih h')

theorem separate (h : Passes r lines r') (hs : r.Separate) : r'.Separate := by
  induction h with
  | nil r => exact hs
  | blank _ _ ih => exact ih hs
  | program _ _ _ ih => exact ih (hs.withEffect _)

theorem verbose (h : Passes r lines r') : r'.verbose = r.verbose := by
  induction h with
  | nil r => rfl
  | blank _ _ ih => exact ih
  | program _ _ _ ih => exact ih

theorem env (h : Passes r lines r') : r'.session.env = r.session.env := by
  induction h with
  | nil r => rfl
  | blank _ _ ih => exact ih
  | program _ _ _ ih => exact ih.trans (env_lineEffect _ _ _)

/-- What is run after some lines. -/
theorem run_eq (h : Passes r lines r') (hs : r.Separate) (hl : ∀ line ∈ lines, '\n' ∉ line)
    (rest : List Char) : (r.withText (textOf lines ++ rest)).run = (r'.withText rest).run := by
  induction h with
  | nil r => rfl
  | @blank r r' line lines hb _ ih =>
    obtain ⟨hline, hlines⟩ := List.forall_mem_cons.mp hl
    rw [textOf_cons_append, run_cons hs hline, afterLine, hb]
    exact ih hs hlines
  | @program r r' line lines source hp he _ ih =>
    obtain ⟨hline, hlines⟩ := List.forall_mem_cons.mp hl
    rw [textOf_cons_append, run_cons hs hline, afterLine, hp]
    show (match (lineEffect r.verbose r.session source).ending with | none => _ | some a => _) = _
    rw [he, ← ih (hs.withEffect _) hlines, ← withEffect_withText]
    rfl

end Passes

/-- Lines that were run to their end. -/
theorem passes_of_run {r' : Repl} (h : r.Separate) (hl : ∀ line ∈ lines, '\n' ∉ line)
    (he : ∀ line ∈ lines, Input.ofLine line ≠ .exit)
    (hr : (r.withText (textOf lines)).run = (none, r')) :
    ∃ last, Passes r lines last ∧ r' = last.withText [] := by
  induction lines generalizing r with
  | nil =>
    have hn := (run_nil h).symm.trans hr
    cases hn
    exact ⟨r, .nil r, rfl⟩
  | cons line lines ih =>
    obtain ⟨hline, hlines⟩ := List.forall_mem_cons.mp hl
    obtain ⟨heline, helines⟩ := List.forall_mem_cons.mp he
    have htext : textOf (line :: lines) = line ++ '\n' :: textOf lines := by simp [textOf]
    rw [htext, run_cons h hline] at hr
    unfold afterLine at hr
    cases hi : Input.ofLine line with
    | exit => exact absurd hi heline
    | blank =>
      rw [hi] at hr
      obtain ⟨last, hp, heq⟩ := ih h hlines helines hr
      exact ⟨last, .blank hi hp, heq⟩
    | program source =>
      rw [hi] at hr
      replace hr : (match (lineEffect r.verbose r.session source).ending with
        | none => ((r.withText (textOf lines)).withEffect
            (lineEffect r.verbose r.session source)).run
        | some a => (some a, (r.withText (textOf lines)).withEffect
            (lineEffect r.verbose r.session source))) = (none, r') := hr
      cases hending : (lineEffect r.verbose r.session source).ending with
      | none =>
        rw [hending, withEffect_withText] at hr
        obtain ⟨last, hp, heq⟩ := ih (h.withEffect _) hlines helines hr
        exact ⟨last, .program hi hending hp, heq⟩
      | some a =>
        rw [hending] at hr
        cases hr

theorem resting_lineEffect {session : Session} (h : session.Resting) {verbose : Bool}
    {source : String} (he : (lineEffect verbose session source).ending = none) :
    (lineEffect verbose session source).session.Resting := by
  obtain ⟨ho, hd⟩ := session.runSource_framed source
  unfold lineEffect at he ⊢
  cases hr : session.runSource source with
  | mk result s =>
    rw [hr] at ho hd
    simp only [hr] at he ⊢
    cases result with
    | ok v => exact ⟨rfl, ho.trans h.outer, hd.trans h.depth, rfl⟩
    | error failure =>
      cases hf : failure.report with
      | ok report =>
        simp only [hf]
        exact ⟨rfl, rfl, rfl, rfl⟩
      | error a =>
        simp only [hf] at he
        cases he

theorem Passes.resting {r' : Repl} (h : Passes r lines r') (hr : r.session.Resting) :
    r'.session.Resting := by
  induction h with
  | nil r => exact hr
  | blank _ _ ih => exact ih hr
  | program _ he _ ih => exact ih (resting_lineEffect hr he)

/-! ## Sessions -/

/-- An interactive session on a text of lines. -/
def onText (env : Env) (programs : Streams) (verbose : Bool) (text : List Char) :
    Option Abort × Repl :=
  (create env programs (some ⟨text, ""⟩) false verbose).run

variable {env : Env} {programs : Streams} {verbose : Bool}

theorem separate_create (env : Env) (programs console : Streams) (verbose : Bool) :
    (create env programs (some console) false verbose).Separate :=
  ⟨rfl, rfl⟩

/-- A line that fails is reported and leaves a session at its start. -/
theorem lineEffect_failed {session : Session} {source report : String} {failure : RunFailure}
    (hf : (session.runSource source).1 = .error failure) (hr : failure.report = .ok report) :
    (lineEffect verbose session source).ending = none ∧
      ∃ streams,
        (lineEffect verbose session source).session = Session.create session.env streams := by
  have henv := env_lineEffect verbose session source
  unfold lineEffect at henv ⊢
  cases hs : session.runSource source with
  | mk result s =>
    rw [hs] at hf
    cases (hf : result = .error failure)
    simp only [hs, hr] at henv ⊢
    refine ⟨trivial, s.machine.streams, ?_⟩
    rw [← henv]
    rfl

/-- A session at its start is a new one but for what was shown, written and reported. -/
theorem withText_start (h : r.Separate) {streams : Streams}
    (hs : r.session = Session.create env streams) :
    r.withText rest = (create env ⟨streams.input, ""⟩ (some ⟨rest, ""⟩) false r.verbose).after
      r.shown streams.output r.errors := by
  obtain ⟨session, console, prompts, verbose, errors⟩ := r
  obtain ⟨c, hc⟩ := h.exists_console
  cases (hc : console = some c)
  cases (h.prompts : prompts = false)
  cases (hs : session = Session.create env streams)
  simp [withText, create, Repl.after, Session.after, Session.create, Machine.after, Machine.initial,
    Streams.after, shown]

/-- A session at its start goes on as a new one, behind what there was already. -/
theorem run_start (h : r.Separate) (henv : env.library = Library.standard) {streams : Streams}
    (hs : r.session = Session.create env streams) (rest : List Char) :
    let whole := (r.withText rest).run
    let fresh := onText env ⟨r.session.machine.streams.input, ""⟩ r.verbose rest
    whole.1 = fresh.1 ∧ whole.2.shown = r.shown ++ fresh.2.shown ∧
      whole.2.session.output = r.session.output ++ fresh.2.session.output ∧
        whole.2.errors = r.errors ++ fresh.2.errors := by
  intro whole fresh
  have hnew := separate_create env ⟨streams.input, ""⟩ ⟨rest, ""⟩ r.verbose
  have hfresh : fresh =
      (create env ⟨streams.input, ""⟩ (some ⟨rest, ""⟩) false r.verbose).run := by
    show onText env ⟨r.session.machine.streams.input, ""⟩ r.verbose rest = _
    rw [hs]
    rfl
  have hwhole : whole = (fresh.1, fresh.2.after r.shown streams.output r.errors) := by
    show (r.withText rest).run = _
    rw [withText_start h hs, run_after hnew henv, hfresh]
  have hsep : fresh.2.Separate := by
    rw [hfresh]
    exact separate_loop hnew _
  rw [hwhole, hs]
  exact ⟨rfl, shown_after hsep, rfl, rfl⟩

theorem onText_eq (env : Env) (programs : Streams) (verbose : Bool) (text : List Char) :
    onText env programs verbose text =
      ((create env programs (some ⟨[], ""⟩) false verbose).withText text).run :=
  rfl

/-- What is run behind some lines and one line more, none of which ends everything. -/
theorem onText_passed {last next : Repl} (hlines : ∀ l ∈ lines, '\n' ∉ l) (hline : '\n' ∉ line)
    (hp : Passes (create env programs (some ⟨[], ""⟩) false verbose) lines last)
    (h : Passes last [line] next) (rest : List Char) :
    onText env programs verbose (textOf (lines ++ [line]) ++ rest) = (next.withText rest).run := by
  apply (hp.append h).run_eq (separate_create _ programs ⟨[], ""⟩ verbose)
  intro l hl
  rcases List.mem_append.mp hl with hl | hl
  · exact hlines l hl
  · rwa [List.mem_singleton.mp hl]

theorem onText_passed_nil {last next : Repl} (hlines : ∀ l ∈ lines, '\n' ∉ l) (hline : '\n' ∉ line)
    (hp : Passes (create env programs (some ⟨[], ""⟩) false verbose) lines last)
    (h : Passes last [line] next) :
    onText env programs verbose (textOf (lines ++ [line])) = (none, next.withText []) := by
  have hsep := (hp.append h).separate (separate_create _ programs ⟨[], ""⟩ verbose)
  have heq := onText_passed hlines hline hp h []
  rwa [List.append_nil, run_nil hsep] at heq

/-- From a line that fails, and is not the end of everything, all goes on with the standard library as
in a new session on the text that is left and on what the programs have not read: it ends alike, and
what it shows, writes and reports comes after what there was already.  From one line that succeeds to
the next one the variables and functions stay as they are, and no line finds a value on the channel,
so that a result that is shown was left by the line itself.  A blank line does nothing. -/
theorem onText_line (henv : env.library = Library.standard) {lines : List (List Char)}
    {line : List Char} {r : Repl} (hlines : ∀ l ∈ lines, '\n' ∉ l) (hline : '\n' ∉ line)
    (hexit : ∀ l ∈ lines, Input.ofLine l ≠ .exit)
    (hr : onText env programs verbose (textOf lines) = (none, r)) :
    r.session.Resting ∧
      (∀ source failure report, Input.ofLine line = .program source →
        (r.session.runSource source).1 = .error failure → failure.report = .ok report →
          ∃ failed, onText env programs verbose (textOf (lines ++ [line])) = (none, failed) ∧
            ∀ rest,
              let whole := onText env programs verbose (textOf (lines ++ [line]) ++ rest)
              let fresh := onText env ⟨failed.session.machine.streams.input, ""⟩ verbose rest
              whole.1 = fresh.1 ∧ whole.2.shown = failed.shown ++ fresh.2.shown ∧
                whole.2.session.output = failed.session.output ++ fresh.2.session.output ∧
                  whole.2.errors = failed.errors ++ fresh.2.errors) ∧
      (∀ source v s, Input.ofLine line = .program source →
        r.session.runSource source = (.ok v, s) →
          ∃ next, onText env programs verbose (textOf (lines ++ [line])) = (none, next) ∧
            next.session.machine.scopes = s.machine.scopes ∧
              next.session.machine.functions = s.machine.functions ∧
                next.session.machine.channel = [] ∧ v = s.machine.channel.head? ∧
                  next.shown = r.shown ++ resultText v) ∧
      (Input.ofLine line = .blank →
        ∃ next, onText env programs verbose (textOf (lines ++ [line])) = (none, next) ∧
          next.session = r.session ∧ next.shown = r.shown) := by
  have hstart := separate_create env programs ⟨[], ""⟩ verbose
  rw [onText_eq] at hr
  obtain ⟨last, hp, rfl⟩ := passes_of_run hstart hlines hexit hr
  have hlast := hp.separate hstart
  -- a line that goes on is one line more that was passed
  have hnext {next : Repl} (h : Passes last [line] next) (rest : List Char) :=
    onText_passed hlines hline hp h rest
  have hdone {next : Repl} (h : Passes last [line] next) :=
    onText_passed_nil hlines hline hp h
  refine ⟨hp.resting ⟨rfl, rfl, rfl, rfl⟩, ?_, ?_, ?_⟩
  · intro source failure report hi hf hrep
    have hf' : (last.session.runSource source).1 = .error failure := hf
    obtain ⟨hending, streams, hsession⟩ := lineEffect_failed hf' hrep
    have hpass := Passes.program hi hending (.nil _)
    have hs := hlast.withEffect (lineEffect last.verbose last.session source)
    have hsame : last.session.env = env := hp.env
    have hverbose : last.verbose = verbose := hp.verbose
    rw [hsame] at hsession
    refine ⟨_, hdone hpass, ?_⟩
    intro rest
    have hgoes := run_start hs henv hsession rest
    rw [hnext hpass rest, shown_withText hs]
    exact hverbose ▸ hgoes
  · intro source v s hi hrun
    have hrun' : last.session.runSource source = (.ok v, s) := hrun
    have heffect : lineEffect last.verbose last.session source
        = ⟨none, s.clearLog.clearChannel, resultText v, CommandLine.logText s last.verbose⟩ := by
      simp only [lineEffect, hrun']
    have hpass := Passes.program hi (congrArg LineEffect.ending heffect) (.nil _)
    rw [heffect] at hpass
    refine ⟨_, hdone hpass, rfl, rfl, rfl, Session.runSource_result hrun, ?_⟩
    have hs := hlast.withEffect
      ⟨none, s.clearLog.clearChannel, resultText v, CommandLine.logText s last.verbose⟩
    rw [shown_withText hs, shown_withText hlast, shown_withEffect hlast]
  · intro hi
    have hpass : Passes last [line] last := .blank hi (.nil _)
    exact ⟨_, hdone hpass, rfl, rfl⟩

/-- An assignment, a line that cannot be parsed, and a line of another session. -/
theorem onText_line_syntax :
    ∃ failed,
      onText (.standard 8) default true (textOf (["x = 1".toList] ++ ["x +".toList]))
        = (none, failed) ∧
      (onText (.standard 8) default true
          (textOf (["x = 1".toList] ++ ["x +".toList]) ++ ['x'])).2.errors
        = failed.errors ++
          (onText (.standard 8) ⟨failed.session.machine.streams.input, ""⟩ true ['x']).2.errors := by
  have hending : (onText (.standard 8) default true (textOf ["x = 1".toList])).1 = none := by
    decide +kernel
  have hexit : (Input.ofLine "x = 1".toList matches .exit) = false := by decide +kernel
  have hline : Input.ofLine "x +".toList = .program "x +" := by rfl
  have hbad : (parse "x +").toOption.isNone = true := by decide +kernel
  have hall : ∀ l ∈ ["x = 1".toList], Input.ofLine l ≠ .exit := by
    intro l hl heq
    rw [List.mem_singleton.mp hl] at heq
    rw [heq] at hexit
    cases hexit
  have hbreak : '\n' ∉ "x +".toList := by simp
  generalize hr : onText (.standard 8) default true (textOf ["x = 1".toList]) = reached at hending
  obtain ⟨ending, r⟩ := reached
  cases hending
  obtain ⟨_, hfails, _⟩ := onText_line rfl (by simp) hbreak hall hr
  cases hp : parse "x +" with
  | ok program =>
    rw [hp] at hbad
    cases hbad
  | error e =>
    have hreport : ∃ report, (RunFailure.source e).report = .ok report := by
      cases e <;> exact ⟨_, rfl⟩
    obtain ⟨report, hreport⟩ := hreport
    obtain ⟨failed, hfailed, hrest⟩ := hfails "x +" (.source e) report hline
      (by simp only [Session.runSource, hp]) hreport
    obtain ⟨_, _, _, herrors⟩ := hrest ['x']
    exact ⟨failed, hfailed, herrors⟩

end Repl

end ExScript
