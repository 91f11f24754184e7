import ExScript.Proofs.Congruence
import ExScript.Proofs.MappedFunctions
import ExScript.Proofs.RoundTrip
import ExScript.Session

/-!
# A run does not look at positions

Positions are kept in trees, in declared functions and in failures.  Evaluating a tree without them
on a machine without them gives exactly what is left of the actual outcome once its positions are
erased (`exec_erase`): nothing is decided by a position.  So trees that differ in positions only are
run alike, and a source text is run like its normalised text (`runSource_print`).
-/

namespace ExScript

/-! ## Erasing positions -/

def UserFunction.erase (f : UserFunction) : UserFunction := { f with body := Node.eraseAll f.body }

/-- Positions are erased in the bodies of the declared functions. -/
def Machine.erase (m : Machine) : Machine :=
  { m with functions := m.functions.map UserFunction.erase }

/-- Whether there is a position is kept. -/
def RunError.erase (e : RunError) : RunError := { e with pos := e.pos.map fun _ => default }

def Abort.erase : Abort → Abort
  | .failed e => .failed e.erase
  | a => a

def Interrupt.erase : Interrupt → Interrupt
  | .abort a => .abort a.erase
  | .returned v => .returned v

def RunFailure.erase : RunFailure → RunFailure
  | .source e => .source e
  | .abort a => .abort a.erase

/-! ## Trees -/

namespace Node

/-- The second position is the one that erased trees have everywhere. -/
def Erased (_ q : Pos) : Prop := q = default

theorem aligned_eraseAll {ns : List Node} (h : ∀ n ∈ ns, n.Aligned Erased n.erase) :
    List.Forall₂ (Aligned Erased) ns (eraseAll ns) := by
  induction ns with
  | nil => exact .nil
  | cons n ns ih =>
    exact .cons (h n List.mem_cons_self) (ih fun m hm => h m (List.mem_cons_of_mem _ hm))

theorem aligned_erase (n : Node) : n.Aligned Erased n.erase := by
  have h (p : Pos) : Erased p default := rfl
  induction n using childInduction with
  | step n ih =>
  have all {ns : List Node} (hs : ns ⊆ n.children) :
      List.Forall₂ (Aligned Erased) ns (eraseAll ns) :=
    aligned_eraseAll fun m hm => ih m (hs hm)
  cases n with
  | int _ value => exact .int (h _) value
  | float _ value => exact .float (h _) value
  | string _ text => exact .string (h _) text
  | bool _ value => exact .bool (h _) value
  | var _ name => exact .var (h _) name
  | unary _ op operand => exact .unary (h _) op (ih _ List.mem_cons_self)
  | binary _ op left right =>
    exact .binary (h _) op (ih _ List.mem_cons_self)
      (ih _ (List.mem_cons_of_mem _ List.mem_cons_self))
  | call _ name args => exact .call (h _) name (all (List.Subset.refl _))
  | methodCall _ receiver method args =>
    exact .methodCall (h _) receiver method (all (List.Subset.refl _))
  | exprMethodCall _ receiver method args =>
    exact .exprMethodCall (h _) (ih _ List.mem_cons_self) method (all (List.subset_cons_self ..))
  | assign _ name value => exact .assign (h _) name (ih _ List.mem_cons_self)
  | fnDecl _ name params body => exact .fnDecl (h _) name params (all (List.Subset.refl _))
  | ret _ value => exact .ret (h _) (ih _ List.mem_cons_self)
  | cond p test thenBody elseBody =>
    have hthen : thenBody ⊆ (cond p test thenBody elseBody).children :=
      fun m hm => List.mem_cons_of_mem _ (List.mem_append_left _ hm)
    refine .cond (h _) (ih _ List.mem_cons_self) (all hthen) ?_
    cases elseBody with
    | none => exact .none
    | some body =>
      exact .some (all fun m hm => List.mem_cons_of_mem _ (List.mem_append_right _ hm))
  | whileLoop _ test body =>
    exact .whileLoop (h _) (ih _ List.mem_cons_self) (all (List.subset_cons_self ..))
  | forLoop _ x low high body =>
    exact .forLoop (h _) x (ih _ List.mem_cons_self)
      (ih _ (List.mem_cons_of_mem _ List.mem_cons_self))
      (all fun m hm => List.mem_cons_of_mem _ (List.mem_cons_of_mem _ hm))
  | block _ body => exact .block (h _) (all (List.Subset.refl _))
  | unknown _ sort expr => exact .unknown (h _) sort expr

theorem eq_eraseAll {ns ms : List Node} (h : List.Forall₂ (Aligned Erased) ns ms)
    (ih : ∀ n ∈ ns, ∀ m, n.Aligned Erased m → m = n.erase) : ms = eraseAll ns := by
  induction h with
  | nil => rfl
  | cons hn _ ihs =>
    rw [eraseAll, ih _ List.mem_cons_self _ hn,
      ihs fun n hn => ih n (List.mem_cons_of_mem _ hn)]

theorem Aligned.eq_erase {n m : Node} (h : n.Aligned Erased m) : m = n.erase := by
  induction n using childInduction generalizing m with
  | step n ih =>
  have all {ns ms : List Node} (hs : ns ⊆ n.children) (h : List.Forall₂ (Aligned Erased) ns ms) :
      ms = eraseAll ns := eq_eraseAll h fun k hk _ hm => ih k (hs hk) hm
  cases h with
  | int hp value => exact hp ▸ rfl
  | float hp value => exact hp ▸ rfl
  | string hp text => exact hp ▸ rfl
  | bool hp value => exact hp ▸ rfl
  | var hp name => exact hp ▸ rfl
  | unary hp op ha => rw [hp, erase, ih _ List.mem_cons_self ha]
  | binary hp op ha hc =>
    rw [hp, erase, ih _ List.mem_cons_self ha,
      ih _ (List.mem_cons_of_mem _ List.mem_cons_self) hc]
  | call hp name ha =>
    rw [hp]
    exact congrArg (Node.call default name) (all (List.Subset.refl _) ha)
  | methodCall hp receiver method ha =>
    rw [hp]
    exact congrArg (Node.methodCall default receiver method) (all (List.Subset.refl _) ha)
  | exprMethodCall hp hr method ha =>
    rw [hp, erase, ih _ List.mem_cons_self hr, all (List.subset_cons_self ..) ha]
  | assign hp name ha => rw [hp, erase, ih _ List.mem_cons_self ha]
  | fnDecl hp name params hb =>
    rw [hp]
    exact congrArg (Node.fnDecl default name params) (all (List.Subset.refl _) hb)
  | ret hp ha => rw [hp, erase, ih _ List.mem_cons_self ha]
  | cond hp ht hb he =>
    rw [hp, erase, ih _ List.mem_cons_self ht,
      all (fun k hk => List.mem_cons_of_mem _ (List.mem_append_left _ hk)) hb]
    cases he with
    | none => rfl
    | some he =>
      have hs := all (fun k hk => List.mem_cons_of_mem _ (List.mem_append_right _ hk)) he
      exact congrArg (fun body => Node.cond default _ _ (some body)) hs
  | whileLoop hp ht hb =>
    rw [hp, erase, ih _ List.mem_cons_self ht, all (List.subset_cons_self ..) hb]
  | forLoop hp x hl hh hb =>
    rw [hp, erase, ih _ List.mem_cons_self hl,
      ih _ (List.mem_cons_of_mem _ List.mem_cons_self) hh,
      all (fun k hk => List.mem_cons_of_mem _ (List.mem_cons_of_mem _ hk)) hb]
  | block hp hb =>
    rw [hp]
    exact congrArg (Node.block default) (all (List.Subset.refl _) hb)
  | unknown hp sort expr => exact hp ▸ rfl

end Node

theorem UserFunction.Aligned.eq_erase {f g : UserFunction} (h : f.Aligned Node.Erased g) :
    g = f.erase := by
  cases f with
  | mk name params body =>
    cases g with
    | mk name' params' body' =>
      cases h.name
      cases h.params
      exact congrArg _ (Node.eq_eraseAll h.body fun n _ m hn => hn.eq_erase)

theorem UserFunction.aligned_erase (f : UserFunction) : f.Aligned Node.Erased f.erase :=
  ⟨rfl, rfl, Node.aligned_eraseAll fun n _ => n.aligned_erase⟩

namespace Eval

variable {α : Type}

/-! ## Evaluations -/

def eraseOutcome : Outcome α → Outcome α
  | .ok a m => .ok a m.erase
  | .error e m => .error e.erase m.erase

theorem mapOutcome_erase (r : Outcome α) :
    mapOutcome UserFunction.erase (fun _ => default) r = eraseOutcome r := by
  cases r with
  | ok a m => rfl
  | error e m =>
    cases e with
    | abort a => cases a <;> rfl
    | returned v => rfl

/-- On a machine without positions a tree without them is evaluated like the tree itself, but for
the positions. -/
theorem erasesCongruence (env : Env) :
    Congruence Node.Erased env env (Carries UserFunction.erase fun _ => default) where
  toStepClosed := carries_steps (fun _ _ h => h) env
  declare h := h.eq_erase ▸ carries_declare rfl rfl
  callee name _ _ _ _ hk := carries_callee name fun f => hk f f.erase f.aligned_erase

/-- Evaluation decides nothing by a position. -/
theorem exec_erase (env : Env) (frames : Nat) (n : Node) (m : Machine) :
    exec env frames n.erase m.erase = eraseOutcome (exec env frames n m) :=
  (((erasesCongruence env).congruent frames).exec n.aligned_erase m).trans (mapOutcome_erase _)

end Eval

/-! ## Runs -/

theorem RunError.erase_eq_iff {e e' : RunError} :
    e.erase = e'.erase ↔ e.cause = e'.cause ∧ e.pos.isSome = e'.pos.isSome := by
  obtain ⟨cause, p⟩ := e
  obtain ⟨cause', p'⟩ := e'
  cases p <;> cases p' <;> simp [erase]

/-- A failure is reported for the same cause, though maybe elsewhere. -/
theorem failed_of_erase_eq {α : Type} {r r' : Except RunFailure α} {e : RunError}
    (h : r.mapError RunFailure.erase = r'.mapError RunFailure.erase)
    (hr : r = .error (.abort (.failed e))) :
    ∃ pos, r' = .error (.abort (.failed ⟨e.cause, pos⟩)) ∧ pos.isSome = e.pos.isSome := by
  subst hr
  rcases r' with (s | (e' | c | _)) | a
  case error.abort.failed =>
    simp only [Except.mapError, RunFailure.erase, Abort.erase, Except.error.injEq,
      RunFailure.abort.injEq, Abort.failed.injEq] at h
    obtain ⟨hcause, hpos⟩ := RunError.erase_eq_iff.mp h
    rw [hcause, hpos]
    exact ⟨e'.pos, rfl, rfl⟩
  all_goals cases h

theorem ok_of_mapError {ε ε' α : Type} {r : Except ε α} {f : ε → ε'} {a : α}
    (h : r.mapError f = .ok a) : r = .ok a := by
  cases r with
  | error e => cases h
  | ok b =>
    cases h
    rfl

namespace Session

def eraseRun (r : Except Abort (Option Value) × Machine) : Except Abort (Option Value) × Machine :=
  (r.1.mapError Abort.erase, r.2.erase)

theorem runHosted_erase (env : Env) (n : Node) (m : Machine) :
    runHosted env n.erase m.erase = eraseRun (runHosted env n m) := by
  rw [runHosted, runHosted, Eval.exec_erase]
  cases Eval.exec env (frameLimit env.maxDepth) n m with
  | ok a m' => rfl
  | error e m' => cases e <;> rfl

theorem runMachine_erase (env : Env) (n : Node) (m : Machine) :
    runMachine env n.erase m.erase = eraseRun (runMachine env n m) := by
  unfold runMachine
  split
  · exact runHosted_erase env n m
  · rfl

/-- Trees that differ in positions only end alike on machines that do. -/
theorem runMachine_alike (env : Env) {n n' : Node} {m m' : Machine} (hn : n.erase = n'.erase)
    (hm : m.erase = m'.erase) :
    eraseRun (runMachine env n m) = eraseRun (runMachine env n' m') := by
  rw [← runMachine_erase, ← runMachine_erase, hn, hm]

theorem runSource_ok {source : String} {p : Program} (h : parse source = .ok p) (s : Session) :
    s.runSource source =
      ((runMachine s.env p.toNode s.machine).1.mapError .abort,
        { s with machine := (runMachine s.env p.toNode s.machine).2 }) := by
  rw [runSource, h]
  rfl

theorem mapError_erase (r : Except Abort (Option Value)) :
    (r.mapError RunFailure.abort).mapError RunFailure.erase
      = (r.mapError Abort.erase).mapError RunFailure.abort := by
  cases r <;> rfl

theorem runSource_alike {source source' : String} {p q : Program} (hp : parse source = .ok p)
    (hq : parse source' = .ok q) (h : p.Alike q) (s : Session) :
    (s.runSource source).1.mapError RunFailure.erase
        = (s.runSource source').1.mapError RunFailure.erase ∧
      (s.runSource source).2.machine.erase = (s.runSource source').2.machine.erase := by
  have hrun := runMachine_alike s.env h.erase (m := s.machine) rfl
  rw [runSource_ok hp, runSource_ok hq, mapError_erase, mapError_erase]
  exact ⟨congrArg (fun r => r.1.mapError RunFailure.abort) hrun, congrArg Prod.snd hrun⟩

end Session

/-- Positions aside, equal trees on equal machines have equal outcomes, and a source text that is
parsed is run like its normalised text, which the printer gives if its stack has room for the
program: with the same input it reads and writes the same and ends with the same value or the same
failure, however many rounds a loop may take.  A failure has the same cause, and its message carries
a position in both runs or in neither. -/
theorem runSource_print :
    (∀ (env : Env) (n n' : Node) (m m' : Machine), n.erase = n'.erase → m.erase = m'.erase →
      Session.eraseRun (Session.runMachine env n m)
        = Session.eraseRun (Session.runMachine env n' m')) ∧
    ∀ (source : String) (p : Program), parse source = .ok p → ∃ text, p.PrintedAs text ∧
      ∀ (env : Env) (streams : Streams),
        (runSource env streams source).1.mapError RunFailure.erase
            = (runSource env streams text).1.mapError RunFailure.erase ∧
          (runSource env streams source).2 = (runSource env streams text).2 ∧
          ∀ e, (runSource env streams source).1 = .error (.abort (.failed e)) →
            ∃ pos, (runSource env streams text).1 = .error (.abort (.failed ⟨e.cause, pos⟩)) ∧
              pos.isSome = e.pos.isSome := by
  refine ⟨fun env n n' m m' hn hm => Session.runMachine_alike env hn hm, fun source p h => ?_⟩
  obtain ⟨text, q, hprint, hparse, halike, -⟩ := parse_print_parse h
  refine ⟨text, hprint, fun env streams => ?_⟩
  obtain ⟨hresult, hmachine⟩ :=
    Session.runSource_alike hparse h halike (Session.create env streams)
  have hstreams := congrArg Machine.streams hmachine
  exact ⟨hresult.symm, hstreams.symm, fun e he => failed_of_erase_eq hresult.symm he⟩

/-- A sum of 3000 ones is parsed and run, but the printer has no normalised text for it. -/
theorem runSource_three_thousand_ones :
    let source := Printer.sumText 2999 ++ "\n"
    ∃ p, parse source = .ok p ∧ p.print (some Printer.nestingLimit) = .error .tooDeep ∧
      ∀ streams, (runSource (Env.standard 256) streams source).1 = .ok (some (.int 3000)) := by
  intro source
  have hw := Program.wellFormed_sumOfOnes 2999
  have hnesting : (Program.sumOfOnes 2999).nesting ≤ Parser.nestingLimit := by
    rw [Program.nesting_sumOfOnes]
    decide
  obtain ⟨text, p, hprint, hparse, herase⟩ := parse_print_of_nesting hw hnesting
  rw [hprint.prints.unique (Program.printedAs_sumOfOnes 2999).prints] at hparse
  have halike := Program.alike_of_erase_eq (Program.WellFormed.of_parse hparse).1 herase
  refine ⟨p, hparse, ?_, fun streams => ?_⟩
  · rw [Program.print_eq_of_erase_eq herase]
    exact Program.print_sumOfOnes 2999 _
  · have hrun := congrArg Prod.fst (Session.runMachine_alike (Env.standard 256) halike.erase
      (m := Machine.initial streams) rfl)
    have hsum : (Session.runMachine (Env.standard 256) (Program.sumOfOnes 2999).toNode
        (Machine.initial streams)).1 = .ok (some (.int 3000)) :=
      Session.runMachine_sumOfOnes (by decide) (by decide) _
    simp only [Session.eraseRun, hsum] at hrun
    rw [runSource, Session.runSource_ok hparse]
    exact congrArg (Except.mapError RunFailure.abort) (ok_of_mapError hrun)

/-- A function declared at two places and called from two, and a text that is printed otherwise. -/
theorem runSource_print_call :
    let f (pos : Pos) : UserFunction := ⟨"f", [], [.ret pos (.var pos "x")]⟩
    let m (pos : Pos) : Machine := { Machine.initial default with functions := ⟨[("f", f pos)]⟩ }
    (∀ env, Session.eraseRun (Session.runMachine env (.call ⟨1, 2⟩ "f" []) (m ⟨1, 1⟩))
      = Session.eraseRun (Session.runMachine env (.call ⟨3, 4⟩ "f" []) (m ⟨2, 2⟩))) ∧
    ∃ p, parse "a = -(1+ 2)*b .f( 3)" = .ok p ∧ ∃ text, p.PrintedAs text ∧
      ∀ (env : Env) (streams : Streams),
        (runSource env streams "a = -(1+ 2)*b .f( 3)").1.mapError RunFailure.erase
            = (runSource env streams text).1.mapError RunFailure.erase ∧
          (runSource env streams "a = -(1+ 2)*b .f( 3)").2 = (runSource env streams text).2 ∧
          ∀ e, (runSource env streams "a = -(1+ 2)*b .f( 3)").1 = .error (.abort (.failed e)) →
            ∃ pos, (runSource env streams text).1 = .error (.abort (.failed ⟨e.cause, pos⟩)) ∧
              pos.isSome = e.pos.isSome := by
  intro f m
  have htest : ((parse "a = -(1+ 2)*b .f( 3)").toOption.any fun _ => true) = true := by
    decide +kernel
  obtain ⟨p, hp, _⟩ := parsed_of_any htest
  exact ⟨fun env => runSource_print.1 env _ _ _ _ rfl rfl, p, hp, runSource_print.2 _ p hp⟩

end ExScript
