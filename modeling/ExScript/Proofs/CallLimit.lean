import ExScript.Proofs.ScopeFrame
import ExScript.Session

/-!
# Runs that stay within the call depth

The limit on nested calls is looked at in two places: a call compares it with the number of active
calls, and a run gets its frames by it.  Whichever of them is too small, the run fails for that
reason and nothing handles the failure.  So a run that ends otherwise never noticed the limit, and a
larger one changes nothing about it (`runMachine_of_le`), unless it is so large that the host cannot
be asked for the frames (`runMachine_unhosted`).
-/

namespace ExScript

namespace Eval

variable {α β : Type} {env env' : Env} {frames frames' : Nat}

/-- Calls or nodes were nested too deeply. -/
inductive LimitReached : Outcome α → Prop
  | intro {e : RunError} (h : e.cause.category = .recursion) (m : Machine) :
    LimitReached (.error (.abort (.failed e)) m)

/-- The second evaluation ends as the first one does, unless that reaches its limit. -/
structure Outlasts (p q : Eval α) : Prop where
  framed : Framed p
  same : ∀ m, LimitReached (p m) ∨ q m = p m

/-! ## Steps -/

theorem Framed.outlasts {p : Eval α} (h : Framed p) : Outlasts p p where
  framed := h
  same _ := .inr rfl

theorem outlasts_of_limit {p q : Eval α} (hp : Framed p) (h : ∀ m, LimitReached (p m)) :
    Outlasts p q where
  framed := hp
  same m := .inl (h m)

theorem outlasts_stackExhausted (q : Eval α) : Outlasts stackExhausted q :=
  outlasts_of_limit (framed_fail _ _) fun m => .intro rfl m

theorem Outlasts.bind {p q : Eval α} {f g : α → Eval β} (h : Outlasts p q)
    (hf : ∀ a, Outlasts (f a) (g a)) : Outlasts (p >>= f) (q >>= g) where
  framed := h.framed.bind fun a => (hf a).framed
  same m := by
    change LimitReached (EStateM.bind p f m) ∨ EStateM.bind q g m = EStateM.bind p f m
    rw [EStateM.bind, EStateM.bind]
    rcases h.same m with hl | he
    · -- the limit that is reached in the first step is not handled in the second
      apply Or.inl
      generalize p m = r at hl
      cases hl with
      | intro hr m' => exact .intro hr m'
    · rw [he]
      cases p m with
      | ok a m' => exact (hf a).same m'
      | error e m' => exact .inr rfl

/-- A step that looks at the machine first. -/
theorem outlasts_get {f g : Machine → Eval α} (hp : Framed (get >>= f))
    (h : ∀ m, Outlasts (f m) (g m)) : Outlasts (get >>= f) (get >>= g) where
  framed := hp
  same m := (h m).same m

/-- A call that the smaller limit admits is admitted by the larger one. -/
theorem outlasts_checkDepth (hd : env.maxDepth ≤ env'.maxDepth) (name : String) (pos : Pos) :
    Outlasts (checkDepth env name pos) (checkDepth env' name pos) := by
  apply outlasts_get (framed_checkDepth env name pos)
  intro m
  by_cases hm : env.maxDepth ≤ m.depth
  · rw [if_pos hm]
    exact outlasts_of_limit (framed_fail _ _) fun m => .intro rfl m
  · have hm' : ¬ env'.maxDepth ≤ m.depth := by omega
    rw [if_neg hm, if_neg hm']
    exact (framed_pure ()).outlasts

/-- Leaving a call does not handle the failure of its body. -/
theorem LimitReached.afterBody {r : Outcome Unit} (h : LimitReached r) (m : Machine) :
    LimitReached (afterBody m r) := by
  cases h with
  | intro hr m' => exact .intro hr _

theorem Outlasts.inFrame {p q : Eval Unit} (h : Outlasts p q) :
    Outlasts (inFrame p) (inFrame q) where
  framed := h.framed.inFrame
  same m := by
    have hp := h.framed.outer (calling m)
    rw [inFrame_eq rfl hp]
    rcases h.same (calling m) with hl | he
    · exact .inl (hl.afterBody m)
    · rw [inFrame_eq he hp]
      exact .inr rfl

/-! ## Rules -/

theorem outlastsCongruence (hl : env.library = env'.library) (hr : env.rounds = env'.rounds)
    (hd : env.maxDepth ≤ env'.maxDepth) : Congruence Eq env env' Outlasts where
  library := hl
  rounds := hr
  pure a := (framed_pure a).outlasts
  bind := Outlasts.bind
  throw h := by
    rw [h.eq]
    exact (framed_throw _).outlasts
  log r := (framed_log r).outlasts
  push v := (framed_push v).outlasts
  pop role _ _ h := by
    rw [h]
    exact (framed_pop role _).outlasts
  height := framed_height.outlasts
  truncate n := (framed_truncate n).outlasts
  settle name before _ _ h := by
    rw [h]
    exact (framed_settle name _ before).outlasts
  lookup name := (framed_lookup name).outlasts
  assign name v := (framed_assign name v).outlasts
  declare h := by
    rw [h.eq]
    exact (framed_declare _).outlasts
  callee name k k' z z' hk hz := by
    have hf (f : UserFunction) : f.Aligned Eq f :=
      ⟨rfl, rfl, Node.aligned_list_refl (fun _ => rfl) _⟩
    apply outlasts_get
    · exact @Congruence.callee _ _ _ _ (framedCongruence env) name k k z z
        (fun f g h => (hk f g h).framed) hz.framed
    · intro m
      cases m.functions.find? name with
      | some f => exact hk f f (hf f)
      | none => exact hz
  callFunction _ args _ _ h := by
    rw [h]
    exact (framed_callFunction _ _ args _).outlasts
  checkDepth name _ _ h := by
    rw [h]
    exact outlasts_checkDepth hd name _
  inFrame := Outlasts.inFrame

/-- Every rule goes on for at least as long with more frames and a larger limit. -/
theorem outlasts (h : Congruence Eq env env' Outlasts) (hf : frames ≤ frames') :
    Congruent Eq env env' Outlasts frames frames' := by
  induction frames generalizing frames' with
  | zero =>
    constructor
    all_goals
      intros
      exact outlasts_stackExhausted _
  | succ frames ih =>
    cases frames' with
    | zero => omega
    | succ frames' => exact (ih (Nat.le_of_succ_le_succ hf)).succ h

end Eval

namespace Session

variable {d d' : Int}

theorem frameLimit_mono (h : d ≤ d') : frameLimit d ≤ frameLimit d' := by
  simp only [frameLimit]
  omega

/-- A run that does not fail on the depth of its calls ends with the same result or failure and on
the same machine under every larger limit that the host can be asked for: nothing of the streams, the
variables, the functions, the channel or the log shows which of the limits it was. -/
theorem runMachine_of_le (h : d ≤ d') (hd' : Hosted d') (library : Library) (rounds : Nat)
    (program : Node) (m : Machine)
    (hr : ∀ e, (runMachine ⟨library, d, rounds⟩ program m).1 = .error (.failed e) →
      e.cause.category ≠ .recursion) :
    runMachine ⟨library, d', rounds⟩ program m = runMachine ⟨library, d, rounds⟩ program m := by
  have hd : Hosted d := .of_le h hd'
  have hc : Eval.Congruence Eq ⟨library, d, rounds⟩ ⟨library, d', rounds⟩ Eval.Outlasts :=
    Eval.outlastsCongruence rfl rfl h
  have ho := (Eval.outlasts hc (frameLimit_mono h)).exec (Node.aligned_refl (fun _ => rfl) program)
  have hrun : runMachine ⟨library, d, rounds⟩ = runHosted ⟨library, d, rounds⟩ :=
    runMachine_of_hosted hd
  have hrun' : runMachine ⟨library, d', rounds⟩ = runHosted ⟨library, d', rounds⟩ :=
    runMachine_of_hosted hd'
  rw [hrun] at hr
  rw [hrun, hrun']
  unfold runHosted at hr ⊢
  rcases ho.same m with hl | he
  · generalize hx : Eval.exec _ _ program m = r at hl
    cases hl with
    | @intro e hrec m' =>
      simp only [hx] at hr
      exact absurd hrec (hr e rfl)
  · rw [he]

/-- The host cannot be asked for the frames of the larger limit, so that the run is not begun. -/
theorem runMachine_unhosted :
    let program : Node := .block default [.int default 1]
    let m : Machine := Machine.initial default
    (runMachine (Env.standard 256) program m).1 = .ok (some (.int 1)) ∧
      runMachine (Env.standard 134217666) program m = (.error (.crashed .tooManyFrames), m) := by
  intro program m
  exact ⟨rfl, runMachine_of_not_hosted (by decide) program m⟩

/-- One call, with a limit of one. -/
theorem runMachine_of_le_call :
    let program : Node := .block default
      [.fnDecl default "f" ["a"] [.ret default (.var default "a")],
        .assign default "x" (.call default "f" [.int default 7])]
    let m : Machine := Machine.initial default
    let library : Library := ⟨Table.empty, Table.empty⟩
    runMachine ⟨library, 2, 0⟩ program m = runMachine ⟨library, 1, 0⟩ program m := by
  intro program m library
  have hok : (runMachine ⟨library, 1, 0⟩ program m).1 = .ok none := by rfl
  apply runMachine_of_le (by decide) (by decide)
  intro e he
  rw [hok] at he
  cases he

end Session

end ExScript
