import ExScript.Proofs.Congruence

/-!
# Nothing reaches below the current scope

Whatever is evaluated, only the current scope is read or written: the scopes below it and the number
of active calls are in the end what they were, and other scopes in their place would make no
difference (`Framed`).  A call runs its body in a scope of its own, so that all the variables of its
caller are among those that make no difference (`runBody_withScopes`).
-/

namespace ExScript

namespace Machine

/-- The same machine with other scopes below the current one. -/
def withOuter (m : Machine) (outer : List (Table Value)) : Machine :=
  { m with scopes := ⟨m.scopes.current, outer⟩ }

def withScopes (m : Machine) (s : Scopes) : Machine := { m with scopes := s }

end Machine

namespace Eval

variable {α β : Type}

def onReached (f : Machine → Machine) : Outcome α → Outcome α
  | .ok a m => .ok a (f m)
  | .error e m => .error e (f m)

/-- Only the current scope matters, and only it is changed. -/
structure Framed (p : Eval α) : Prop where
  outer : ∀ m, (reached (p m)).scopes.outer = m.scopes.outer
  depth : ∀ m, (reached (p m)).depth = m.depth
  blind : ∀ m outer, p (m.withOuter outer) = onReached (·.withOuter outer) (p m)

/-! ## Steps -/

theorem framed_pure (a : α) : Framed (pure a : Eval α) where
  outer _ := rfl
  depth _ := rfl
  blind _ _ := rfl

theorem framed_throw (e : Interrupt) : Framed (throw e : Eval α) where
  outer _ := rfl
  depth _ := rfl
  blind _ _ := rfl

theorem Framed.bind {p : Eval α} {f : α → Eval β} (hp : Framed p) (hf : ∀ a, Framed (f a)) :
    Framed (p >>= f) := by
  have hrun (m : Machine) : (p >>= f) m = EStateM.bind p f m := rfl
  constructor
  · intro m
    have hm := hp.outer m
    rw [hrun, EStateM.bind]
    cases h : p m with
    | ok a m₁ =>
      rw [h] at hm
      exact ((hf a).outer m₁).trans hm
    | error e m₁ =>
      rw [h] at hm
      exact hm
  · intro m
    have hm := hp.depth m
    rw [hrun, EStateM.bind]
    cases h : p m with
    | ok a m₁ =>
      rw [h] at hm
      exact ((hf a).depth m₁).trans hm
    | error e m₁ =>
      rw [h] at hm
      exact hm
  · intro m outer
    rw [hrun, hrun, EStateM.bind, EStateM.bind, hp.blind m outer]
    cases h : p m with
    | ok a m₁ => exact (hf a).blind m₁ outer
    | error e m₁ => rfl

/-- What is observed of a machine does not depend on the scopes below the current one. -/
theorem framed_get {f : Machine → Eval α} (hf : ∀ m, Framed (f m))
    (hb : ∀ m outer, f (m.withOuter outer) = f m) : Framed (get >>= f) where
  outer m := (hf m).outer m
  depth m := (hf m).depth m
  blind m outer := by
    change f (m.withOuter outer) (m.withOuter outer) = onReached _ (f m m)
    rw [hb]
    exact (hf m).blind m outer

theorem framed_modify {f : Machine → Machine} (ho : ∀ m, (f m).scopes.outer = m.scopes.outer)
    (hd : ∀ m, (f m).depth = m.depth)
    (hb : ∀ m outer, f (m.withOuter outer) = (f m).withOuter outer) :
    Framed (modify f : Eval Unit) where
  outer m := ho m
  depth m := hd m
  blind m outer := congrArg (EStateM.Result.ok ()) (hb m outer)

theorem framed_fail (cause : Cause) (pos : Option Pos) : Framed (fail cause pos : Eval α) :=
  framed_throw _

theorem framed_log (r : LogRecord) : Framed (log r) :=
  framed_modify (fun _ => rfl) (fun _ => rfl) fun _ _ => rfl

theorem framed_push (v : Value) : Framed (push v) :=
  framed_modify (fun _ => rfl) (fun _ => rfl) fun _ _ => rfl

theorem framed_setChannel (channel : List Value) :
    Framed (modify fun m => { m with channel := channel } : Eval Unit) :=
  framed_modify (fun _ => rfl) (fun _ => rfl) fun _ _ => rfl

theorem framed_setStreams (streams : Streams) :
    Framed (modify fun m => { m with streams := streams } : Eval Unit) :=
  framed_modify (fun _ => rfl) (fun _ => rfl) fun _ _ => rfl

theorem framed_truncate (n : Nat) : Framed (truncate n) :=
  framed_modify (fun _ => rfl) (fun _ => rfl) fun _ _ => rfl

theorem framed_assign (name : String) (v : Value) : Framed (Eval.bind name v) :=
  framed_modify (fun _ => rfl) (fun _ => rfl) fun _ _ => rfl

theorem framed_height : Framed height :=
  framed_get (fun _ => framed_pure _) fun _ _ => rfl

theorem framed_lookup (name : String) : Framed (lookup? name) :=
  framed_get (fun _ => framed_pure _) fun _ _ => rfl

theorem framed_pop (role : Role) (pos : Option Pos) : Framed (pop role pos) := by
  refine framed_get (fun m => ?_) fun _ _ => rfl
  split
  · exact (framed_setChannel _).bind fun _ => framed_pure _
  · exact framed_fail _ _

theorem framed_settle (name : String) (pos : Pos) (before : Nat) :
    Framed (settle name pos before) := by
  refine framed_get (fun m => ?_) fun _ _ => rfl
  split
  · split
    · exact framed_fail _ _
    · exact (framed_setChannel _).bind fun _ => framed_assign name _
  · exact framed_fail _ _

theorem framed_declare (f : UserFunction) : Framed (declare f) := by
  have hd : Framed (modify fun m => { m with functions := m.functions.insert f.name f } : Eval Unit)
    := framed_modify (fun _ => rfl) (fun _ => rfl) fun _ _ => rfl
  refine framed_get (fun m => ?_) fun _ _ => rfl
  split
  · exact (framed_log _).bind fun _ => hd
  · exact (framed_log _).bind fun _ => hd

theorem framed_callFunction (f : LibraryFunction) (name : String) (args : List Value) (pos : Pos) :
    Framed (callFunction f name args pos) := by
  have htake : Framed
      (modifyGet fun m => (m.streams, { m with streams := default }) : Eval Streams) :=
    ⟨fun _ => rfl, fun _ => rfl, fun _ _ => rfl⟩
  refine htake.bind fun streams => ?_
  cases f args streams with
  | ok result streams => exact (framed_setStreams _).bind fun _ => framed_pure result
  | error fault streams =>
    refine (framed_setStreams _).bind fun _ => ?_
    cases fault with
    | error e => exact framed_fail _ _
    | crash c => exact framed_throw _

theorem framed_checkDepth (env : Env) (name : String) (pos : Pos) :
    Framed (checkDepth env name pos) := by
  refine framed_get (fun m => ?_) fun _ _ => rfl
  split
  · exact framed_fail _ _
  · exact framed_pure ()

/-! ## Calls -/

theorem calling_withScopes (m : Machine) (s : Scopes) :
    calling (m.withScopes s) = (calling m).withOuter (s.current :: s.outer) := rfl

theorem afterBody_withScopes (m : Machine) (s : Scopes) (outer : List (Table Value))
    (r : Outcome Unit) :
    afterBody (m.withScopes s) (onReached (·.withOuter outer) r)
      = onReached (·.withScopes s) (afterBody m r) := by
  cases r with
  | ok a m' => rfl
  | error e m' => cases e <;> rfl

/-- A body that keeps to its own scope ends alike whatever the scopes of its caller. -/
theorem Framed.inFrame_withScopes {body : Eval Unit} (h : Framed body) (m : Machine) (s : Scopes) :
    inFrame body (m.withScopes s) = onReached (·.withScopes s) (inFrame body m) := by
  rw [inFrame_eq rfl (h.outer (calling m)), inFrame_eq rfl (h.outer (calling (m.withScopes s))),
    calling_withScopes, h.blind, afterBody_withScopes]

theorem reached_afterBody (m : Machine) (r : Outcome Unit) :
    reached (afterBody m r) = afterCall m (reached r) := by
  cases r with
  | ok a m' => rfl
  | error e m' => cases e <;> rfl

/-- In the end the caller has its scopes back. -/
theorem Framed.inFrame_scopes {body : Eval Unit} (h : Framed body) (m : Machine) :
    (reached (inFrame body m)).scopes = m.scopes := by
  rw [inFrame_eq rfl (h.outer (calling m)), reached_afterBody]
  rfl

theorem onReached_withScopes {r : Outcome α} {s : Scopes} (h : (reached r).scopes = s)
    (outer : List (Table Value)) :
    onReached (·.withScopes ⟨s.current, outer⟩) r = onReached (·.withOuter outer) r := by
  cases h
  cases r <;> rfl

theorem Framed.inFrame {body : Eval Unit} (h : Framed body) : Framed (inFrame body) where
  outer m := congrArg Scopes.outer (h.inFrame_scopes m)
  depth m := by
    rw [inFrame_eq rfl (h.outer (calling m)), reached_afterBody]
    exact congrArg (· - 1) (h.depth (calling m))
  blind m outer :=
    (h.inFrame_withScopes m ⟨m.scopes.current, outer⟩).trans
      (onReached_withScopes (h.inFrame_scopes m) outer)

/-! ## Rules -/

theorem framedCongruence (env : Env) :
    Congruence Eq env env (fun p _ => Framed p) where
  library := rfl
  rounds := rfl
  pure := framed_pure
  bind := Framed.bind
  throw _ := framed_throw _
  log := framed_log
  push := framed_push
  pop role _ _ _ := framed_pop role _
  height := framed_height
  truncate := framed_truncate
  settle name before _ _ _ := framed_settle name _ before
  lookup := framed_lookup
  assign := framed_assign
  declare _ := framed_declare _
  callee name _ _ _ _ hk hz := by
    refine framed_get (fun m => ?_) fun _ _ => rfl
    split
    · exact hk _ _ ⟨rfl, rfl, Node.aligned_list_refl (fun _ => rfl) _⟩
    · exact hz
  callFunction _ args _ _ _ := framed_callFunction _ _ args _
  checkDepth name _ _ _ := framed_checkDepth env name _
  inFrame := Framed.inFrame

/-- Every rule keeps to the current scope. -/
theorem framed (env : Env) (frames : Nat) :
    Congruent Eq env env (fun p _ => Framed p) frames frames :=
  (framedCongruence env).congruent frames

theorem framed_exec (env : Env) (frames : Nat) (n : Node) : Framed (exec env frames n) :=
  (framed env frames).exec (Node.aligned_refl (fun _ => rfl) n)

theorem framed_execBody (env : Env) (frames : Nat) (body : List Node) :
    Framed (execBody env frames body) :=
  (framed env frames).body (Node.aligned_list_refl (fun _ => rfl) body)

theorem framed_body (env : Env) (frames : Nat) (f : UserFunction) (given : List Value) :
    Framed (do bindAll f.params given; execBody env frames f.body) :=
  ((framedCongruence env).bindAll f.params given).bind fun _ => framed_execBody env frames f.body

/-- The body of a call cannot observe the variables of the scopes that exist before the call: with
other scopes in their place it ends in the same way, with the same channel, functions, streams and
log, and in both cases the scopes are in the end what they were before. -/
theorem runBody_withScopes (env : Env) (frames : Nat) (f : UserFunction) (given : List Value)
    (m : Machine) (s : Scopes) :
    runBody env frames f given (m.withScopes s)
        = onReached (·.withScopes s) (runBody env frames f given m) ∧
      (reached (runBody env frames f given m)).scopes = m.scopes ∧
      (reached (runBody env frames f given (m.withScopes s))).scopes = s := by
  have h := framed_body env frames f given
  exact ⟨h.inFrame_withScopes m s, h.inFrame_scopes m, h.inFrame_scopes (m.withScopes s)⟩

end Eval

end ExScript
