import ExScript.Proofs.CallTree
import ExScript.Proofs.ChannelHeight
import ExScript.Proofs.PureExpressions
import ExScript.Session

/-!
# Scopes and calls in step

The number of scopes is one more than the number of active calls at every moment of an evaluation,
and the calls stay within the limit (`during_balanced`).  However a node ends, the scopes below the
current one and the number of calls are what they were, so that leaving the scope of a call always
succeeds.  An expression of a parsed tree does not even change the current scope, and no `return`
leaves it (`scopes_disciplined`).
-/

namespace ExScript

/-- One scope more than active calls. -/
def Machine.Balanced (m : Machine) : Prop := m.scopes.size = m.depth + 1

namespace Eval

variable {α β : Type} {env : Env} {frames : Nat} {m m' m₁ m₂ : Machine}

/-! ## Steps within one call -/

/-- The same scopes below the current one, and the same number of active calls. -/
structure SameFrame (m m' : Machine) : Prop where
  outer : m'.scopes.outer = m.scopes.outer
  depth : m'.depth = m.depth

theorem SameFrame.refl (m : Machine) : SameFrame m m := ⟨rfl, rfl⟩

theorem SameFrame.trans (h : SameFrame m m₁) (h' : SameFrame m₁ m₂) : SameFrame m m₂ :=
  ⟨h'.outer.trans h.outer, h'.depth.trans h.depth⟩

theorem SameFrame.size (h : SameFrame m m') : m'.scopes.size = m.scopes.size := by
  rw [Scopes.size, h.outer]
  rfl

theorem SameFrame.balanced (h : SameFrame m m') (hb : m.Balanced) : m'.Balanced := by
  rw [Machine.Balanced, h.size, h.depth]
  exact hb

theorem Framed.same {p : Eval α} (h : Framed p) (m : Machine) : SameFrame m (reached (p m)) :=
  ⟨h.outer m, h.depth m⟩

theorem Framed.same_ok {p : Eval α} (h : Framed p) {a : α} (hp : p m = .ok a m') :
    SameFrame m m' := by
  have hs := h.same m
  rw [hp] at hs
  exact hs

theorem framed_evalArgs (env : Env) (frames : Nat) (args : List Node) (pos : Pos) :
    Framed (evalArgs env frames args pos) :=
  (framed env frames).args (Node.aligned_list_refl (fun _ => rfl) args) rfl

theorem framed_holds (env : Env) (frames : Nat) (test : Node) (role : Role) :
    Framed (holds env frames test role) :=
  (framed env frames).holds role (Node.aligned_refl (fun _ => rfl) test)

theorem framed_statements (env : Env) (frames : Nat) (body : List Node) :
    Framed (body.forM (exec env frames)) :=
  @StepClosed.forM _ (Node.Aligned Eq) _ _ _ (framedCongruence env).toStepClosed _ (exec env frames)
    (fun n _ _ => framed_exec env frames n) _ _ (Node.aligned_list_refl (fun _ => rfl) body)

theorem framed_eachLeaving (env : Env) (frames : Nat) (n : Nat) (args : List Node) :
    Framed (eachLeaving (exec env frames) n args) :=
  @StepClosed.eachLeaving _ (Node.Aligned Eq) _ _ _ (framedCongruence env).toStepClosed
    (fun _ _ h => h.pos) _ (exec env frames) (fun n _ _ => framed_exec env frames n) _ _
    (Node.aligned_list_refl (fun _ => rfl) args) n

theorem framed_givenTo (env : Env) (frames : Nat) (args : List Node) (pos : Pos)
    (r : Nat → LogRecord) : Framed (givenTo env frames args pos r) :=
  (framed_evalArgs env frames args pos).bind fun _ => (framed_log _).bind fun _ => framed_pure _

theorem framed_boundsOf (env : Env) (frames : Nat) (pos : Pos) (low high : Node) :
    Framed (boundsOf env frames pos low high) := by
  have hbound (v : Value) (p : Pos) : Framed (boundOf v p) := (framedCongruence env).boundOf v rfl
  refine (framed_exec env frames low).bind fun _ => (framed_exec env frames high).bind fun _ => ?_
  refine (framed_pop _ _).bind fun v => (hbound v _).bind fun _ => ?_
  exact (framed_pop _ _).bind fun w => (hbound w _).bind fun _ => framed_pure _

theorem framed_loopRounds (env : Env) (frames : Nat) (name : String) (body : List Node)
    (first : Int) (rounds : Nat) : Framed (loopRounds env frames name body first rounds) :=
  (framed_assign name _).bind fun _ =>
    @StepClosed.countUp _ _ _ _ (framedCongruence env).toStepClosed name _
      (execBody env frames body) (framed_execBody env frames body) rounds first

theorem Task.ending_same (env : Env) (frames : Nat) (t : Task) (m : Machine) :
    SameFrame m (t.ending env frames m) := by
  have node (n : Node) : n.Aligned Eq n := Node.aligned_refl (fun _ => rfl) n
  have list (ns : List Node) : List.Forall₂ (Node.Aligned Eq) ns ns :=
    Node.aligned_list_refl (fun _ => rfl) ns
  have h := framed env frames
  cases t with
  | node n => exact (framed_exec env frames n).same m
  | statements body => exact (framed_execBody env frames body).same m
  | test n role => exact (framed_holds env frames n role).same m
  | loop pos name low high body =>
    exact (h.forLoop (p := pos) name rfl (node low) (node high) (list body)).same m
  | arguments args pos => exact (framed_evalArgs env frames args pos).same m
  | named name args pos => exact (h.named (p := pos) name (list args) rfl).same m
  | user f args pos =>
    exact (h.user (p := pos) (f := f) ⟨rfl, rfl, list f.body⟩ (list args) rfl).same m
  | method this method args pos => exact (h.method (p := pos) this method (list args) rfl).same m
  | function f name given pos => exact (framed_callFunction f name given pos).same m
  | operation f method this given pos =>
    exact ((framedCongruence env).callMethod f method this given (p := pos) rfl).same m

/-! ## From a task to those it starts -/

theorem same_of_rounds {test : Eval Bool} {body : Eval Unit} (ht : Framed test) (hb : Framed body)
    (h : Relation.ReflTransGen (Round test body) m m') : SameFrame m m' := by
  induction h with
  | refl => exact .refl m
  | tail _ hr ih =>
    obtain ⟨m₁, htest, hbody⟩ := hr
    have hround : Framed (discarding body) :=
      framed_height.bind fun n => hb.bind fun _ => framed_truncate n
    exact ih.trans ((ht.same_ok htest).trans (hround.same_ok hbody))

/-- The body of a call starts one scope and one call further. -/
theorem entering_ok {f : UserFunction} {args : List Node} {pos : Pos}
    (h : entering env frames f args pos m = .ok () m') :
    (∃ current, m'.scopes.outer = current :: m.scopes.outer) ∧ m'.depth = m.depth + 1 ∧
      (m.depth : Int) < env.maxDepth := by
  obtain ⟨_, m₁, hd, h⟩ := bind_ok_iff.mp h
  obtain ⟨given, m₂, ha, h⟩ := bind_ok_iff.mp h
  obtain ⟨_, m₃, hl, h⟩ := bind_ok_iff.mp h
  obtain ⟨_, m₄, he, h⟩ := bind_ok_iff.mp h
  have hlimit : (m.depth : Int) < env.maxDepth := by
    by_contra hlt
    have hfail : checkDepth env f.name pos m
        = .error (.abort (.failed ⟨.callDepth env.maxDepth f.name, some pos⟩)) m := by
      change (if env.maxDepth ≤ (m.depth : Int) then _ else _ : Eval Unit) m = _
      rw [if_pos (Int.not_lt.mp hlt)]
      rfl
    rw [hfail] at hd
    cases hd
  have hs : SameFrame m m₃ := ((framed_checkDepth env f.name pos).same_ok hd).trans
    (((framed_evalArgs env frames args pos).same_ok ha).trans ((framed_log _).same_ok hl))
  have hb : SameFrame m₄ m' := ((framedCongruence env).bindAll f.params given).same_ok h
  cases he
  refine ⟨⟨m₃.scopes.current, ?_⟩, ?_, hlimit⟩
  · rw [hb.outer, ← hs.outer]
    rfl
  · rw [hb.depth, ← hs.depth]

/-- A task starts others in its own frame, except for the body of a call. -/
theorem starts_frame {t t' : Task} (h : Starts env frames t m t' m') :
    SameFrame m m' ∨ (∃ f args pos, t = .user f args pos ∧ t' = .statements f.body) ∧
      (∃ current, m'.scopes.outer = current :: m.scopes.outer) ∧ m'.depth = m.depth + 1 ∧
        (m.depth : Int) < env.maxDepth := by
  cases h with
  | right h => exact .inl ((framed_exec env frames _).same_ok h)
  | exprMethodCall h =>
    exact .inl (((framed_exec env frames _).bind fun _ => framed_pop _ _).same_ok h)
  | branch h _ => exact .inl ((framed_holds env frames _ _).same_ok h)
  | whileTest h =>
    exact .inl (same_of_rounds (framed_holds env frames _ _) (framed_execBody env frames _) h)
  | whileBody h ht =>
    have hs := same_of_rounds (framed_holds env frames _ _) (framed_execBody env frames _) h
    exact .inl (hs.trans ((framed_holds env frames _ _).same_ok ht))
  | statement h => exact .inl ((framed_statements env frames _).same_ok h)
  | high h => exact .inl ((framed_exec env frames _).same_ok h)
  | round hb _ h =>
    have hs := (framed_boundsOf env frames _ _ _).same_ok hb
    exact .inl (hs.trans ((framed_loopRounds env frames _ _ _ _).same_ok h))
  | argument h => exact .inl ((framed_eachLeaving env frames _ _).same_ok h)
  | function _ h => exact .inl ((framed_givenTo env frames _ _ _).same_ok h)
  | userArguments _ h => exact .inl ((framed_checkDepth _ _ _).same_ok h)
  | userBody _ h => exact .inr ⟨⟨_, _, _, rfl, rfl⟩, entering_ok h⟩
  | operation _ _ h => exact .inl ((framed_givenTo env frames _ _ _).same_ok h)
  | _ => exact .inl (.refl m)

/-! ## Throughout an evaluation -/

/-- The calls are within the limit, or no more than they were at first. -/
def Within (env : Env) (start : Nat) (m : Machine) : Prop :=
  (m.depth : Int) ≤ max env.maxDepth start

theorem starts_balanced {t t' : Task} {start : Nat} (h : Starts env frames t m t' m')
    (hm : m.Balanced ∧ Within env start m) : m'.Balanced ∧ Within env start m' := by
  obtain ⟨hb, hw⟩ := hm
  rcases starts_frame h with hs | ⟨_, ⟨current, ho⟩, hd, hl⟩
  · refine ⟨hs.balanced hb, ?_⟩
    rw [Within, hs.depth]
    exact hw
  · constructor
    · rw [Machine.Balanced, Scopes.size, ho, hd, List.length_cons]
      exact congrArg (· + 1) hb
    · rw [Within, hd]
      omega

/-- The balance and the limit hold whenever a task starts, and whenever one ends. -/
theorem during_balanced {t u : Task} {k : Nat} (h : During env frames t m k u m')
    (hb : m.Balanced) :
    (m'.Balanced ∧ Within env m.depth m') ∧
      (u.ending env k m').Balanced ∧ Within env m.depth (u.ending env k m') := by
  have hstart : m'.Balanced ∧ Within env m.depth m' := by
    induction h with
    | self => exact ⟨hb, Int.le_max_right _ _⟩
    | started _ hs ih => exact starts_balanced hs ih
  have hs := u.ending_same env k m'
  refine ⟨hstart, hs.balanced hstart.1, ?_⟩
  rw [Within, hs.depth]
  exact hstart.2

/-- When the body of a call has ended, its scope can be left. -/
theorem pop_after_body {f : UserFunction} {args : List Node} {pos : Pos}
    (h : Starts env frames (.user f args pos) m (.statements f.body) m') :
    ∃ s, ((Task.statements f.body).ending env frames m').scopes.pop = .ok s := by
  cases h with
  | userBody _ h =>
    obtain ⟨⟨current, ho⟩, _⟩ := entering_ok h
    have he := ((Task.statements f.body).ending_same env frames m').outer.trans ho
    rw [Scopes.pop, he]
    exact ⟨_, rfl⟩

/-! ## Whole evaluations -/

/-- The scopes and the calls of an evaluation. -/
structure ScopesDisciplined (env : Env) (frames : Nat) (n : Node) (m : Machine) : Prop where
  /-- Normally, with a `return` or with a failure, the node ends in the frame that it starts in. -/
  restored : SameFrame m (reached (exec env frames n m))
  size : (reached (exec env frames n m)).scopes.size = m.scopes.size
  throughout : ∀ k u m₁, During env frames (.node n) m k u m₁ →
    (m₁.Balanced ∧ Within env m.depth m₁) ∧
      (u.ending env k m₁).Balanced ∧ Within env m.depth (u.ending env k m₁)
  /-- Whenever the body of a call has ended, there is a scope to leave. -/
  popped : ∀ k f args pos m₁ m₂, During env frames (.node n) m (k + 1) (.user f args pos) m₁ →
    Starts env k (.user f args pos) m₁ (.statements f.body) m₂ →
      ∃ s, ((Task.statements f.body).ending env k m₂).scopes.pop = .ok s
  expression : ∀ ts p, parseTokens ts = .ok p → Node.Inside p.toNode n → n.isExpr = true →
    (reached (exec env frames n m)).scopes = m.scopes ∧
      ∀ v m', exec env frames n m ≠ .error (.returned v) m'

theorem scopes_disciplined (env : Env) (frames : Nat) (n : Node) {m : Machine} (hb : m.Balanced) :
    ScopesDisciplined env frames n m where
  restored := (framed_exec env frames n).same m
  size := ((framed_exec env frames n).same m).size
  throughout _ _ _ h := during_balanced h hb
  popped _ _ _ _ _ _ _ hs := pop_after_body hs
  expression _ _ hp hn hx := by
    have hq := (quietAt env frames).expr n (expressions_pure hp n hn hx)
    exact ⟨hq.scopes m, hq.noReturn m⟩

/-- A tree that no text is parsed to, an assignment as an operand, inside a call. -/
theorem scopes_disciplined_operand :
    let n : Node := .unary ⟨1, 1⟩ .minus (.assign ⟨1, 2⟩ "x" (.call ⟨1, 6⟩ "f" []))
    let m : Machine := ⟨Scopes.initial.push, [], Table.empty, 1, ⟨[], ""⟩, []⟩
    m.Balanced ∧ ScopesDisciplined (Env.standard 1) 20 n m := by
  intro n m
  have hb : m.Balanced := rfl
  exact ⟨hb, scopes_disciplined (Env.standard 1) 20 n hb⟩

end Eval

end ExScript
