import ExScript.Proofs.GrammarSound
import ExScript.Proofs.ScopeFrame

/-!
# Expressions assign nothing

By the grammar all parts of an expression are expressions (`Node.IsPure`), and this holds wherever
one stands in a parsed tree (`expressions_pure`).  Such an expression leaves the scopes as they are,
and no `return` comes out of it, whatever the bodies of the functions that it calls do (`Quiet`): a
call gives its scope up and ends a `return`.
-/

namespace ExScript

namespace Node

/-- An expression all of whose parts are expressions. -/
inductive IsPure : Node → Prop
  | intro {n : Node} : n.isExpr = true → (∀ m ∈ n.children, IsPure m) → IsPure n

/-- The expressions inside of a tree are pure. -/
def ExpressionsPure (root : Node) : Prop := ∀ n, Inside root n → n.isExpr = true → n.IsPure

variable {n m : Node}

theorem isPure_leaf (he : n.isExpr = true) (hc : n.children = []) : n.IsPure :=
  .intro he (hc ▸ List.forall_mem_nil _)

theorem IsPure.isExpr (h : n.IsPure) : n.isExpr = true := by
  cases h with
  | intro he _ => exact he

theorem IsPure.child (h : n.IsPure) (hm : m ∈ n.children) : m.IsPure := by
  cases h with
  | intro _ hc => exact hc m hm

theorem IsPure.of_inside (h : n.IsPure) (hm : Inside n m) : m.IsPure := by
  induction hm with
  | root => exact h
  | child _ hc ih => exact ih.child hc

theorem IsPure.expressionsPure (h : n.IsPure) : n.ExpressionsPure :=
  fun _ hm _ => h.of_inside hm

theorem expressionsPure_of_children (he : n.isExpr = false)
    (hc : ∀ c ∈ n.children, c.ExpressionsPure) : n.ExpressionsPure := by
  intro m hm hx
  rcases hm.root_or_below with rfl | ⟨c, hmem, hm⟩
  · rw [he] at hx
    cases hx
  · exact hc c hmem m hm hx

end Node

/-! ## Parsed trees -/

namespace Grammar

open Node

mutual

theorem Tiered.isPure : ∀ {tier ts n rest}, Tiered tier ts n rest → n.IsPure
  | _, _, _, _, .operand h => h.isPure
  | _, _, _, _, .binary ha _ _ hb =>
    .intro rfl (List.forall_mem_cons.mpr ⟨ha.isPure, List.forall_mem_singleton.mpr hb.isPure⟩)

theorem Operand.isPure : ∀ {tier ts n rest}, Operand tier ts n rest → n.IsPure
  | _, _, _, _, .comparison h => h.isPure
  | _, _, _, _, .sum h => h.isPure
  | _, _, _, _, .product h => h.isPure
  | _, _, _, _, .unary h => h.isPure

theorem Unary.isPure : ∀ {ts n rest}, Unary ts n rest → n.IsPure
  | _, _, _, .sign _ _ h => .intro rfl (List.forall_mem_singleton.mpr h.isPure)
  | _, _, _, .plain h => h.isPure

theorem Postfixed.isPure : ∀ {ts n rest}, Postfixed ts n rest → n.IsPure
  | _, _, _, .primary h => h.isPure
  | _, _, _, .variableMethod _ _ ha _ => .intro rfl ha.isPure
  | _, _, _, .method hr _ _ _ ha _ =>
    .intro rfl (List.forall_mem_cons.mpr ⟨hr.isPure, ha.isPure⟩)

theorem Primary.isPure : ∀ {ts n rest}, Primary ts n rest → n.IsPure
  | _, _, _, .int | _, _, _, .float | _, _, _, .string | _, _, _, .trueWord _
  | _, _, _, .falseWord _ | _, _, _, .var => isPure_leaf rfl rfl
  | _, _, _, .call _ ha _ => .intro rfl ha.isPure
  | _, _, _, .parens _ h _ => h.isPure

theorem Arguments.isPure : ∀ {ts ns rest}, Arguments ts ns rest → ∀ m ∈ ns, m.IsPure
  | _, _, _, .none => List.forall_mem_nil _
  | _, _, _, .some h hs => List.forall_mem_cons.mpr ⟨h.isPure, hs.isPure⟩

theorem MoreArguments.isPure : ∀ {ts ns rest}, MoreArguments ts ns rest → ∀ m ∈ ns, m.IsPure
  | _, _, _, .nil => List.forall_mem_nil _
  | _, _, _, .cons _ h hs => List.forall_mem_cons.mpr ⟨h.isPure, hs.isPure⟩

end

mutual

theorem Statement.pure : ∀ {ts n rest}, Statement ts n rest → n.ExpressionsPure
  | _, _, _, .assign _ h => expressionsPure_of_children rfl (List.forall_mem_singleton.mpr h.pure)
  | _, _, _, .fnDecl _ _ _ _ hb => expressionsPure_of_children rfl hb.pure
  | _, _, _, .whileLoop _ he hb =>
    expressionsPure_of_children rfl (List.forall_mem_cons.mpr ⟨he.isPure.expressionsPure, hb.pure⟩)
  | _, _, _, .forLoop _ _ _ hl _ hh _ hb =>
    expressionsPure_of_children rfl (List.forall_mem_cons.mpr ⟨hl.isPure.expressionsPure,
      List.forall_mem_cons.mpr ⟨hh.isPure.expressionsPure, hb.pure⟩⟩)
  | _, _, _, .cond h => h.pure
  | _, _, _, .ret _ h =>
    expressionsPure_of_children rfl (List.forall_mem_singleton.mpr h.isPure.expressionsPure)
  | _, _, _, .expression h => h.isPure.expressionsPure

theorem If.pure : ∀ {ts n rest}, If ts n rest → n.ExpressionsPure
  | _, _, _, .plain _ he hb => expressionsPure_of_children rfl (List.forall_mem_cons.mpr
    ⟨he.isPure.expressionsPure, List.forall_mem_append.mpr ⟨hb.pure, nofun⟩⟩)
  | _, _, _, .elseBlock _ he hb _ _ ho => expressionsPure_of_children rfl (List.forall_mem_cons.mpr
    ⟨he.isPure.expressionsPure, List.forall_mem_append.mpr ⟨hb.pure, ho.pure⟩⟩)
  | _, _, _, .elseIf _ he hb _ _ ho => expressionsPure_of_children rfl (List.forall_mem_cons.mpr
    ⟨he.isPure.expressionsPure,
      List.forall_mem_append.mpr ⟨hb.pure, List.forall_mem_singleton.mpr ho.pure⟩⟩)

theorem Block.pure : ∀ {ts body rest}, Block ts body rest → ∀ n ∈ body, n.ExpressionsPure
  | _, _, _, .braces _ _ hs _ => hs.pure

theorem Statements.pure : ∀ {ts body rest}, Statements ts body rest → ∀ n ∈ body, n.ExpressionsPure
  | _, _, _, .nil => List.forall_mem_nil _
  | _, _, _, .cons h _ hs => List.forall_mem_cons.mpr ⟨h.pure, hs.pure⟩

end

end Grammar

/-- Wherever an expression stands in a parsed tree, it is pure. -/
theorem expressions_pure {ts : List Token} {p : Program} (h : parseTokens ts = .ok p) :
    p.toNode.ExpressionsPure := by
  obtain ⟨_, _, _, hs, _⟩ := Parser.program_sound (parseTokens_ok.mp h).1
  exact Node.expressionsPure_of_children rfl hs.pure

namespace Eval

variable {α β : Type} {env : Env} {frames : Nat}

/-- The scopes are in the end what they were, and no `return` is on its way. -/
structure Quiet (p : Eval α) : Prop where
  scopes : ∀ m, (reached (p m)).scopes = m.scopes
  noReturn : ∀ m v m', p m ≠ .error (.returned v) m'

/-! ## Steps -/

theorem quiet_pure (a : α) : Quiet (pure a : Eval α) := ⟨fun _ => rfl, nofun⟩

theorem quiet_abort (a : Abort) : Quiet (throw (.abort a) : Eval α) := ⟨fun _ => rfl, nofun⟩

theorem quiet_fail (cause : Cause) (pos : Option Pos) : Quiet (fail cause pos : Eval α) :=
  quiet_abort _

theorem Quiet.bind {p : Eval α} {f : α → Eval β} (hp : Quiet p) (hf : ∀ a, Quiet (f a)) :
    Quiet (p >>= f) := by
  have hrun (m : Machine) : (p >>= f) m = EStateM.bind p f m := rfl
  constructor
  · intro m
    have hm := hp.scopes m
    rw [hrun, EStateM.bind]
    cases h : p m with
    | ok a m₁ =>
      rw [h] at hm
      exact ((hf a).scopes m₁).trans hm
    | error e m₁ =>
      rw [h] at hm
      exact hm
  · intro m v m'
    have hm := hp.noReturn m
    rw [hrun, EStateM.bind]
    cases h : p m with
    | ok a m₁ => exact (hf a).noReturn m₁ v m'
    | error e m₁ =>
      rw [h] at hm
      rintro ⟨⟩
      exact hm v m' rfl

theorem quiet_get {f : Machine → Eval α} (hf : ∀ m, Quiet (f m)) : Quiet (get >>= f) where
  scopes m := (hf m).scopes m
  noReturn m := (hf m).noReturn m

theorem quiet_modify {f : Machine → Machine} (hs : ∀ m, (f m).scopes = m.scopes) :
    Quiet (modify f : Eval Unit) where
  scopes m := hs m
  noReturn := nofun

theorem quiet_log (r : LogRecord) : Quiet (log r) := quiet_modify fun _ => rfl

theorem quiet_push (v : Value) : Quiet (push v) := quiet_modify fun _ => rfl

theorem quiet_pop (role : Role) (pos : Option Pos) : Quiet (pop role pos) := by
  refine quiet_get fun m => ?_
  split
  · exact .bind (quiet_modify fun _ => rfl) fun _ => quiet_pure _
  · exact quiet_fail _ _

theorem quiet_height : Quiet height := quiet_get fun _ => quiet_pure _

theorem quiet_lookup (name : String) : Quiet (lookup? name) := quiet_get fun _ => quiet_pure _

theorem quiet_popMany (pos : Pos) (count : Nat) : ∀ values, Quiet (popMany pos count values) := by
  induction count with
  | zero => exact fun values => quiet_pure values
  | succ count ih => exact fun values => (quiet_pop _ _).bind fun v => ih _

theorem quiet_eachLeaving {p : Node → Eval Unit} {args : List Node} (h : ∀ a ∈ args, Quiet (p a)) :
    ∀ height, Quiet (eachLeaving p height args) := by
  induction args with
  | nil => exact fun _ => quiet_pure ()
  | cons a args ih =>
    intro height
    refine (h a List.mem_cons_self).bind fun _ => quiet_height.bind fun top => ?_
    split
    · exact quiet_fail _ _
    · exact ih (fun b hb => h b (List.mem_cons_of_mem _ hb)) top

theorem quiet_pushResult (result : Option Value) : Quiet (pushResult result) := by
  cases result with
  | some v => exact quiet_push v
  | none => exact quiet_pure ()

theorem quiet_ofOperator (r : Except OperatorFault α) (pos : Pos) : Quiet (ofOperator r pos) := by
  rcases r with (cause | crash) | a
  · exact quiet_fail _ _
  · exact quiet_abort _
  · exact quiet_pure a

theorem quiet_pushInt (n : Int) (pos : Pos) : Quiet (pushInt n pos) :=
  (quiet_ofOperator _ pos).bind quiet_push

theorem quiet_callFunction (f : LibraryFunction) (name : String) (args : List Value) (pos : Pos) :
    Quiet (callFunction f name args pos) := by
  have htake : Quiet
      (modifyGet fun m => (m.streams, { m with streams := default }) : Eval Streams) :=
    ⟨fun _ => rfl, nofun⟩
  refine htake.bind fun streams => ?_
  cases f args streams with
  | ok result streams => exact .bind (quiet_modify fun _ => rfl) fun _ => quiet_pure result
  | error fault streams =>
    refine .bind (quiet_modify fun _ => rfl) fun _ => ?_
    cases fault with
    | error e => exact quiet_fail _ _
    | crash c => exact quiet_abort _

theorem quiet_callMethod (f : LibraryMethod) (method : String) (this : Value) (args : List Value)
    (pos : Pos) : Quiet (callMethod f method this args pos) := by
  rw [callMethod]
  split
  · exact quiet_pure _
  · exact quiet_fail _ _
  · exact quiet_abort _

/-- A call gives its scope up and ends a `return`, whatever its body does. -/
theorem Framed.quiet_inFrame {body : Eval Unit} (h : Framed body) : Quiet (Eval.inFrame body) where
  scopes := h.inFrame_scopes
  noReturn m v m' := by
    rw [inFrame_eq rfl (h.outer (calling m))]
    rcases body (calling m) with ⟨_, _⟩ | ⟨e, _⟩
    · nofun
    · cases e <;> nofun

/-! ## Expressions -/

structure QuietAt (env : Env) (frames : Nat) : Prop where
  expr : ∀ n : Node, n.IsPure → Quiet (exec env frames n)
  args : ∀ args pos, (∀ a ∈ args, a.IsPure) → Quiet (evalArgs env frames args pos)
  named : ∀ name args pos, (∀ a ∈ args, a.IsPure) → Quiet (callNamed env frames name args pos)
  user : ∀ f args pos, (∀ a ∈ args, a.IsPure) → Quiet (callUser env frames f args pos)
  method : ∀ this method args pos, (∀ a ∈ args, a.IsPure) →
    Quiet (callOn env frames this method args pos)

theorem quiet_exec (ih : QuietAt env frames) {n : Node} (hn : n.IsPure) :
    Quiet (exec env (frames + 1) n) := by
  have hx := hn.isExpr
  cases n with
  | int pos value => exact quiet_pushInt value pos
  | float pos value => exact quiet_push _
  | string pos text => exact quiet_push _
  | bool pos value => exact quiet_push _
  | var pos name =>
    refine (quiet_lookup name).bind fun v => ?_
    cases v with
    | some v => exact quiet_push v
    | none => exact quiet_fail _ _
  | unary pos op operand =>
    rw [exec]
    cases negatedLiteral? op operand with
    | some value => exact quiet_pushInt value pos
    | none =>
      refine (ih.expr operand (hn.child List.mem_cons_self)).bind fun _ => ?_
      exact (quiet_pop _ _).bind fun v => (quiet_ofOperator _ pos).bind quiet_push
  | binary pos op left right =>
    refine (ih.expr left (hn.child List.mem_cons_self)).bind fun _ => ?_
    refine (ih.expr right (hn.child (List.mem_cons_of_mem _ List.mem_cons_self))).bind fun _ => ?_
    refine (quiet_pop _ _).bind fun r => (quiet_pop _ _).bind fun l => ?_
    exact (quiet_ofOperator _ pos).bind quiet_push
  | call pos name args => exact ih.named name args pos fun a ha => hn.child ha
  | methodCall pos receiver method args =>
    refine (quiet_lookup receiver).bind fun v => ?_
    cases v with
    | some this => exact ih.method this method args pos fun a ha => hn.child ha
    | none => exact quiet_fail _ _
  | exprMethodCall pos receiver method args =>
    refine (ih.expr receiver (hn.child List.mem_cons_self)).bind fun _ => ?_
    refine (quiet_pop _ _).bind fun this => ?_
    exact ih.method this method args pos fun a ha => hn.child (List.mem_cons_of_mem _ ha)
  | unknown pos sort expr => exact quiet_abort _
  | _ => cases hx

theorem quiet_callNamed (ih : QuietAt env frames) (name : String) {args : List Node} (pos : Pos)
    (ha : ∀ a ∈ args, a.IsPure) : Quiet (callNamed env (frames + 1) name args pos) := by
  rw [callNamed]
  cases env.library.functions.find? name with
  | some f =>
    refine (ih.args args pos ha).bind fun given => (quiet_log _).bind fun _ => ?_
    exact (quiet_callFunction f name given pos).bind quiet_pushResult
  | none =>
    refine quiet_get fun m => ?_
    cases m.functions.find? name with
    | some f => exact ih.user f args pos ha
    | none => exact quiet_fail _ _

theorem quiet_callUser (ih : QuietAt env frames) (f : UserFunction) {args : List Node} (pos : Pos)
    (ha : ∀ a ∈ args, a.IsPure) : Quiet (callUser env (frames + 1) f args pos) := by
  have hfail (cause : Cause) (g : Unit → Eval Unit) : Quiet (fail cause (some pos) >>= g) :=
    ⟨fun _ => rfl, nofun⟩
  rw [callUser]
  split
  · exact hfail _ _
  · refine quiet_get fun m => ?_
    split
    · exact hfail _ _
    · refine (ih.args args pos ha).bind fun given => (quiet_log _).bind fun _ => ?_
      refine quiet_height.bind fun before => ?_
      refine (framed_body env frames f given).quiet_inFrame.bind fun result => ?_
      exact .bind (quiet_modify fun _ => rfl) fun _ => quiet_pushResult result

theorem quiet_callOn (ih : QuietAt env frames) (this : Value) (method : String)
    {args : List Node} (pos : Pos) (ha : ∀ a ∈ args, a.IsPure) :
    Quiet (callOn env (frames + 1) this method args pos) := by
  rw [callOn]
  cases env.library.methods.find? this.kind with
  | none => exact quiet_fail _ _
  | some table =>
    cases hf : table.find? method with
    | none =>
      simp only [hf]
      exact quiet_fail _ _
    | some f =>
      simp only [hf]
      refine (ih.args args pos ha).bind fun given => (quiet_log _).bind fun _ => ?_
      exact (quiet_callMethod f method this given pos).bind quiet_pushResult

theorem quiet_evalArgs (ih : QuietAt env frames) {args : List Node} (pos : Pos)
    (ha : ∀ a ∈ args, a.IsPure) : Quiet (evalArgs env (frames + 1) args pos) := by
  refine quiet_height.bind fun before => ?_
  refine (quiet_eachLeaving (fun a h => ih.expr a (ha a h)) _).bind fun _ => ?_
  exact quiet_popMany pos _ _

theorem quietAt (env : Env) (frames : Nat) : QuietAt env frames := by
  induction frames with
  | zero =>
    constructor
    all_goals
      intros
      exact quiet_fail _ none
  | succ frames ih =>
    constructor
    case expr => exact fun n hn => quiet_exec ih hn
    case args => exact fun args pos ha => quiet_evalArgs ih pos ha
    case named => exact fun name args pos ha => quiet_callNamed ih name pos ha
    case user => exact fun f args pos ha => quiet_callUser ih f pos ha
    case method => exact fun this method args pos ha => quiet_callOn ih this method pos ha

end Eval

end ExScript
