import ExScript.Proofs.ChannelFrame
import Mathlib.Data.List.Forall2

/-!
# Rules on related trees

Two trees may be related in any way that can be read off layer by layer: the same constructor with
the same data, and parts that are related again (`Node.Layer`).  Statement lists have a relation of
their own, so that they need not agree statement by statement.  `RuleClosed` lists what a relation
between evaluations has to be closed under so that it relates every rule on one tree to the same
rule on a related one (`RuleClosed.rules`): one closure property for each primitive step of an
evaluation, sequences, calls and statement lists.  The rules are gone through here once; what is
proved about two runs names the relations and gives these properties.
-/

namespace ExScript

/-- One layer of two trees with positions in relation by `R`, parts by `N` and statement lists
by `B`. -/
inductive Node.Layer (R : Pos → Pos → Prop) (N : Node → Node → Prop)
    (B : List Node → List Node → Prop) : Node → Node → Prop
  | int {p q : Pos} (hp : R p q) (value : Int) : Layer R N B (.int p value) (.int q value)
  | float {p q : Pos} (hp : R p q) (value : Float) : Layer R N B (.float p value) (.float q value)
  | string {p q : Pos} (hp : R p q) (text : String) :
    Layer R N B (.string p text) (.string q text)
  | bool {p q : Pos} (hp : R p q) (value : Bool) : Layer R N B (.bool p value) (.bool q value)
  | var {p q : Pos} (hp : R p q) (name : String) : Layer R N B (.var p name) (.var q name)
  | unary {p q : Pos} (hp : R p q) (op : UnaryOp) {a b : Node} (ha : N a b) :
    Layer R N B (.unary p op a) (.unary q op b)
  | binary {p q : Pos} (hp : R p q) (op : BinaryOp) {a b c d : Node} (ha : N a b) (hc : N c d) :
    Layer R N B (.binary p op a c) (.binary q op b d)
  | call {p q : Pos} (hp : R p q) (name : String) {as bs : List Node}
    (ha : List.Forall₂ N as bs) : Layer R N B (.call p name as) (.call q name bs)
  | methodCall {p q : Pos} (hp : R p q) (receiver method : String) {as bs : List Node}
    (ha : List.Forall₂ N as bs) :
    Layer R N B (.methodCall p receiver method as) (.methodCall q receiver method bs)
  | exprMethodCall {p q : Pos} (hp : R p q) {a b : Node} (hr : N a b) (method : String)
    {as bs : List Node} (ha : List.Forall₂ N as bs) :
    Layer R N B (.exprMethodCall p a method as) (.exprMethodCall q b method bs)
  | assign {p q : Pos} (hp : R p q) (name : String) {a b : Node} (ha : N a b) :
    Layer R N B (.assign p name a) (.assign q name b)
  | fnDecl {p q : Pos} (hp : R p q) (name : String) (params : List String) {as bs : List Node}
    (hb : B as bs) : Layer R N B (.fnDecl p name params as) (.fnDecl q name params bs)
  | ret {p q : Pos} (hp : R p q) {a b : Node} (ha : N a b) : Layer R N B (.ret p a) (.ret q b)
  | cond {p q : Pos} (hp : R p q) {a b : Node} (ht : N a b) {as bs : List Node} (hb : B as bs)
    {e f : Option (List Node)} (he : Option.Rel B e f) :
    Layer R N B (.cond p a as e) (.cond q b bs f)
  | whileLoop {p q : Pos} (hp : R p q) {a b : Node} (ht : N a b) {as bs : List Node}
    (hb : B as bs) : Layer R N B (.whileLoop p a as) (.whileLoop q b bs)
  | forLoop {p q : Pos} (hp : R p q) (var : String) {a b c d : Node} (hl : N a b) (hh : N c d)
    {as bs : List Node} (hb : B as bs) :
    Layer R N B (.forLoop p var a c as) (.forLoop q var b d bs)
  | block {p q : Pos} (hp : R p q) {as bs : List Node} (hb : B as bs) :
    Layer R N B (.block p as) (.block q bs)
  | unknown {p q : Pos} (hp : R p q) (sort : String) (expr : Bool) :
    Layer R N B (.unknown p sort expr) (.unknown q sort expr)

/-- Functions that differ in their bodies only. -/
structure UserFunction.Layer (B : List Node → List Node → Prop) (f g : UserFunction) : Prop where
  name : f.name = g.name
  params : f.params = g.params
  body : B f.body g.body

/-- The same reason to stop, at positions in relation. -/
inductive Interrupt.Aligned (R : Pos → Pos → Prop) : Interrupt → Interrupt → Prop
  | failed (cause : Cause) {p q : Option Pos} (hp : Option.Rel R p q) :
    Aligned R (.abort (.failed ⟨cause, p⟩)) (.abort (.failed ⟨cause, q⟩))
  | crashed (c : Crash) : Aligned R (.abort (.crashed c)) (.abort (.crashed c))
  | outOfRounds : Aligned R (.abort .outOfRounds) (.abort .outOfRounds)
  | returned (v : Value) : Aligned R (.returned v) (.returned v)

theorem Interrupt.Aligned.eq {e e' : Interrupt} (h : e.Aligned Eq e') : e = e' := by
  cases h with
  | failed cause hp =>
    cases hp with
    | none => rfl
    | some hp => rw [hp]
  | crashed c => rfl
  | outOfRounds => rfl
  | returned v => rfl

variable {R : Pos → Pos → Prop} {N : Node → Node → Prop} {B : List Node → List Node → Prop}

theorem Node.Layer.pos {n n' : Node} (h : Layer R N B n n') : R n.pos n'.pos := by
  cases h <;> assumption

namespace Eval

variable {α β : Type} {env env' : Env}

/-! ## Calls in steps -/

/-- The limit that every call is checked against. -/
def checkDepth (env : Env) (name : String) (pos : Pos) : Eval Unit := do
  if env.maxDepth ≤ (← get).depth then fail (.callDepth env.maxDepth name) (some pos)

/-- The body of a call in its own scope, with the arguments bound to the parameters. -/
def runBody (env : Env) (frames : Nat) (f : UserFunction) (given : List Value) :
    Eval (Option Value) :=
  inFrame do
    bindAll f.params given
    execBody env frames f.body

/-- A call whose number of arguments fits. -/
def callFitting (env : Env) (frames : Nat) (f : UserFunction) (args : List Node) (pos : Pos) :
    Eval Unit := do
  checkDepth env f.name pos
  let given ← evalArgs env frames args pos
  log (.userCall f.name given.length)
  let before ← height
  let result ← runBody env frames f given
  truncate before
  pushResult result

theorem callUser_succ (env : Env) (frames : Nat) (f : UserFunction) (args : List Node) (pos : Pos) :
    callUser env (frames + 1) f args pos =
      if args.length ≠ f.params.length then
        fail (.arity f.name f.params.length args.length) (some pos)
      else callFitting env frames f args pos := by
  rw [callUser]
  split
  · rfl
  · rw [callFitting, checkDepth, bind_assoc]
    refine congrArg (get >>= ·) (funext fun m => ?_)
    split <;> rfl

/-! ## Relations that the steps preserve -/

/-- What a relation between evaluations under two environments has to be closed under, functions and
statement lists left aside. -/
structure StepClosed (R : Pos → Pos → Prop) (env env' : Env)
    (rel : ∀ {α : Type}, Eval α → Eval α → Prop) : Prop where
  library : env.library = env'.library
  rounds : env.rounds = env'.rounds
  pure : ∀ {α : Type} (a : α), rel (pure a) (pure a)
  bind : ∀ {α β : Type} {p q : Eval α} {f g : α → Eval β}, rel p q → (∀ a, rel (f a) (g a)) →
    rel (p >>= f) (q >>= g)
  throw : ∀ {α : Type} {e e' : Interrupt}, e.Aligned R e' → rel (throw e : Eval α) (throw e')
  log : ∀ r, rel (log r) (log r)
  push : ∀ v, rel (push v) (push v)
  pop : ∀ role {p q}, R p q → rel (pop role (some p)) (pop role (some q))
  height : rel height height
  truncate : ∀ n, rel (truncate n) (truncate n)
  settle : ∀ name before {p q}, R p q → rel (settle name p before) (settle name q before)
  lookup : ∀ name, rel (lookup? name) (lookup? name)
  assign : ∀ name v, rel (Eval.bind name v) (Eval.bind name v)
  /-- A function of the library is called. -/
  callFunction : ∀ {f name}, env.library.functions.find? name = some f → ∀ args {p q}, R p q →
    rel (callFunction f name args p) (callFunction f name args q)
  checkDepth : ∀ name {p q}, R p q → rel (checkDepth env name p) (checkDepth env' name q)
  inFrame : ∀ {p q : Eval Unit}, rel p q → rel (inFrame p) (inFrame q)

namespace StepClosed

variable {rel : ∀ {α : Type}, Eval α → Eval α → Prop} {p q : Pos}

theorem fail (h : StepClosed R env env' rel) (cause : Cause) (hp : R p q) :
    rel (Eval.fail cause (some p) : Eval α) (Eval.fail cause (some q)) :=
  h.throw (.failed cause (.some hp))

theorem crash (h : StepClosed R env env' rel) (c : Crash) :
    rel (Eval.crash c : Eval α) (Eval.crash c) :=
  h.throw (.crashed c)

theorem stackExhausted (h : StepClosed R env env' rel) :
    rel (Eval.stackExhausted : Eval α) Eval.stackExhausted :=
  h.throw (.failed _ .none)

theorem ofOperator (h : StepClosed R env env' rel) (r : Except OperatorFault α) (hp : R p q) :
    rel (ofOperator r p) (ofOperator r q) := by
  cases r with
  | ok a => exact h.pure a
  | error fault =>
    cases fault with
    | cause cause => exact h.fail cause hp
    | crash c => exact h.crash c

theorem pushOperator (h : StepClosed R env env' rel) (r : Except OperatorFault Value)
    (hp : R p q) : rel (do Eval.push (← Eval.ofOperator r p))
      (do Eval.push (← Eval.ofOperator r q)) :=
  h.bind (h.ofOperator r hp) h.push

theorem boundOf (h : StepClosed R env env' rel) (v : Value) (hp : R p q) :
    rel (boundOf v p) (boundOf v q) := by
  unfold Eval.boundOf
  split
  · exact h.pure _
  · split
    · exact h.pure _
    · exact h.fail _ hp
  · exact h.fail _ hp

theorem pushResult (h : StepClosed R env env' rel) (result : Option Value) :
    rel (pushResult result) (pushResult result) := by
  cases result with
  | none => exact h.pure ()
  | some v => exact h.push v

theorem callMethod (h : StepClosed R env env' rel) (f : LibraryMethod) (method : String)
    (this : Value) (args : List Value) (hp : R p q) :
    rel (callMethod f method this args p) (callMethod f method this args q) := by
  unfold Eval.callMethod
  split
  · exact h.pure _
  · exact h.fail _ hp
  · exact h.crash _

theorem bindAll (h : StepClosed R env env' rel) (names : List String) :
    ∀ vs, rel (bindAll names vs) (bindAll names vs) := by
  induction names with
  | nil => exact fun vs => h.pure ()
  | cons name names ih =>
    intro vs
    cases vs with
    | nil => exact h.pure ()
    | cons v vs => exact h.bind (h.assign name v) fun _ => ih vs

theorem popMany (h : StepClosed R env env' rel) (hp : R p q) (count : Nat) :
    ∀ values, rel (popMany p count values) (popMany q count values) := by
  induction count with
  | zero => exact fun values => h.pure values
  | succ count ih => exact fun values => h.bind (h.pop _ hp) fun v => ih _

/-! ### Repetition -/

theorem discarding (h : StepClosed R env env' rel) {body body' : Eval Unit}
    (hb : rel body body') : rel (discarding body) (discarding body') :=
  h.bind h.height fun n => h.bind hb fun _ => h.truncate n

theorem repeatWhile (h : StepClosed R env env' rel) {test test' : Eval Bool}
    {body body' : Eval Unit} (ht : rel test test') (hb : rel body body') (rounds : Nat) :
    rel (repeatWhile test body rounds) (repeatWhile test' body' rounds) := by
  induction rounds with
  | zero => exact h.throw .outOfRounds
  | succ rounds ih =>
    refine h.bind ht fun taken => ?_
    cases taken with
    | false => exact h.pure ()
    | true => exact h.bind (h.discarding hb) fun _ => ih

theorem countUp (h : StepClosed R env env' rel) (name : String) {body body' : Eval Unit}
    (hb : rel body body') (rounds : Nat) :
    ∀ i, rel (countUp name body rounds i) (countUp name body' rounds i) := by
  induction rounds with
  | zero => exact fun i => h.pure ()
  | succ rounds ih =>
    exact fun i => h.bind (h.discarding hb) fun _ => h.bind (h.assign name _) fun _ => ih _

theorem forM (h : StepClosed R env env' rel) {f g : Node → Eval Unit}
    (hf : ∀ n n', N n n' → rel (f n) (g n')) {body body' : List Node}
    (hb : List.Forall₂ N body body') : rel (body.forM f) (body'.forM g) := by
  induction hb with
  | nil => exact h.pure ()
  | cons hn _ ih => exact h.bind (hf _ _ hn) fun _ => ih

theorem eachLeaving (h : StepClosed R env env' rel) (hpos : ∀ n n', N n n' → R n.pos n'.pos)
    {f g : Node → Eval Unit} (hf : ∀ n n', N n n' → rel (f n) (g n')) {args args' : List Node}
    (ha : List.Forall₂ N args args') :
    ∀ n, rel (eachLeaving f n args) (eachLeaving g n args') := by
  induction ha with
  | nil => exact fun n => h.pure ()
  | cons hn _ ih =>
    refine fun n => h.bind (hf _ _ hn) fun _ => h.bind h.height fun k => ?_
    split
    · exact h.fail _ (hpos _ _ hn)
    · exact ih k

end StepClosed

/-! ## Relations that the rules preserve -/

/-- What has to be known besides: related trees agree layer by layer, and functions and statement
lists may be exchanged for related ones. -/
structure RuleClosed (R : Pos → Pos → Prop) (N : Node → Node → Prop)
    (B : List Node → List Node → Prop) (env env' : Env)
    (rel : ∀ {α : Type}, Eval α → Eval α → Prop) : Prop extends StepClosed R env env' rel where
  layer : ∀ {n n'}, N n n' → n.Layer R N B n'
  declare : ∀ {f g}, f.Layer B g → rel (declare f) (declare g)
  /-- A function of the program is looked up. -/
  callee : ∀ name {k k' : UserFunction → Eval Unit} {z z' : Eval Unit},
    (∀ f g, f.Layer B g → rel (k f) (k' g)) → rel z z' →
      rel (do match (← get).functions.find? name with | some f => k f | none => z)
        (do match (← get).functions.find? name with | some f => k' f | none => z')
  statements : ∀ {frames frames'},
    (∀ n n', N n n' → rel (exec env frames n) (exec env' frames' n')) →
      ∀ {body body'}, B body body' →
        rel (body.forM (exec env frames)) (body'.forM (exec env' frames'))

/-- Every rule is related to itself on related trees. -/
structure RulesRelated (R : Pos → Pos → Prop) (N : Node → Node → Prop)
    (B : List Node → List Node → Prop) (env env' : Env)
    (rel : ∀ {α : Type}, Eval α → Eval α → Prop) (frames frames' : Nat) : Prop where
  exec : ∀ {n n'}, N n n' → rel (exec env frames n) (exec env' frames' n')
  body : ∀ {body body'}, B body body' →
    rel (execBody env frames body) (execBody env' frames' body')
  holds : ∀ {test test'} role, N test test' →
    rel (holds env frames test role) (holds env' frames' test' role)
  forLoop : ∀ {p q} name {low low' high high' body body'}, R p q → N low low' →
    N high high' → B body body' →
      rel (execFor env frames p name low high body) (execFor env' frames' q name low' high' body')
  args : ∀ {args args' p q}, List.Forall₂ N args args' → R p q →
    rel (evalArgs env frames args p) (evalArgs env' frames' args' q)
  named : ∀ name {args args' p q}, List.Forall₂ N args args' → R p q →
    rel (callNamed env frames name args p) (callNamed env' frames' name args' q)
  user : ∀ {f g args args' p q}, f.Layer B g → List.Forall₂ N args args' →
    R p q → rel (callUser env frames f args p) (callUser env' frames' g args' q)
  method : ∀ this method {args args' p q}, List.Forall₂ N args args' → R p q →
    rel (callOn env frames this method args p) (callOn env' frames' this method args' q)

namespace RuleClosed

variable {rel : ∀ {α : Type}, Eval α → Eval α → Prop} {frames frames' : Nat} {p q : Pos}

theorem pos (h : RuleClosed R N B env env' rel) {n n' : Node} (hn : N n n') : R n.pos n'.pos :=
  (h.layer hn).pos

theorem negatedLiteral (op : UnaryOp) {n n' : Node} (h : n.Layer R N B n') :
    negatedLiteral? op n = negatedLiteral? op n' := by
  cases h <;> cases op <;> rfl

theorem exec (h : RuleClosed R N B env env' rel)
    (ih : RulesRelated R N B env env' rel frames frames') {n n' : Node} (hn : N n n') :
    rel (exec env (frames + 1) n) (exec env' (frames' + 1) n') := by
  cases h.layer hn with
  | int hp value => exact h.pushOperator _ hp
  | float hp value => exact h.push _
  | string hp text => exact h.push _
  | bool hp value => exact h.push _
  | var hp name =>
    refine h.bind (h.lookup name) fun v => ?_
    cases v with
    | some v => exact h.push v
    | none => exact h.fail _ hp
  | unary hp op ha =>
    rw [Eval.exec, Eval.exec, negatedLiteral op (h.layer ha)]
    split
    · exact h.pushOperator _ hp
    · refine h.bind (ih.exec ha) fun _ => h.bind (h.pop _ hp) fun v => ?_
      exact h.pushOperator _ hp
  | binary hp op ha hc =>
    refine h.bind (ih.exec ha) fun _ => h.bind (ih.exec hc) fun _ => ?_
    refine h.bind (h.pop _ hp) fun r => h.bind (h.pop _ hp) fun l => ?_
    exact h.pushOperator _ hp
  | call hp name ha => exact ih.named name ha hp
  | methodCall hp receiver method ha =>
    refine h.bind (h.lookup receiver) fun v => ?_
    cases v with
    | some this => exact ih.method this method ha hp
    | none => exact h.fail _ hp
  | exprMethodCall hp hr method ha =>
    refine h.bind (ih.exec hr) fun _ => h.bind (h.pop _ hp) fun this => ?_
    exact ih.method this method ha hp
  | assign hp name ha =>
    exact h.bind h.height fun n => h.bind (ih.exec ha) fun _ => h.settle name n hp
  | fnDecl hp name params hb => exact h.declare ⟨rfl, rfl, hb⟩
  | ret hp ha =>
    exact h.bind (ih.exec ha) fun _ => h.bind (h.pop _ hp) fun v => h.throw (.returned v)
  | cond hp ht hb he =>
    refine h.bind (ih.holds _ ht) fun taken => ?_
    cases taken with
    | true => exact ih.body hb
    | false =>
      cases he with
      | none => exact h.pure ()
      | some hb => exact ih.body hb
  | whileLoop hp ht hb =>
    rw [Eval.exec, Eval.exec, h.rounds]
    exact h.repeatWhile (ih.holds _ ht) (ih.body hb) _
  | forLoop hp name hl hh hb => exact ih.forLoop name hp hl hh hb
  | block hp hb => exact ih.body hb
  | unknown hp sort expr => exact h.crash _

theorem holds (h : RuleClosed R N B env env' rel)
    (ih : RulesRelated R N B env env' rel frames frames') (role : Role) {test test' : Node}
    (ht : N test test') :
    rel (holds env (frames + 1) test role) (holds env' (frames' + 1) test' role) := by
  have hp := h.pos ht
  refine h.bind (ih.exec ht) fun _ => h.bind (h.pop role hp) fun v => ?_
  cases v with
  | bool b => exact h.pure b
  | int n => exact h.fail _ hp
  | float x => exact h.fail _ hp
  | string text => exact h.fail _ hp

theorem execFor (h : RuleClosed R N B env env' rel)
    (ih : RulesRelated R N B env env' rel frames frames') (name : String)
    {low low' high high' : Node} {body body' : List Node} (hp : R p q) (hl : N low low')
    (hh : N high high') (hb : B body body') :
    rel (execFor env (frames + 1) p name low high body)
      (execFor env' (frames' + 1) q name low' high' body') := by
  refine h.bind (ih.exec hl) fun _ => h.bind (ih.exec hh) fun _ => ?_
  refine h.bind (h.pop _ hp) fun v => h.bind (h.boundOf v (h.pos hh)) fun last => ?_
  refine h.bind (h.pop _ hp) fun w => h.bind (h.boundOf w (h.pos hl)) fun first => ?_
  exact h.bind (h.assign name _) fun _ => h.countUp name (ih.body hb) _ _

theorem evalArgs (h : RuleClosed R N B env env' rel)
    (ih : RulesRelated R N B env env' rel frames frames') {args args' : List Node}
    (ha : List.Forall₂ N args args') (hp : R p q) :
    rel (evalArgs env (frames + 1) args p) (evalArgs env' (frames' + 1) args' q) := by
  rw [Eval.evalArgs, Eval.evalArgs, ha.length_eq]
  refine h.bind h.height fun n => h.bind ?_ fun _ => h.popMany hp _ _
  exact h.eachLeaving (fun _ _ hn => h.pos hn) (fun _ _ hn => ih.exec hn) ha n

theorem callNamed (h : RuleClosed R N B env env' rel)
    (ih : RulesRelated R N B env env' rel frames frames') (name : String) {args args' : List Node}
    (ha : List.Forall₂ N args args') (hp : R p q) :
    rel (callNamed env (frames + 1) name args p) (callNamed env' (frames' + 1) name args' q) := by
  rw [Eval.callNamed, Eval.callNamed, ← h.library]
  split
  next f hf =>
    refine h.bind (ih.args ha hp) fun given => h.bind (h.log _) fun _ => ?_
    exact h.bind (h.callFunction hf given hp) h.pushResult
  · exact h.callee name (fun _ _ hf => ih.user hf ha hp) (h.fail _ hp)

theorem callFitting (h : RuleClosed R N B env env' rel)
    (ih : RulesRelated R N B env env' rel frames frames') {f g : UserFunction}
    {args args' : List Node} (hf : f.Layer B g) (ha : List.Forall₂ N args args') (hp : R p q) :
    rel (callFitting env frames f args p) (callFitting env' frames' g args' q) := by
  rw [Eval.callFitting, Eval.callFitting, hf.name]
  refine h.bind (h.checkDepth _ hp) fun _ => h.bind (ih.args ha hp) fun given => ?_
  refine h.bind (h.log _) fun _ => h.bind h.height fun n => ?_
  have hb : rel (runBody env frames f given) (runBody env' frames' g given) := by
    rw [runBody, runBody, hf.params]
    exact h.inFrame (h.bind (h.bindAll _ _) fun _ => ih.body hf.body)
  exact h.bind hb fun result => h.bind (h.truncate n) fun _ => h.pushResult result

theorem callUser (h : RuleClosed R N B env env' rel)
    (ih : RulesRelated R N B env env' rel frames frames') {f g : UserFunction}
    {args args' : List Node} (hf : f.Layer B g) (ha : List.Forall₂ N args args') (hp : R p q) :
    rel (callUser env (frames + 1) f args p) (callUser env' (frames' + 1) g args' q) := by
  rw [callUser_succ, callUser_succ, ha.length_eq, hf.name, hf.params]
  split
  · exact h.fail _ hp
  · exact h.callFitting ih hf ha hp

theorem callOn (h : RuleClosed R N B env env' rel)
    (ih : RulesRelated R N B env env' rel frames frames') (this : Value) (method : String)
    {args args' : List Node} (ha : List.Forall₂ N args args') (hp : R p q) :
    rel (callOn env (frames + 1) this method args p)
      (callOn env' (frames' + 1) this method args' q) := by
  rw [Eval.callOn, Eval.callOn, h.library]
  split
  · exact h.fail _ hp
  · split
    · exact h.fail _ hp
    · refine h.bind (ih.args ha hp) fun given => h.bind (h.log _) fun _ => ?_
      exact h.bind (h.callMethod _ method this given hp) h.pushResult

/-- With one frame more on either side. -/
theorem succ (h : RuleClosed R N B env env' rel)
    (ih : RulesRelated R N B env env' rel frames frames') :
    RulesRelated R N B env env' rel (frames + 1) (frames' + 1) where
  exec hn := h.exec ih hn
  body hb := h.statements (fun _ _ hn => ih.exec hn) hb
  holds role ht := h.holds ih role ht
  forLoop name _ _ _ _ _ _ hp hl hh hb := h.execFor ih name hp hl hh hb
  args ha hp := h.evalArgs ih ha hp
  named name _ _ _ _ ha hp := h.callNamed ih name ha hp
  user hf ha hp := h.callUser ih hf ha hp
  method this method _ _ _ _ ha hp := h.callOn ih this method ha hp

theorem rules (h : RuleClosed R N B env env' rel) (frames : Nat) :
    RulesRelated R N B env env' rel frames frames := by
  induction frames with
  | zero =>
    -- without a frame no rule is tried
    constructor
    all_goals
      intros
      exact h.stackExhausted
  | succ frames ih => exact h.succ ih

end RuleClosed

end Eval

end ExScript
