import ExScript.Proofs.ChannelHeight
import ExScript.Proofs.MappedFunctions
import ExScript.Session

/-!
# Statements behind a return

`Node.trim` deletes what stands behind a `return` in any statement list of a tree.  A `return` never
gives way to the statement behind it, whether its value fails or is on its way out
(`exec_ret_stops`), so a trimmed tree is run like the tree itself.  Declared functions are trimmed
with the tree they are declared in, and nothing else of the machine shows the difference
(`run_trim`).
-/

namespace ExScript

/-! ## Trimmed trees -/

namespace Node

def isReturn : Node → Bool
  | ret _ _ => true
  | _ => false

mutual

def trim : Node → Node
  | unary p op operand => unary p op operand.trim
  | binary p op left right => binary p op left.trim right.trim
  | call p name args => call p name (trimAll args)
  | methodCall p receiver method args => methodCall p receiver method (trimAll args)
  | exprMethodCall p receiver method args => exprMethodCall p receiver.trim method (trimAll args)
  | assign p name value => assign p name value.trim
  | fnDecl p name params body => fnDecl p name params (trimBody body)
  | ret p value => ret p value.trim
  | cond p test thenBody elseBody => cond p test.trim (trimBody thenBody) (trimElse elseBody)
  | whileLoop p test body => whileLoop p test.trim (trimBody body)
  | forLoop p x low high body => forLoop p x low.trim high.trim (trimBody body)
  | block p body => block p (trimBody body)
  | n => n

def trimAll : List Node → List Node
  | [] => []
  | n :: ns => n.trim :: trimAll ns

/-- A statement list ends with its first `return`. -/
def trimBody : List Node → List Node
  | [] => []
  | n :: rest => n.trim :: if n.isReturn then [] else trimBody rest

def trimElse : Option (List Node) → Option (List Node)
  | none => none
  | some body => some (trimBody body)

end

theorem trimAll_eq_map (ns : List Node) : trimAll ns = ns.map trim := by
  induction ns with
  | nil => rfl
  | cons n ns ih => rw [trimAll, ih, List.map_cons]

/-- Without a `return` nothing is deleted. -/
theorem trimBody_of_forall {body : List Node} (h : ∀ n ∈ body, n.isReturn = false) :
    trimBody body = body.map trim := by
  induction body with
  | nil => rfl
  | cons n rest ih =>
    have hn := h n List.mem_cons_self
    rw [trimBody, hn, ih fun m hm => h m (List.mem_cons_of_mem _ hm)]
    rfl

theorem trimBody_append_ret {before : List Node} (h : ∀ n ∈ before, n.isReturn = false) (p : Pos)
    (value : Node) (after : List Node) :
    trimBody (before ++ .ret p value :: after) = before.map trim ++ [.ret p value.trim] := by
  induction before with
  | nil => rfl
  | cons n rest ih =>
    have hn := h n List.mem_cons_self
    rw [List.cons_append, trimBody, hn, ih fun m hm => h m (List.mem_cons_of_mem _ hm)]
    rfl

example (p : Pos) (unreached : Node) :
    trim (.fnDecl p "f" [] [.ret p (.int p 1), unreached])
      = .fnDecl p "f" [] [.ret p (.int p 1)] := rfl

/-! ### The relations that trimming is -/

def Trimmed (n n' : Node) : Prop := n' = n.trim

def BodyTrimmed (body body' : List Node) : Prop := body' = trimBody body

theorem forall₂_trimAll (ns : List Node) : List.Forall₂ Trimmed ns (trimAll ns) := by
  rw [trimAll_eq_map]
  exact List.forall₂_map_right_iff.mpr (List.forall₂_same.mpr fun _ _ => rfl)

/-- Trimming keeps the sort of a node, its own data and its position. -/
theorem layer_trim (n : Node) : n.Layer Eq Trimmed BodyTrimmed n.trim := by
  have node (n : Node) : Trimmed n n.trim := rfl
  have list (body : List Node) : BodyTrimmed body (trimBody body) := rfl
  cases n with
  | int p value => exact .int rfl value
  | float p value => exact .float rfl value
  | string p text => exact .string rfl text
  | bool p value => exact .bool rfl value
  | var p name => exact .var rfl name
  | unary p op operand => exact .unary rfl op (node _)
  | binary p op left right => exact .binary rfl op (node _) (node _)
  | call p name args => exact .call rfl name (forall₂_trimAll _)
  | methodCall p receiver method args =>
    exact .methodCall rfl receiver method (forall₂_trimAll _)
  | exprMethodCall p receiver method args =>
    exact .exprMethodCall rfl (node _) method (forall₂_trimAll _)
  | assign p name value => exact .assign rfl name (node _)
  | fnDecl p name params body => exact .fnDecl rfl name params (list _)
  | ret p value => exact .ret rfl (node _)
  | cond p test thenBody elseBody =>
    refine .cond rfl (node _) (list _) ?_
    cases elseBody with
    | none => exact .none
    | some body => exact .some (list _)
  | whileLoop p test body => exact .whileLoop rfl (node _) (list _)
  | forLoop p x low high body => exact .forLoop rfl x (node _) (node _) (list _)
  | block p body => exact .block rfl (list _)
  | unknown p sort expr => exact .unknown rfl sort expr

end Node

def UserFunction.trim (f : UserFunction) : UserFunction := { f with body := Node.trimBody f.body }

theorem UserFunction.Layer.eq_trim {f g : UserFunction} (h : f.Layer Node.BodyTrimmed g) :
    g = f.trim := by
  obtain ⟨name, params, body⟩ := f
  obtain ⟨name', params', body'⟩ := g
  cases h.name
  cases h.params
  cases h.body
  rfl

/-- The bodies of the declared functions are trimmed. -/
def Machine.trim (m : Machine) : Machine :=
  { m with functions := m.functions.map UserFunction.trim }

def Program.trim (p : Program) : Program := { p with body := Node.trimBody p.body }

/-! ## Evaluation of a trimmed tree -/

namespace Eval

variable {env : Env} {frames frames' : Nat}

/-- A `return` fails or interrupts, so nothing is evaluated after it. -/
theorem exec_ret_stops {n : Node} (hn : n.isReturn = true) (m : Machine) (u : Unit)
    (m' : Machine) : exec env frames n m ≠ .ok u m' := by
  cases n with
  | ret p value =>
    cases frames with
    | zero => exact nofun
    | succ frames =>
      intro h
      obtain ⟨_, m₁, -, h⟩ := bind_ok_iff.mp h
      obtain ⟨v, m₂, -, h⟩ := bind_ok_iff.mp h
      cases h
  | _ => cases hn

theorem statements_trim
    (h : ∀ n, Carries UserFunction.trim id (exec env frames n) (exec env frames' n.trim))
    (body : List Node) :
    Carries UserFunction.trim id (body.forM (exec env frames))
      ((Node.trimBody body).forM (exec env frames')) := by
  induction body with
  | nil => exact carries_pure ()
  | cons n rest ih =>
    rw [Node.trimBody]
    cases hn : n.isReturn with
    | false => exact (h n).bind fun _ => ih
    | true =>
      -- here the lists go apart: one of them is at its end
      exact (h n).bind_of_stops (exec_ret_stops hn) _ _

theorem trimRuleClosed (env : Env) :
    RuleClosed Eq Node.Trimmed Node.BodyTrimmed env env (Carries UserFunction.trim id) where
  toStepClosed := carries_steps (fun _ _ h => h.symm) env
  layer {n _} h := by
    rw [h]
    exact n.layer_trim
  declare h := h.eq_trim ▸ carries_declare rfl rfl
  callee name _ _ _ _ hk := carries_callee name fun f => hk f f.trim ⟨rfl, rfl, rfl⟩
  statements {_ _} h {body _} hb := by
    rw [hb]
    exact statements_trim (fun n => h n n.trim rfl) body

theorem exec_trim (env : Env) (frames : Nat) (n : Node) :
    Carries UserFunction.trim id (exec env frames n) (exec env frames n.trim) :=
  ((trimRuleClosed env).rules frames).exec rfl

end Eval

/-! ## Runs -/

namespace Session

theorem runHosted_trim (env : Env) (n : Node) (m : Machine) :
    runHosted env n.trim m.trim = ((runHosted env n m).1, (runHosted env n m).2.trim) := by
  have h : Eval.exec env (frameLimit env.maxDepth) n.trim m.trim = _ := Eval.exec_trim env _ n m
  rw [runHosted, runHosted, h]
  cases Eval.exec env (frameLimit env.maxDepth) n m with
  | ok u m' => rfl
  | error e m' =>
    cases e with
    | abort a => exact congrArg (fun a => (Except.error a, m'.trim)) a.mapPos_id
    | returned v => rfl

theorem runMachine_trim (env : Env) (n : Node) (m : Machine) :
    runMachine env n.trim m.trim = ((runMachine env n m).1, (runMachine env n m).2.trim) := by
  unfold runMachine
  split
  · exact runHosted_trim env n m
  · rfl

/-- What stands behind a `return` in the same statement list never matters.  From a fresh start the
trimmed program has the same result or fails for the same reason at the same position, and it ends
on the same machine, that is with the same variables, channel, streams and log, except that the
functions it has declared are trimmed. -/
theorem run_trim (env : Env) (streams : Streams) (p : Program) :
    let before := (Session.create env streams).run p.toNode
    let after := (Session.create env streams).run p.trim.toNode
    after.1 = before.1 ∧ after.2.machine = before.2.machine.trim := by
  intro before after
  have h := runMachine_trim env p.toNode (Machine.initial streams)
  exact ⟨(congrArg Prod.fst h :), (congrArg Prod.snd h :)⟩

end Session

end ExScript
