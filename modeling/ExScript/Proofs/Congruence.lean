import ExScript.Proofs.RelatedTrees
import ExScript.Proofs.WellFormed

/-!
# Two evaluations side by side

Trees that are `Aligned` differ at most in their positions.  A relation between evaluations that is
a `Congruence` relates every rule on one tree to the same rule on an aligned one
(`Congruence.congruent`).
-/

namespace ExScript

/-! ## Trees that differ in positions -/

namespace Node

/-- The same tree, and positions that correspond to each other are in relation. -/
inductive Aligned (R : Pos → Pos → Prop) : Node → Node → Prop
  | int {p q : Pos} (hp : R p q) (value : Int) : Aligned R (.int p value) (.int q value)
  | float {p q : Pos} (hp : R p q) (value : Float) : Aligned R (.float p value) (.float q value)
  | string {p q : Pos} (hp : R p q) (text : String) : Aligned R (.string p text) (.string q text)
  | bool {p q : Pos} (hp : R p q) (value : Bool) : Aligned R (.bool p value) (.bool q value)
  | var {p q : Pos} (hp : R p q) (name : String) : Aligned R (.var p name) (.var q name)
  | unary {p q : Pos} (hp : R p q) (op : UnaryOp) {a b : Node} (ha : Aligned R a b) :
    Aligned R (.unary p op a) (.unary q op b)
  | binary {p q : Pos} (hp : R p q) (op : BinaryOp) {a b c d : Node} (ha : Aligned R a b)
    (hc : Aligned R c d) : Aligned R (.binary p op a c) (.binary q op b d)
  | call {p q : Pos} (hp : R p q) (name : String) {as bs : List Node}
    (ha : List.Forall₂ (Aligned R) as bs) : Aligned R (.call p name as) (.call q name bs)
  | methodCall {p q : Pos} (hp : R p q) (receiver method : String) {as bs : List Node}
    (ha : List.Forall₂ (Aligned R) as bs) :
    Aligned R (.methodCall p receiver method as) (.methodCall q receiver method bs)
  | exprMethodCall {p q : Pos} (hp : R p q) {a b : Node} (hr : Aligned R a b) (method : String)
    {as bs : List Node} (ha : List.Forall₂ (Aligned R) as bs) :
    Aligned R (.exprMethodCall p a method as) (.exprMethodCall q b method bs)
  | assign {p q : Pos} (hp : R p q) (name : String) {a b : Node} (ha : Aligned R a b) :
    Aligned R (.assign p name a) (.assign q name b)
  | fnDecl {p q : Pos} (hp : R p q) (name : String) (params : List String) {as bs : List Node}
    (hb : List.Forall₂ (Aligned R) as bs) :
    Aligned R (.fnDecl p name params as) (.fnDecl q name params bs)
  | ret {p q : Pos} (hp : R p q) {a b : Node} (ha : Aligned R a b) :
    Aligned R (.ret p a) (.ret q b)
  | cond {p q : Pos} (hp : R p q) {a b : Node} (ht : Aligned R a b) {as bs : List Node}
    (hb : List.Forall₂ (Aligned R) as bs) {e f : Option (List Node)}
    (he : Option.Rel (List.Forall₂ (Aligned R)) e f) : Aligned R (.cond p a as e) (.cond q b bs f)
  | whileLoop {p q : Pos} (hp : R p q) {a b : Node} (ht : Aligned R a b) {as bs : List Node}
    (hb : List.Forall₂ (Aligned R) as bs) : Aligned R (.whileLoop p a as) (.whileLoop q b bs)
  | forLoop {p q : Pos} (hp : R p q) (var : String) {a b c d : Node} (hl : Aligned R a b)
    (hh : Aligned R c d) {as bs : List Node} (hb : List.Forall₂ (Aligned R) as bs) :
    Aligned R (.forLoop p var a c as) (.forLoop q var b d bs)
  | block {p q : Pos} (hp : R p q) {as bs : List Node} (hb : List.Forall₂ (Aligned R) as bs) :
    Aligned R (.block p as) (.block q bs)
  | unknown {p q : Pos} (hp : R p q) (sort : String) (expr : Bool) :
    Aligned R (.unknown p sort expr) (.unknown q sort expr)

variable {R : Pos → Pos → Prop}

theorem Aligned.layer {n n' : Node} (h : Aligned R n n') :
    Layer R (Aligned R) (List.Forall₂ (Aligned R)) n n' := by
  cases h <;> constructor <;> assumption

theorem Aligned.pos {n n' : Node} (h : Aligned R n n') : R n.pos n'.pos := h.layer.pos

theorem aligned_refl (hR : ∀ p, R p p) (n : Node) : Aligned R n n := by
  induction n using childInduction with
  | step n ih =>
  have all {ns : List Node} (h : ns ⊆ n.children) : List.Forall₂ (Aligned R) ns ns :=
    List.forall₂_same.mpr fun m hm => ih m (h hm)
  cases n with
  | int p value => exact .int (hR p) value
  | float p value => exact .float (hR p) value
  | string p text => exact .string (hR p) text
  | bool p value => exact .bool (hR p) value
  | var p name => exact .var (hR p) name
  | unary p op operand => exact .unary (hR p) op (ih _ List.mem_cons_self)
  | binary p op left right =>
    exact .binary (hR p) op (ih _ List.mem_cons_self)
      (ih _ (List.mem_cons_of_mem _ List.mem_cons_self))
  | call p name args => exact .call (hR p) name (all (List.Subset.refl _))
  | methodCall p receiver method args =>
    exact .methodCall (hR p) receiver method (all (List.Subset.refl _))
  | exprMethodCall p receiver method args =>
    exact .exprMethodCall (hR p) (ih _ List.mem_cons_self) method (all (List.subset_cons_self ..))
  | assign p name value => exact .assign (hR p) name (ih _ List.mem_cons_self)
  | fnDecl p name params body => exact .fnDecl (hR p) name params (all (List.Subset.refl _))
  | ret p value => exact .ret (hR p) (ih _ List.mem_cons_self)
  | cond p test thenBody elseBody =>
    have hthen : thenBody ⊆ (cond p test thenBody elseBody).children :=
      fun m hm => List.mem_cons_of_mem _ (List.mem_append_left _ hm)
    refine .cond (hR p) (ih _ List.mem_cons_self) (all hthen) ?_
    cases elseBody with
    | none => exact .none
    | some body =>
      exact .some (all fun m hm => List.mem_cons_of_mem _ (List.mem_append_right _ hm))
  | whileLoop p test body =>
    exact .whileLoop (hR p) (ih _ List.mem_cons_self) (all (List.subset_cons_self ..))
  | forLoop p x low high body =>
    exact .forLoop (hR p) x (ih _ List.mem_cons_self)
      (ih _ (List.mem_cons_of_mem _ List.mem_cons_self))
      (all fun m hm => List.mem_cons_of_mem _ (List.mem_cons_of_mem _ hm))
  | block p body => exact .block (hR p) (all (List.Subset.refl _))
  | unknown p sort expr => exact .unknown (hR p) sort expr

theorem aligned_list_refl (hR : ∀ p, R p p) (ns : List Node) : List.Forall₂ (Aligned R) ns ns :=
  List.forall₂_same.mpr fun n _ => aligned_refl hR n

theorem eq_of_forall₂_aligned {ns ms : List Node} (h : List.Forall₂ (Aligned Eq) ns ms)
    (ih : ∀ n ∈ ns, ∀ m, n.Aligned Eq m → n = m) : ns = ms := by
  induction h with
  | nil => rfl
  | cons hn _ ihs =>
    rw [ih _ List.mem_cons_self _ hn, ihs fun n hn => ih n (List.mem_cons_of_mem _ hn)]

/-- Nothing but positions is left open. -/
theorem Aligned.eq {n m : Node} (h : n.Aligned Eq m) : n = m := by
  induction n using childInduction generalizing m with
  | step n ih =>
  have all {ns ms : List Node} (h : List.Forall₂ (Aligned Eq) ns ms) (hs : ns ⊆ n.children) :
      ns = ms := eq_of_forall₂_aligned h fun k hk _ hm => ih k (hs hk) hm
  cases h with
  | int hp | float hp | string hp | bool hp | var hp | unknown hp => rw [hp]
  | unary hp op ha => rw [hp, ih _ List.mem_cons_self ha]
  | binary hp op ha hc =>
    rw [hp, ih _ List.mem_cons_self ha, ih _ (List.mem_cons_of_mem _ List.mem_cons_self) hc]
  | call hp name ha => rw [hp, all ha (List.Subset.refl _)]
  | methodCall hp receiver method ha => rw [hp, all ha (List.Subset.refl _)]
  | exprMethodCall hp hr method ha =>
    rw [hp, ih _ List.mem_cons_self hr, all ha (List.subset_cons_self ..)]
  | assign hp name ha => rw [hp, ih _ List.mem_cons_self ha]
  | fnDecl hp name params hb => rw [hp, all hb (List.Subset.refl _)]
  | ret hp ha => rw [hp, ih _ List.mem_cons_self ha]
  | cond hp ht hb he =>
    rw [hp, ih _ List.mem_cons_self ht,
      all hb (fun k hk => List.mem_cons_of_mem _ (List.mem_append_left _ hk))]
    cases he with
    | none => rfl
    | some he => rw [all he (fun k hk => List.mem_cons_of_mem _ (List.mem_append_right _ hk))]
  | whileLoop hp ht hb =>
    rw [hp, ih _ List.mem_cons_self ht, all hb (List.subset_cons_self ..)]
  | forLoop hp x hl hh hb =>
    rw [hp, ih _ List.mem_cons_self hl, ih _ (List.mem_cons_of_mem _ List.mem_cons_self) hh,
      all hb (fun k hk => List.mem_cons_of_mem _ (List.mem_cons_of_mem _ hk))]
  | block hp hb => rw [hp, all hb (List.Subset.refl _)]

end Node

structure UserFunction.Aligned (R : Pos → Pos → Prop) (f g : UserFunction) : Prop where
  name : f.name = g.name
  params : f.params = g.params
  body : List.Forall₂ (Node.Aligned R) f.body g.body

theorem UserFunction.Aligned.eq {f g : UserFunction} (h : f.Aligned Eq g) : f = g := by
  cases f with
  | mk name params body =>
    cases g with
    | mk name' params' body' =>
      cases h.name
      cases h.params
      have hb : body = body' := Node.eq_of_forall₂_aligned h.body fun n _ m hn => hn.eq
      rw [hb]

namespace Eval

variable {R : Pos → Pos → Prop} {env env' : Env}

/-- What a relation between evaluations under two environments has to be closed under. -/
structure Congruence (R : Pos → Pos → Prop) (env env' : Env)
    (rel : ∀ {α : Type}, Eval α → Eval α → Prop) : Prop extends StepClosed R env env' rel where
  declare : ∀ {f g}, f.Aligned R g → rel (declare f) (declare g)
  /-- A function of the program is looked up. -/
  callee : ∀ name {k k' : UserFunction → Eval Unit} {z z' : Eval Unit},
    (∀ f g, f.Aligned R g → rel (k f) (k' g)) → rel z z' →
      rel (do match (← get).functions.find? name with | some f => k f | none => z)
        (do match (← get).functions.find? name with | some f => k' f | none => z')

/-- Every rule is related to itself on aligned trees. -/
abbrev Congruent (R : Pos → Pos → Prop) (env env' : Env)
    (rel : ∀ {α : Type}, Eval α → Eval α → Prop) (frames frames' : Nat) : Prop :=
  RulesRelated R (Node.Aligned R) (List.Forall₂ (Node.Aligned R)) env env' rel frames frames'

variable {rel : ∀ {α : Type}, Eval α → Eval α → Prop} {frames frames' : Nat}

/-- Aligned statement lists agree statement by statement. -/
theorem Congruence.ruleClosed (h : Congruence R env env' rel) :
    RuleClosed R (Node.Aligned R) (List.Forall₂ (Node.Aligned R)) env env' rel where
  toStepClosed := h.toStepClosed
  layer hn := hn.layer
  declare hf := h.declare ⟨hf.name, hf.params, hf.body⟩
  callee name _ _ _ _ hk hz := h.callee name (fun f g hf => hk f g ⟨hf.name, hf.params, hf.body⟩) hz
  statements hexec _ _ hb := h.forM hexec hb

/-- With one frame more on either side. -/
theorem Congruent.succ (h : Congruence R env env' rel)
    (ih : Congruent R env env' rel frames frames') :
    Congruent R env env' rel (frames + 1) (frames' + 1) :=
  h.ruleClosed.succ ih

theorem Congruence.congruent (h : Congruence R env env' rel) (frames : Nat) :
    Congruent R env env' rel frames frames :=
  h.ruleClosed.rules frames

end Eval

end ExScript
