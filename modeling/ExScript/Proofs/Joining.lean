import ExScript.Proofs.Grammar
import ExScript.Proofs.ParserSteps
import ExScript.Proofs.Spelling

/-!
# Statements that join

The grammar lets a statement end where the next token could just as well go on with it: a sign may
begin an expression and may stand between operands, and a parenthesis may begin an expression and
may follow the name of a function.  In these cases the two statements are derived as a single one as
well (`Tiered.join`).  This is seen on chains, that is, unary expressions with operators between
them, of which every one is derived as an expression (`Chain.expression`).
-/

namespace ExScript.Grammar

open ExScript.Parser (Tier kindOf)

def IsSign (t : Token) : Prop := ∃ s op, (s, op) ∈ signs ∧ Is s t

def IsOperator (t : Token) : Prop := ∃ tier s op, (s, op) ∈ operators tier ∧ Is s t

/-- Unary expressions with operators between them. -/
inductive Chain : List Token → List Token → Prop
  | operand {ts n rest} (h : Unary ts n rest) : Chain ts rest
  | step {ts n t mid rest} (h : Unary ts n (t :: mid)) (ht : IsOperator t) (hs : Chain mid rest) :
    Chain ts rest

variable {ts mid rest : List Token} {t : Token} {n m : Node} {tier : Tier}

/-! ## Names in front of the rest -/

def EndsInName (ts rest : List Token) : Prop := ∃ name pos, ⟨.name name, pos⟩ :: rest <:+ ts

theorem EndsInName.mono (h : EndsInName mid rest) (hs : mid <:+ ts) : EndsInName ts rest := by
  obtain ⟨name, pos, h⟩ := h
  exact ⟨name, pos, h.trans hs⟩

/-- Only one token is the last one in front of the rest. -/
theorem EndsInName.last (h : EndsInName ts rest) (hs : t :: rest <:+ ts) :
    ∃ name pos, t = ⟨.name name, pos⟩ := by
  obtain ⟨name, pos, h⟩ := h
  have heq := List.suffix_of_suffix_length_le hs h (Nat.le_refl _) |>.eq_of_length rfl
  exact ⟨name, pos, (List.cons.inj heq).1⟩

theorem EndsInName.within (h : EndsInName ts rest) (hs : mid <:+ ts) (hp : Past mid rest) :
    EndsInName mid rest := by
  obtain ⟨name, pos, h⟩ := h
  exact ⟨name, pos, List.suffix_of_suffix_length_le h hs hp.shorter⟩

theorem not_endsInName_of_closeParen (ht : Is .closeParen t) (hs : t :: rest <:+ ts) :
    ¬ EndsInName ts rest := by
  intro h
  obtain ⟨name, pos, rfl⟩ := h.last hs
  cases ht

/-! ## Chains of operands -/

theorem Chain.past (h : Chain ts rest) : Past ts rest := by
  induction h with
  | operand h => exact h.past
  | step h _ _ ih => exact h.past.trans_suffix (ih.suffix.trans (List.suffix_cons ..))

theorem Chain.append (h : Chain ts (t :: mid)) (ht : IsOperator t) (hs : Chain mid rest) :
    Chain ts rest := by
  generalize hafter : t :: mid = after at h
  induction h with
  | operand h =>
    subst hafter
    exact .step h ht hs
  | step h hop _ ih => exact .step h hop (ih hafter)

mutual

theorem Tiered.chain : ∀ {tier ts n rest}, Tiered tier ts n rest → Chain ts rest
  | _, _, _, _, .operand h => h.chain
  | _, _, _, _, .binary ha ho ht hb => ha.chain.append ⟨_, _, _, ho, ht⟩ hb.chain

theorem Operand.chain : ∀ {tier ts n rest}, Operand tier ts n rest → Chain ts rest
  | _, _, _, _, .comparison h => h.chain
  | _, _, _, _, .sum h => h.chain
  | _, _, _, _, .product h => h.chain
  | _, _, _, _, .unary h => .operand h

end

theorem Unary.operand (h : Unary ts n rest) (tier : Tier) : Operand tier ts n rest := by
  have product : Operand .sum ts n rest := .product (.operand (.unary h))
  cases tier with
  | equality => exact .comparison (.operand (.sum (.operand product)))
  | comparison => exact .sum (.operand product)
  | sum => exact product
  | product => exact .unary h

mutual

/-- An operand and an operator that binds as tightly go in front of a phrase. -/
theorem Tiered.prepend {ts u t mid s op tier'} (hu : Unary ts u (t :: mid))
    (ho : (s, op) ∈ operators tier') (ht : Is s t) : ∀ {tier n rest}, Tiered tier mid n rest →
      tier.level ≤ tier'.level → ∃ m, Tiered tier ts m rest
  | tier, n, rest, .operand h, hle => by
    rcases Nat.eq_or_lt_of_le hle with heq | hlt
    · have htier : tier = tier' := by
        cases tier <;> cases tier' <;> first | rfl | cases heq
      subst htier
      exact ⟨_, .binary (.operand (hu.operand tier)) ho ht h⟩
    · obtain ⟨m, hm⟩ := h.prepend hu ho ht hlt
      exact ⟨m, .operand hm⟩
  | _, _, _, .binary ha hop ht' hb, hle => by
    obtain ⟨m, hm⟩ := ha.prepend hu ho ht hle
    exact ⟨_, .binary hm hop ht' hb⟩

theorem Operand.prepend {ts u t mid s op tier'} (hu : Unary ts u (t :: mid))
    (ho : (s, op) ∈ operators tier') (ht : Is s t) : ∀ {tier n rest}, Operand tier mid n rest →
      tier.level < tier'.level → ∃ m, Operand tier ts m rest
  | _, _, _, .comparison h, hlt => by
    obtain ⟨m, hm⟩ := h.prepend hu ho ht hlt
    exact ⟨m, .comparison hm⟩
  | _, _, _, .sum h, hlt => by
    obtain ⟨m, hm⟩ := h.prepend hu ho ht hlt
    exact ⟨m, .sum hm⟩
  | _, _, _, .product h, hlt => by
    obtain ⟨m, hm⟩ := h.prepend hu ho ht hlt
    exact ⟨m, .product hm⟩
  | _, _, _, .unary h, hlt => by
    cases tier' <;> exact absurd hlt (by decide)

end

theorem Chain.expression (h : Chain ts rest) : ∃ n, Expression ts n rest := by
  induction h with
  | operand h => exact ⟨_, .operand (h.operand .equality)⟩
  | @step ts u t mid rest h ht _ ih =>
    obtain ⟨n, hn⟩ := ih
    obtain ⟨tier', s, op, ho, hs⟩ := ht
    have hle : Tier.equality.level ≤ tier'.level := by cases tier' <;> decide
    exact hn.prepend h ho hs hle

/-! ## First tokens -/

theorem Is.kindOf {s : Symbol} (h : Is s t) (ts : List Token) :
    kindOf (t :: ts) = .mark (.symbol s) := h

theorem Primary.begins (h : Primary ts n rest) : (kindOf ts).beginsPrimary = true := by
  cases h with
  | int | float | string | call | var => rfl
  | trueWord ht => exact congrArg Kind.beginsPrimary ht
  | falseWord ht => exact congrArg Kind.beginsPrimary ht
  | parens ho _ _ => exact congrArg Kind.beginsPrimary ho

theorem Postfixed.begins : ∀ {ts n rest}, Postfixed ts n rest → (kindOf ts).beginsPrimary = true
  | _, _, _, .method hr _ _ _ _ _ => hr.begins
  | _, _, _, .variableMethod _ _ _ _ => rfl
  | _, _, _, .primary h => h.begins

theorem IsSign.kind (h : IsSign t) :
    t.kind = .mark (.symbol .plus) ∨ t.kind = .mark (.symbol .minus) := by
  obtain ⟨s, op, hs, ht⟩ := h
  simp only [signs, List.mem_cons, Prod.mk.injEq, List.not_mem_nil, or_false] at hs
  rcases hs with ⟨rfl, -⟩ | ⟨rfl, -⟩
  · exact .inl ht
  · exact .inr ht

theorem IsSign.beginsExpr (h : IsSign t) : t.kind.beginsExpr = true := by
  rcases h.kind with ht | ht <;> rw [ht] <;> rfl

theorem Unary.begins (h : Unary ts n rest) : (kindOf ts).beginsExpr = true := by
  cases h with
  | sign ho ht _ => exact IsSign.beginsExpr ⟨_, _, ho, ht⟩
  | plain h => exact Kind.beginsExpr_of_beginsPrimary h.begins

theorem Chain.begins (h : Chain ts rest) : (kindOf ts).beginsExpr = true := by
  cases h with
  | operand h => exact h.begins
  | step h _ _ => exact h.begins

theorem Tiered.begins (h : Tiered tier ts n rest) : (kindOf ts).beginsExpr = true := h.chain.begins

/-! ## A sign goes on as an operator -/

theorem IsSign.isOperator (h : IsSign t) : IsOperator t := by
  rcases h.kind with ht | ht
  · exact ⟨.sum, .plus, .add, by decide, ht⟩
  · exact ⟨.sum, .minus, .sub, by decide, ht⟩

theorem IsSign.not_beginsPrimary (h : IsSign t) : t.kind.beginsPrimary ≠ true := by
  rcases h.kind with ht | ht <;> rw [ht] <;> decide

theorem Unary.afterSign (h : Unary (t :: mid) n rest) (ht : IsSign t) : ∃ m, Unary mid m rest := by
  cases h with
  | sign _ _ h => exact ⟨_, h⟩
  | plain h => exact absurd h.begins ht.not_beginsPrimary

theorem Chain.afterSign (h : Chain (t :: mid) rest) (ht : IsSign t) : Chain mid rest := by
  cases h with
  | operand h =>
    obtain ⟨m, hm⟩ := h.afterSign ht
    exact .operand hm
  | step h hop hs =>
    obtain ⟨m, hm⟩ := h.afterSign ht
    exact .step hm hop hs

/-! ## A name goes on as a call -/

theorem Postfixed.bareName (h : Postfixed ts n rest) (he : EndsInName ts rest) :
    BareName ts rest := by
  cases h with
  | primary h =>
    cases h with
    | var => exact ⟨_, _, rfl⟩
    | call _ ha hc =>
      refine absurd he (not_endsInName_of_closeParen hc (ha.suffix.trans ?_))
      exact List.suffix_append [_, _] _
    | parens _ h hc =>
      exact absurd he (not_endsInName_of_closeParen hc (h.past.suffix.trans (List.suffix_cons ..)))
    | int | float | string =>
      obtain ⟨_, _, hname⟩ := he.last List.suffix_rfl
      cases hname
    | trueWord ht | falseWord ht =>
      obtain ⟨_, _, rfl⟩ := he.last List.suffix_rfl
      cases ht
  | variableMethod _ _ ha hc =>
    refine absurd he (not_endsInName_of_closeParen hc (ha.suffix.trans ?_))
    exact List.suffix_append [_, _, _, _] _
  | method hr _ _ _ ha hc =>
    refine absurd he (not_endsInName_of_closeParen hc ((ha.suffix.trans ?_).trans hr.past.suffix))
    exact List.suffix_append [_, _, _] _

/-- With a name in front, an expression in parentheses is the argument of a call. -/
theorem Postfixed.called (name : String) (pos : Pos) : ∀ {ts n rest}, Postfixed ts n rest →
    kindOf ts = .mark (.symbol .openParen) → ∃ m, Postfixed (⟨.name name, pos⟩ :: ts) m rest
  | _, _, _, .primary h, hk => by
    cases h with
    | parens ho h hc => exact ⟨_, .primary (.call ho (.some h .nil) hc)⟩
    | int | float | string | var | call => cases hk
    | trueWord ht => cases ht.symm.trans hk
    | falseWord ht => cases ht.symm.trans hk
  | _, _, _, .variableMethod _ _ _ _, hk => by cases hk
  | _, _, _, .method hr _ hd ho ha hc, hk => by
    obtain ⟨m, hm⟩ := hr.called name pos hk
    refine ⟨_, .method hm ?_ hd ho ha hc⟩
    rintro ⟨_, _, heq⟩
    cases heq
    cases hd.symm.trans hk

theorem Unary.joinParen (ht : Is .openParen t) {m : Node} (hm : Unary (t :: mid) m rest) :
    ∀ {ts n}, Unary ts n (t :: mid) → EndsInName ts (t :: mid) → ∃ k, Unary ts k rest
  | _, _, .sign ho hs h, he => by
    obtain ⟨k, hk⟩ := Unary.joinParen ht hm h (he.within (List.suffix_cons ..) h.past)
    exact ⟨_, .sign ho hs hk⟩
  | _, _, .plain h, he => by
    obtain ⟨name, pos, rfl⟩ := h.bareName he
    cases hm with
    | sign ho hs _ =>
      have hsign : IsSign t := ⟨_, _, ho, hs⟩
      exact absurd (congrArg Kind.beginsPrimary ht) hsign.not_beginsPrimary
    | plain hm =>
      obtain ⟨k, hk⟩ := hm.called name pos ht
      exact ⟨k, .plain hk⟩

theorem Chain.joinParen (h : Chain ts (t :: mid)) (ht : Is .openParen t)
    (he : EndsInName ts (t :: mid)) (hs : Chain (t :: mid) rest) : Chain ts rest := by
  generalize hafter : t :: mid = after at h
  induction h with
  | operand h =>
    subst hafter
    cases hs with
    | operand hm =>
      obtain ⟨k, hk⟩ := Unary.joinParen ht hm h he
      exact .operand hk
    | step hm hop hs =>
      obtain ⟨k, hk⟩ := Unary.joinParen ht hm h he
      exact .step hk hop hs
  | step h hop hc ih =>
    subst hafter
    refine .step h hop (ih (he.within ?_ ?_) rfl)
    · exact (List.suffix_cons ..).trans h.past.suffix
    · exact hc.past

/-! ## Joining -/

/-- A token that may begin an expression goes on with the expression in front of it. -/
def GoesOn (ts : List Token) (t : Token) (rest : List Token) : Prop :=
  IsSign t ∨ Is .openParen t ∧ EndsInName ts (t :: rest)

theorem GoesOn.kind (h : GoesOn ts t mid) : t.kind = .mark (.symbol .plus) ∨
    t.kind = .mark (.symbol .minus) ∨ t.kind = .mark (.symbol .openParen) := by
  rcases h with hsign | ⟨hparen, _⟩
  · exact hsign.kind.imp_right .inl
  · exact .inr (.inr hparen)

theorem GoesOn.beginsExpr (h : GoesOn ts t mid) : t.kind.beginsExpr = true := by
  rcases h.kind with ht | ht | ht <;> rw [ht] <;> rfl

theorem Statement.of_goesOn {after : List Token} (h : Statement (t :: mid) n rest)
    (ht : GoesOn ts t after) : Expression (t :: mid) n rest := by
  have hk := ht.kind
  have word {k : Keyword} (hw : IsWord k t) : False := by
    rcases hk with hk | hk | hk <;> cases hw.symm.trans hk
  cases h with
  | expression h => exact h
  | assign => rcases hk with hk | hk | hk <;> cases hk
  | fnDecl hf => exact (word hf).elim
  | whileLoop hw => exact (word hw).elim
  | forLoop hf => exact (word hf).elim
  | ret hr => exact (word hr).elim
  | cond h =>
    cases h with
    | plain hi => exact (word hi).elim
    | elseBlock hi => exact (word hi).elim
    | elseIf hi => exact (word hi).elim

theorem Tiered.join (h : Expression ts n (t :: mid)) (ht : GoesOn ts t mid)
    (hs : Statement (t :: mid) m rest) : ∃ k, Expression ts k rest := by
  have hsecond : Chain (t :: mid) rest := (hs.of_goesOn ht).chain
  rcases ht with hsign | ⟨hparen, hname⟩
  · exact (h.chain.append hsign.isOperator (hsecond.afterSign hsign)).expression
  · exact (h.chain.joinParen hparen hname hsecond).expression

end ExScript.Grammar
