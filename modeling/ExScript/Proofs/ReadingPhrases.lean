import ExScript.Proofs.GrammarSound
import ExScript.Proofs.Joining
import ExScript.Proofs.ReadingExpressions
import Mathlib.Order.Filter.AtTopBot.Basic

/-!
# Derived expressions are read exactly

If the token behind a derived expression cannot go on with it (`Ends`), the parser takes exactly the
tokens of the derivation and returns its tree, with every budget that is large enough (`Reads`).
Chains of operators and of methods are read by a repetition, and what is said of these is how far it
has got at the end of the chain.
-/

namespace ExScript.Parser

open Grammar

variable {α β : Type} {rounds : Nat} {tier : Tier} {ts mid rest : List Token} {t u v : Token}
  {n : Node}

/-! ## Large budgets -/

/-- With every budget from some one on, a parser takes the tokens up to the rest and returns `a`. -/
def Reads (p : Nat → Parser α) (ts : List Token) (a : α) (rest : List Token) : Prop :=
  ∀ᶠ d in Filter.atTop, p d ts = .ok (a, rest)

theorem eventually_of_succ {P : Nat → Prop} (h : ∀ᶠ d in Filter.atTop, P (d + 1)) :
    ∀ᶠ d in Filter.atTop, P d := by
  rw [← Filter.map_add_atTop_eq_nat 1]
  exact h

theorem Reads.of_succ {p : Nat → Parser α} {a : α} (h : Reads (fun d => p (d + 1)) ts a rest) :
    Reads p ts a rest :=
  eventually_of_succ h

theorem Reads.congr {p q : Nat → Parser α} {a : α} {mid : List Token}
    (h : ∀ d, p d ts = q d mid) (hq : Reads q mid a rest) : Reads p ts a rest := by
  filter_upwards [hq] with d hd
  rw [h, hd]

theorem Reads.bind {p : Nat → Parser α} {f : Nat → α → Parser β} {a : α} {b : β}
    (h : Reads p ts a mid) (hf : Reads (fun d => f d a) mid b rest) :
    Reads (fun d => p d >>= f d) ts b rest := by
  filter_upwards [h, hf] with d hd hfd
  exact (bind_of_ok hd _).trans hfd

/-- A step that does not depend on the budget comes first. -/
theorem Reads.after {p : Parser α} {f : Nat → α → Parser β} {a : α} {b : β}
    (h : p ts = .ok (a, mid)) (hf : Reads (fun d => f d a) mid b rest) :
    Reads (fun d => p >>= f d) ts b rest :=
  .bind (p := fun _ => p) (.of_forall fun _ => h) hf

theorem reads_pure (a : α) : Reads (fun _ => pure a) ts a ts := .of_forall fun _ => rfl

/-! ## Where an expression ends -/

/-- The next token is no operator of the level or a tighter one, and no call of a name. -/
structure Ends (level : Nat) (ts rest : List Token) : Prop where
  pull : pull (kindOf rest) < level ∨ kindOf rest = symbolKind .openParen
  noCall : kindOf rest = symbolKind .openParen → ¬ EndsInName ts rest

theorem Ends.mono {level level' : Nat} (h : Ends level ts rest) (hle : level ≤ level') :
    Ends level' ts rest :=
  ⟨h.pull.imp_left fun hp => Nat.lt_of_lt_of_le hp hle, h.noCall⟩

theorem Ends.within {level : Nat} (h : Ends level ts rest) (hs : mid <:+ ts) :
    Ends level mid rest :=
  ⟨h.pull, fun hk he => h.noCall hk (he.mono hs)⟩

theorem Ends.operator? (h : Ends tier.level ts rest) : tier.operator? (kindOf rest) = none := by
  rcases h.pull with hp | hk
  · exact operator?_of_pull_lt hp
  · rw [hk]
    cases tier <;> rfl

theorem Ends.not_dot (h : Ends 6 ts rest) : kindOf rest ≠ symbolKind .dot := by
  rcases h.pull with hp | hk
  · exact not_dot_of_pull_lt hp
  · rw [hk]
    decide

/-- In front of a token that goes on with no expression. -/
theorem ends_of_pull {level : Nat} (h : pull (kindOf rest) < level) (h8 : level ≤ 8) :
    Ends level ts rest := by
  refine ⟨.inl h, fun hk => ?_⟩
  rw [hk] at h
  exact absurd h (Nat.not_lt.mpr h8)

theorem ends_of_symbol {s : Symbol} {level : Nat} (ht : Is s t)
    (h : pull (symbolKind s) < level) (h8 : level ≤ 8) : Ends level ts (t :: rest) := by
  exact ends_of_pull (by rwa [ht.kindOf]) h8

theorem operator?_of_mem {s : Symbol} {op : BinaryOp} (h : (s, op) ∈ operators tier) :
    tier.operator? (symbolKind s) = some op ∧ pull (symbolKind s) = tier.level := by
  cases tier <;>
    simp only [operators, List.mem_cons, Prod.mk.injEq, List.not_mem_nil, or_false] at h
  case comparison =>
    rcases h with ⟨rfl, rfl⟩ | ⟨rfl, rfl⟩ | ⟨rfl, rfl⟩ | ⟨rfl, rfl⟩ <;> exact ⟨rfl, rfl⟩
  all_goals rcases h with ⟨rfl, rfl⟩ | ⟨rfl, rfl⟩ <;> exact ⟨rfl, rfl⟩

theorem sign?_of_mem {s : Symbol} {op : UnaryOp} (h : (s, op) ∈ signs) :
    sign? (symbolKind s) = some op := by
  simp only [signs, List.mem_cons, Prod.mk.injEq, List.not_mem_nil, or_false] at h
  rcases h with ⟨rfl, rfl⟩ | ⟨rfl, rfl⟩ <;> rfl

/-! ## Single steps -/

theorem expectSymbol_of_is {s : Symbol} (ht : Is s t) :
    expectSymbol s (t :: rest) = .ok ((), rest) :=
  expectSymbol_ok.mpr ⟨ht, rfl⟩

theorem expectKeyword_of_is {k : Keyword} (ht : IsWord k t) :
    expectKeyword k (t :: rest) = .ok ((), rest) :=
  expectKeyword_ok.mpr ⟨ht, rfl⟩

theorem expectName_cons (expected : Expected) (name : String) (pos : Pos) :
    expectName expected (⟨.name name, pos⟩ :: rest) = .ok (name, rest) := rfl

theorem methodsOf_next {args : Parser (List Node)} {given : List Node} (fuel : Nat) (bare : Bool)
    (receiver : Node) {name : String} {pos : Pos} (ht : Is .dot t) (hu : Is .openParen u)
    (ha : args mid = .ok (given, v :: rest)) (hv : Is .closeParen v) :
    methodsOf args (fuel + 1) bare receiver (t :: ⟨.name name, pos⟩ :: u :: mid) =
      methodsOf args fuel false (methodOn bare receiver name given) rest := by
  rw [methodsOf]
  refine (bind_of_ok (nextKind_apply ..) _).trans ?_
  rw [if_pos (by exact ht)]
  refine (bind_of_ok (advance_apply (symbol_ne_end (ht.kindOf _))) _).trans ?_
  refine (bind_of_ok (expectName_ok.mpr ⟨_, rfl⟩) _).trans ?_
  refine (bind_of_ok (expectSymbol_of_is hu) _).trans ?_
  refine (bind_of_ok ha _).trans ?_
  exact bind_of_ok (expectSymbol_of_is hv) _

/-! ## Chains -/

/-- The repetition of a tier has got to the rest, with `n` on its left and rounds to spare. -/
def OperatorsReach (rounds : Nat) (tier : Tier) (ts : List Token) (n : Node) (rest : List Token) :
    Prop :=
  ∃ fuel, rest.length < fuel ∧ ∀ᶠ d in Filter.atTop, tiered rounds (d + 1) tier ts =
    operatorsOf tier.operator? (ruleAt rounds d (tier.level + 1)) fuel n rest

theorem OperatorsReach.start (hl : rest.length < rounds)
    (h : Reads (fun d => ruleAt rounds d (tier.level + 1)) ts n rest) :
    OperatorsReach rounds tier ts n rest := by
  refine ⟨rounds, hl, ?_⟩
  filter_upwards [h] with d hd
  rw [tiered_succ]
  exact bind_of_ok hd _

theorem OperatorsReach.step {left right : Node} {s : Symbol} {op : BinaryOp}
    (h : OperatorsReach rounds tier ts left (t :: mid)) (ho : (s, op) ∈ operators tier)
    (ht : Is s t) (hl : rest.length ≤ mid.length)
    (hr : Reads (fun d => ruleAt rounds d (tier.level + 1)) mid right rest) :
    OperatorsReach rounds tier ts (.binary left.pos op left right) rest := by
  obtain ⟨fuel, hfuel, hrun⟩ := h
  simp only [List.length_cons] at hfuel
  obtain ⟨fuel, rfl⟩ := Nat.exists_eq_succ_of_ne_zero (Nat.ne_zero_of_lt hfuel)
  refine ⟨fuel, by omega, ?_⟩
  have hoperator : tier.operator? (kindOf (t :: mid)) = some op := by
    rw [ht.kindOf]
    exact (operator?_of_mem ho).1
  filter_upwards [hrun, hr] with d hrun hr
  exact hrun.trans (operatorsOf_step hoperator hr)

theorem OperatorsReach.reads (h : OperatorsReach rounds tier ts n rest)
    (he : Ends tier.level ts rest) : Reads (fun d => tiered rounds d tier) ts n rest := by
  obtain ⟨fuel, _, hrun⟩ := h
  refine .of_succ ?_
  filter_upwards [hrun] with d hrun
  exact hrun.trans (operatorsOf_stop _ _ _ he.operator?)

/-- The repetition of methods has got to the rest. -/
def MethodsReach (rounds : Nat) (ts : List Token) (bare : Bool) (n : Node) (rest : List Token) :
    Prop :=
  ∃ fuel, rest.length < fuel ∧ ∀ᶠ d in Filter.atTop, postfixed rounds (d + 1) ts =
    methodsOf (arguments rounds d) fuel bare n rest

theorem MethodsReach.start (hl : rest.length < rounds)
    (h : Reads (fun d => primary rounds d) ts n rest) :
    MethodsReach rounds ts (kindOf ts = .name && kindOf ts.tail != symbolKind .openParen) n
      rest := by
  refine ⟨rounds, hl, ?_⟩
  filter_upwards [h] with d hd
  exact postfixed_of_primary hd

theorem MethodsReach.step {bare : Bool} {name : String} {pos : Pos} {args : List Node}
    (h : MethodsReach rounds ts bare n (t :: ⟨.name name, pos⟩ :: u :: mid)) (ht : Is .dot t)
    (hu : Is .openParen u) (hl : rest.length ≤ mid.length)
    (ha : Reads (fun d => arguments rounds d) mid args (v :: rest)) (hv : Is .closeParen v) :
    MethodsReach rounds ts false (methodOn bare n name args) rest := by
  obtain ⟨fuel, hfuel, hrun⟩ := h
  simp only [List.length_cons] at hfuel
  obtain ⟨fuel, rfl⟩ := Nat.exists_eq_succ_of_ne_zero (Nat.ne_zero_of_lt hfuel)
  refine ⟨fuel, by omega, ?_⟩
  filter_upwards [hrun, ha] with d hrun ha
  exact hrun.trans (methodsOf_next fuel bare n ht hu ha hv)

theorem MethodsReach.reads {bare : Bool} (h : MethodsReach rounds ts bare n rest)
    (he : kindOf rest ≠ symbolKind .dot) : Reads (fun d => postfixed rounds d) ts n rest := by
  obtain ⟨fuel, _, hrun⟩ := h
  refine .of_succ ?_
  filter_upwards [hrun] with d hrun
  exact hrun.trans (methodsOf_stop _ _ _ _ he)

/-! ## Rules -/

theorem unary_reads_sign {s : Symbol} {op : UnaryOp} (ho : (s, op) ∈ signs) (ht : Is s t)
    (h : Reads (fun d => unary rounds d) ts n rest) :
    Reads (fun d => unary rounds d) (t :: ts) (.unary t.pos op n) rest := by
  have hsign : sign? (kindOf (t :: ts)) = some op := by
    rw [ht.kindOf]
    exact sign?_of_mem ho
  refine .of_succ (.after (nextKind_apply ..) ?_)
  simp only [hsign]
  have hne := symbol_ne_end (ht.kindOf ts)
  exact .after rfl (.after (advance_apply hne) (.bind h (reads_pure _)))

theorem unary_reads_plain (hb : (kindOf ts).beginsPrimary = true)
    (h : Reads (fun d => postfixed rounds d) ts n rest) :
    Reads (fun d => unary rounds d) ts n rest := by
  refine .of_succ (.after (nextKind_apply ..) ?_)
  simp only [sign?_of_beginsPrimary hb]
  exact h

theorem primary_reads_trueWord (ht : IsWord .trueWord t) :
    Reads (fun d => primary rounds d) (t :: rest) (.bool t.pos true) rest := by
  obtain ⟨lexeme, pos⟩ := t
  cases lexeme with
  | mark m text =>
    cases ht
    exact .of_succ (.of_forall fun _ => rfl)
  | _ => cases ht

theorem primary_reads_falseWord (ht : IsWord .falseWord t) :
    Reads (fun d => primary rounds d) (t :: rest) (.bool t.pos false) rest := by
  obtain ⟨lexeme, pos⟩ := t
  cases lexeme with
  | mark m text =>
    cases ht
    exact .of_succ (.of_forall fun _ => rfl)
  | _ => cases ht

theorem primary_reads_var {name : String} {pos : Pos}
    (h : kindOf rest ≠ symbolKind .openParen) :
    Reads (fun d => primary rounds d) (⟨.name name, pos⟩ :: rest) (.var pos name) rest := by
  refine .of_succ (.after rfl (.after rfl ?_))
  simp only [if_neg h]
  exact reads_pure _

theorem primary_reads_call {name : String} {pos : Pos} {args : List Node} (ht : Is .openParen t)
    (h : Reads (fun d => arguments rounds d) ts args (u :: rest)) (hu : Is .closeParen u) :
    Reads (fun d => primary rounds d) (⟨.name name, pos⟩ :: t :: ts) (.call pos name args)
      rest := by
  have hkind : kindOf (t :: ts) = symbolKind .openParen := ht
  refine .of_succ (.after rfl (.after rfl ?_))
  simp only [if_pos hkind]
  refine .after (advance_apply (symbol_ne_end hkind)) (.bind h ?_)
  exact .after (expectSymbol_of_is hu) (reads_pure _)

theorem primary_reads_parens (ht : Is .openParen t)
    (h : Reads (fun d => expression rounds d) ts n (u :: rest)) (hu : Is .closeParen u) :
    Reads (fun d => primary rounds d) (t :: ts) n rest := by
  obtain ⟨lexeme, pos⟩ := t
  cases lexeme with
  | mark m text =>
    cases ht
    refine .of_succ (.after rfl (.after rfl (.bind h ?_)))
    exact .after (expectSymbol_of_is hu) (reads_pure _)
  | _ => cases ht

theorem OperatorsReach.expression (h : OperatorsReach rounds .equality ts n rest)
    (he : Ends 1 ts rest) : Reads (fun d => expression rounds d) ts n rest :=
  .of_succ (h.reads he)

theorem argument_reads (hb : (kindOf ts).beginsExpr = true)
    (h : Reads (fun d => expression rounds d) ts n rest) :
    Reads (fun d => argument rounds d) ts n rest := by
  refine .of_succ (.after (nextKind_apply ..) ?_)
  simp only [endsArgument_of_begins hb, Bool.false_eq_true, if_false]
  exact h

theorem arguments_reads_none (hk : kindOf ts = symbolKind .closeParen) :
    Reads (fun d => arguments rounds d) ts [] ts := by
  refine .of_succ (.after (nextKind_apply ..) ?_)
  simp only [if_pos hk]
  exact reads_pure _

theorem arguments_reads_some {as : List Node} (hb : (kindOf ts).beginsExpr = true)
    (h : Reads (fun d => argument rounds d) ts n mid)
    (hs : Reads (fun d => commaSeparated (argument rounds d) rounds [n]) mid as rest) :
    Reads (fun d => arguments rounds d) ts as rest := by
  refine .of_succ (.after (nextKind_apply ..) ?_)
  simp only [if_neg (not_closeParen_of_begins hb)]
  exact .bind h hs

theorem commaSeparated_reads_nil {p : Nat → Parser α} (fuel : Nat) (items : List α)
    (hk : kindOf ts = symbolKind .closeParen) :
    Reads (fun d => commaSeparated (p d) fuel items) ts items.reverse ts := by
  cases fuel with
  | zero => exact reads_pure _
  | succ fuel =>
    have hcomma : kindOf ts ≠ symbolKind .comma := by
      rw [hk]
      decide
    refine .after (nextKind_apply ..) ?_
    simp only [if_neg hcomma]
    exact reads_pure _

theorem commaSeparated_reads_cons {p : Nat → Parser α} {fuel : Nat} {items as : List α} {a : α}
    (ht : Is .comma t) (h : Reads p ts a mid)
    (hs : Reads (fun d => commaSeparated (p d) fuel (a :: items)) mid as rest) :
    Reads (fun d => commaSeparated (p d) (fuel + 1) items) (t :: ts) as rest := by
  have hcomma : kindOf (t :: ts) = symbolKind .comma := ht
  refine .after (nextKind_apply ..) ?_
  simp only [if_pos hcomma]
  exact .after (advance_apply (symbol_ne_end hcomma)) (.bind h hs)

theorem MethodsReach.method {bare : Bool} {name : String} {pos : Pos} {args : List Node}
    (h : MethodsReach rounds ts bare n (t :: ⟨.name name, pos⟩ :: u :: mid))
    (hr : Receiver ts bare n (t :: ⟨.name name, pos⟩ :: u :: mid)) (ht : Is .dot t)
    (hu : Is .openParen u) (ha : Arguments mid args (v :: rest)) (hv : Is .closeParen v)
    (hargs : Reads (fun d => arguments rounds d) mid args (v :: rest)) :
    MethodsReach rounds ts false (methodOn bare n name args) rest ∧
      Receiver ts false (methodOn bare n name args) rest :=
  ⟨h.step ht hu (suffix_of_cons ha.suffix).length_le hargs hv, hr.method ht hu ha hv⟩

end ExScript.Parser

open ExScript.Parser

namespace ExScript.Grammar

variable {rounds : Nat} {ts mid rest : List Token} {ns : List Node}

/-! ## Phrases -/

theorem MoreArguments.ends (h : MoreArguments mid ns rest)
    (hk : kindOf rest = symbolKind .closeParen) : Ends 1 ts mid := by
  cases h with
  | nil => exact ends_of_pull (by rw [hk]; decide) (by decide)
  | cons ht _ _ => exact ends_of_symbol ht (by decide) (by decide)

mutual

theorem Tiered.reach : ∀ {tier ts n rest}, Tiered tier ts n rest → ts.length < rounds →
    Ends (tier.level + 1) ts rest → OperatorsReach rounds tier ts n rest
  | _, _, _, _, .operand h, hl, he =>
    .start (Nat.lt_trans h.past.shorter hl) (h.reads hl he)
  | tier, ts, _, _, @Tiered.binary _ _ _ t mid _ _ _ _ ha ho ht hb, hl, he => by
    have hsuffix : mid <:+ ts := (List.suffix_cons t mid).trans ha.past.suffix
    have hafter : Ends (tier.level + 1) ts (t :: mid) := by
      refine ends_of_symbol ht (Nat.lt_succ_of_le (Nat.le_of_eq (operator?_of_mem ho).2)) ?_
      cases tier <;> decide
    refine (ha.reach hl hafter).step ho ht (Nat.le_of_lt hb.past.shorter) ?_
    exact hb.reads (Nat.lt_of_le_of_lt hsuffix.length_le hl) (he.within hsuffix)

theorem Operand.reads : ∀ {tier ts n rest}, Operand tier ts n rest → ts.length < rounds →
    Ends (tier.level + 1) ts rest → Reads (fun d => ruleAt rounds d (tier.level + 1)) ts n rest
  | _, _, _, _, .comparison h, hl, he => (h.reach hl (he.mono (by decide))).reads he
  | _, _, _, _, .sum h, hl, he => (h.reach hl (he.mono (by decide))).reads he
  | _, _, _, _, .product h, hl, he => (h.reach hl (he.mono (by decide))).reads he
  | _, _, _, _, .unary h, hl, he => h.reads hl he

theorem Unary.reads : ∀ {ts n rest}, Unary ts n rest → ts.length < rounds → Ends 5 ts rest →
    Reads (fun d => unary rounds d) ts n rest
  | _, _, _, .sign ho ht h, hl, he =>
    unary_reads_sign ho ht (h.reads (Nat.lt_of_succ_lt hl) (he.within (List.suffix_cons ..)))
  | _, _, _, .plain h, hl, he => by
    obtain ⟨bare, hreach, _⟩ := h.reach hl (he.mono (by decide))
    exact unary_reads_plain h.begins (hreach.reads (he.mono (by decide)).not_dot)

theorem Postfixed.reach : ∀ {ts n rest}, Postfixed ts n rest → ts.length < rounds →
    Ends 7 ts rest → ∃ bare, MethodsReach rounds ts bare n rest ∧ Receiver ts bare n rest
  | _, _, _, .primary h, hl, he =>
    ⟨_, .start (Nat.lt_trans h.past.shorter hl) (h.reads hl he), receiver_of_primary h⟩
  | _, _, _, @Postfixed.variableMethod x p t m q u mid args v rest hd ho ha hc, hl, he => by
    have hk := hd.kindOf (⟨.name m, q⟩ :: u :: mid)
    have hvar : Reads (fun d => primary rounds d)
        (⟨.name x, p⟩ :: t :: ⟨.name m, q⟩ :: u :: mid) (.var p x) _ :=
      primary_reads_var (by rw [hk]; decide)
    have hrec := receiver_of_primary (@Primary.var x p (t :: ⟨.name m, q⟩ :: u :: mid))
    obtain ⟨hbare, -⟩ := hrec.onName rfl hk
    simp only [List.length_cons] at hl
    have hargs := ha.reads (show mid.length < rounds by omega) hc
    have hstart := MethodsReach.start (by simp only [List.length_cons]; omega) hvar
    rw [hbare] at hrec hstart
    exact ⟨false, hstart.method hrec hd ho ha hc hargs⟩
  | ts, _, _, @Postfixed.method _ _ _ _ _ _ mid _ _ _ hr hn hd ho ha hc, hl, he => by
    have hmid : mid <:+ ts := (List.suffix_append [_, _, _] _).trans hr.past.suffix
    obtain ⟨bare, hreach, hrec⟩ := hr.reach hl (ends_of_symbol hd (by decide) (by decide))
    have hargs := ha.reads (Nat.lt_of_le_of_lt hmid.length_le hl) hc
    rw [← hrec.onValue hn]
    exact ⟨false, hreach.method hrec hd ho ha hc hargs⟩

theorem Primary.reads : ∀ {ts n rest}, Primary ts n rest → ts.length < rounds → Ends 7 ts rest →
    Reads (fun d => primary rounds d) ts n rest
  | _, _, _, .int, _, _ | _, _, _, .float, _, _ | _, _, _, .string, _, _ =>
    .of_succ (.of_forall fun _ => rfl)
  | _, _, _, .trueWord ht, _, _ => primary_reads_trueWord ht
  | _, _, _, .falseWord ht, _, _ => primary_reads_falseWord ht
  | _, _, _, .call ho ha hc, hl, _ =>
    primary_reads_call ho (ha.reads (Nat.lt_of_succ_lt (Nat.lt_of_succ_lt hl)) hc) hc
  | _, _, _, .var, _, he => primary_reads_var fun hk => he.noCall hk ⟨_, _, List.suffix_rfl⟩
  | _, _, _, @Primary.parens _ ts _ u rest ho h hc, hl, _ => by
    have hend : Ends 1 ts (u :: rest) := ends_of_symbol hc (by decide) (by decide)
    have hinner := h.reach (Nat.lt_of_succ_lt hl) (hend.mono (by decide))
    exact primary_reads_parens ho (hinner.expression hend) hc

theorem Arguments.reads : ∀ {ts ns rest}, Arguments ts ns rest → ts.length < rounds →
    kindOf rest = symbolKind .closeParen → Reads (fun d => arguments rounds d) ts ns rest
  | _, _, _, .none, _, hk => arguments_reads_none hk
  | ts, _, _, @Arguments.some _ _ mid _ _ h hs, hl, hk => by
    have hend : Ends 1 ts mid := hs.ends hk
    have hmid := h.past.shorter
    have hitem := (h.reach hl (hend.mono (by decide))).expression hend
    exact arguments_reads_some h.begins (argument_reads h.begins hitem)
      (hs.reads hk (by omega) rounds (by omega) [_])

theorem MoreArguments.reads : ∀ {ts ns rest}, MoreArguments ts ns rest →
    kindOf rest = symbolKind .closeParen → ts.length < rounds → ∀ fuel, ts.length < fuel → ∀ items,
      Reads (fun d => commaSeparated (argument rounds d) fuel items) ts (items.reverse ++ ns) rest
  | _, _, _, .nil, hk, _, fuel, _, items => by
    rw [List.append_nil]
    exact commaSeparated_reads_nil fuel items hk
  | _, _, _, @MoreArguments.cons _ ts n mid _ _ ht h hs, hk, hl, fuel + 1, hf, items => by
    have hend : Ends 1 ts mid := hs.ends hk
    have hmid := h.past.shorter
    simp only [List.length_cons] at hl hf
    have hitem := (h.reach (by omega) (hend.mono (by decide))).expression hend
    have hmore := hs.reads hk (by omega) fuel (by omega) (n :: items)
    rw [List.reverse_cons, List.append_assoc] at hmore
    exact commaSeparated_reads_cons ht (argument_reads h.begins hitem) hmore

end

theorem Tiered.reads {n : Node} (h : Expression ts n rest) (hl : ts.length < rounds)
    (he : Ends 1 ts rest) : Reads (fun d => expression rounds d) ts n rest :=
  (h.reach hl (he.mono (by decide))).expression he

/-! ## The second token -/

theorem not_assign_of_begins {k : Kind} (h : k.beginsExpr = true) : k ≠ symbolKind .assign := by
  rintro rfl
  cases h

/-- Behind its first token an expression has no assignment sign. -/
theorem Primary.second {n : Node} (h : Primary ts n rest)
    (hk : kindOf ts.tail = symbolKind .assign) : ts.tail = rest := by
  cases h with
  | call ho => cases (ho.kindOf _).symm.trans hk
  | parens _ h => exact absurd hk (not_assign_of_begins h.begins)
  | _ => rfl

theorem Postfixed.second : ∀ {ts n rest}, Postfixed ts n rest →
    kindOf ts.tail = symbolKind .assign → ts.tail = rest
  | _, _, _, .primary h, hk => h.second hk
  | _, _, _, .variableMethod hd _ _ _, hk => by cases (hd.kindOf _).symm.trans hk
  | _, _, _, .method hr _ hd _ _ _, hk => by
    rw [hr.second hk] at hk
    cases (hd.kindOf _).symm.trans hk

theorem Unary.second {n : Node} (h : Unary ts n rest) (hk : kindOf ts.tail = symbolKind .assign) :
    ts.tail = rest := by
  cases h with
  | sign _ _ h => exact absurd hk (not_assign_of_begins h.begins)
  | plain h => exact h.second hk

theorem Chain.second (h : Chain ts rest) (hk : kindOf ts.tail = symbolKind .assign) :
    ts.tail = rest := by
  cases h with
  | operand h => exact h.second hk
  | step h ht _ =>
    rw [h.second hk] at hk
    obtain ⟨tier, s, op, ho, hs⟩ := ht
    cases (hs.kindOf _).symm.trans hk
    cases tier <;> simp [operators] at ho

end ExScript.Grammar
