import ExScript.Node.Parser

/-!
# The grammar

A phrase stands at the front of some tokens and leaves a rest: `Expression ts n rest` says that the
tokens `ts` begin with an expression whose tree is `n`, and that `rest` is what follows it.  Each
rule of the grammar is a relation of this form with one constructor for each alternative:

    program    = NEWLINE* (statement NEWLINE*)*
    statement  = assignment | fn | while | for | if | 'return' expression | expression
    assignment = NAME '=' statement
    fn         = 'fn' NAME '(' [NAME (',' NAME)*] ')' block
    while      = 'while' expression block
    for        = 'for' NAME 'in' '[' expression ',' expression ']' block
    if         = 'if' expression block [NEWLINE* 'else' (if | block)]
    block      = open NEWLINE* (statement NEWLINE*)* close
    expression = equality
    equality   = comparison (('==' | '!=') comparison)*
    comparison = sum (('>' | '>=' | '<' | '<=') sum)*
    sum        = product (('+' | '-') product)*
    product    = unary (('*' | '/') unary)*
    unary      = ('+' | '-') unary | postfixed
    postfixed  = primary ('.' NAME '(' arguments ')')*
    primary    = INT | FLOAT | STRING | 'true' | 'false'
               | NAME '(' arguments ')' | NAME | '(' expression ')'
    arguments  = [expression (',' expression)*]

Nothing separates statements but line ends, and these are optional, so that some tokens are derived
in several ways.  Operators of a tier group to the left, and a tree has the position of its first
token, parentheses left aside.
-/

namespace ExScript.Grammar

open ExScript.Parser (Tier)

/-! ## Terminals -/

def Is (s : Symbol) (t : Token) : Prop := t.kind = .mark (.symbol s)

def IsWord (k : Keyword) (t : Token) : Prop := t.kind = .mark (.keyword k)

def IsNewline (t : Token) : Prop := t.kind = .mark .newline

/-- Any number of line ends. -/
inductive Newlines : List Token → List Token → Prop
  | nil {ts} : Newlines ts ts
  | cons {t ts rest} (ht : IsNewline t) (h : Newlines ts rest) : Newlines (t :: ts) rest

/-- The binary operators of a tier. -/
def operators : Tier → List (Symbol × BinaryOp)
  | .equality => [(.equal, .equal), (.notEqual, .notEqual)]
  | .comparison => [(.greater, .greater), (.atLeast, .atLeast), (.less, .less), (.atMost, .atMost)]
  | .sum => [(.plus, .add), (.minus, .sub)]
  | .product => [(.star, .mul), (.slash, .div)]

def signs : List (Symbol × UnaryOp) := [(.plus, .plus), (.minus, .minus)]

/-- A name and nothing else stands in front of the rest. -/
def BareName (ts rest : List Token) : Prop := ∃ name pos, ts = ⟨.name name, pos⟩ :: rest

/-! ## Expressions -/

mutual

inductive Tiered : Tier → List Token → Node → List Token → Prop
  | operand {tier ts n rest} (h : Operand tier ts n rest) : Tiered tier ts n rest
  | binary {tier ts a t mid s op b rest} (ha : Tiered tier ts a (t :: mid))
    (ho : (s, op) ∈ operators tier) (ht : Is s t) (hb : Operand tier mid b rest) :
    Tiered tier ts (.binary a.pos op a b) rest

/-- What the operators of a tier are applied to. -/
inductive Operand : Tier → List Token → Node → List Token → Prop
  | comparison {ts n rest} (h : Tiered .comparison ts n rest) : Operand .equality ts n rest
  | sum {ts n rest} (h : Tiered .sum ts n rest) : Operand .comparison ts n rest
  | product {ts n rest} (h : Tiered .product ts n rest) : Operand .sum ts n rest
  | unary {ts n rest} (h : Unary ts n rest) : Operand .product ts n rest

inductive Unary : List Token → Node → List Token → Prop
  | sign {t s op ts n rest} (ho : (s, op) ∈ signs) (ht : Is s t) (h : Unary ts n rest) :
    Unary (t :: ts) (.unary t.pos op n) rest
  | plain {ts n rest} (h : Postfixed ts n rest) : Unary ts n rest

inductive Postfixed : List Token → Node → List Token → Prop
  | primary {ts n rest} (h : Primary ts n rest) : Postfixed ts n rest
  | variableMethod {x p t m q u mid args v rest} (hd : Is .dot t) (ho : Is .openParen u)
    (ha : Arguments mid args (v :: rest)) (hc : Is .closeParen v) :
    Postfixed (⟨.name x, p⟩ :: t :: ⟨.name m, q⟩ :: u :: mid) (.methodCall p x m args) rest
  | method {ts r t m q u mid args v rest} (hr : Postfixed ts r (t :: ⟨.name m, q⟩ :: u :: mid))
    (hn : ¬ BareName ts (t :: ⟨.name m, q⟩ :: u :: mid)) (hd : Is .dot t) (ho : Is .openParen u)
    (ha : Arguments mid args (v :: rest)) (hc : Is .closeParen v) :
    Postfixed ts (.exprMethodCall r.pos r m args) rest

inductive Primary : List Token → Node → List Token → Prop
  | int {value pos ts} : Primary (⟨.int value, pos⟩ :: ts) (.int pos value) ts
  | float {value pos ts} : Primary (⟨.float value, pos⟩ :: ts) (.float pos value) ts
  | string {text pos ts} : Primary (⟨.string text, pos⟩ :: ts) (.string pos text) ts
  | trueWord {t ts} (ht : IsWord .trueWord t) : Primary (t :: ts) (.bool t.pos true) ts
  | falseWord {t ts} (ht : IsWord .falseWord t) : Primary (t :: ts) (.bool t.pos false) ts
  | call {name pos t ts args u rest} (ho : Is .openParen t) (ha : Arguments ts args (u :: rest))
    (hc : Is .closeParen u) : Primary (⟨.name name, pos⟩ :: t :: ts) (.call pos name args) rest
  | var {name pos ts} : Primary (⟨.name name, pos⟩ :: ts) (.var pos name) ts
  | parens {t ts n u rest} (ho : Is .openParen t) (h : Tiered .equality ts n (u :: rest))
    (hc : Is .closeParen u) : Primary (t :: ts) n rest

inductive Arguments : List Token → List Node → List Token → Prop
  | none {ts} : Arguments ts [] ts
  | some {ts n mid ns rest} (h : Tiered .equality ts n mid) (hs : MoreArguments mid ns rest) :
    Arguments ts (n :: ns) rest

inductive MoreArguments : List Token → List Node → List Token → Prop
  | nil {ts} : MoreArguments ts [] ts
  | cons {t ts n mid ns rest} (ht : Is .comma t) (h : Tiered .equality ts n mid)
    (hs : MoreArguments mid ns rest) : MoreArguments (t :: ts) (n :: ns) rest

end

abbrev Expression : List Token → Node → List Token → Prop := Tiered .equality

/-! ## Statements -/

inductive MoreParameters : List Token → List String → List Token → Prop
  | nil {ts} : MoreParameters ts [] ts
  | cons {t name pos ts names rest} (ht : Is .comma t) (h : MoreParameters ts names rest) :
    MoreParameters (t :: ⟨.name name, pos⟩ :: ts) (name :: names) rest

inductive Parameters : List Token → List String → List Token → Prop
  | none {ts} : Parameters ts [] ts
  | some {name pos ts names rest} (h : MoreParameters ts names rest) :
    Parameters (⟨.name name, pos⟩ :: ts) (name :: names) rest

mutual

inductive Statement : List Token → Node → List Token → Prop
  | assign {x p t ts n rest} (ht : Is .assign t) (h : Statement ts n rest) :
    Statement (⟨.name x, p⟩ :: t :: ts) (.assign p x n) rest
  | fnDecl {t name p u ts params v mid body rest} (hf : IsWord .fnWord t) (ho : Is .openParen u)
    (hp : Parameters ts params (v :: mid)) (hc : Is .closeParen v) (hb : Block mid body rest) :
    Statement (t :: ⟨.name name, p⟩ :: u :: ts) (.fnDecl t.pos name params body) rest
  | whileLoop {t ts test mid body rest} (ht : IsWord .whileWord t) (he : Expression ts test mid)
    (hb : Block mid body rest) : Statement (t :: ts) (.whileLoop t.pos test body) rest
  | forLoop {t x p u v ts low w mid high c after body rest} (ht : IsWord .forWord t)
    (hi : IsWord .inWord u) (ho : Is .openBracket v) (hl : Expression ts low (w :: mid))
    (hw : Is .comma w) (hh : Expression mid high (c :: after)) (hc : Is .closeBracket c)
    (hb : Block after body rest) :
    Statement (t :: ⟨.name x, p⟩ :: u :: v :: ts) (.forLoop t.pos x low high body) rest
  | cond {ts n rest} (h : If ts n rest) : Statement ts n rest
  | ret {t ts n rest} (ht : IsWord .returnWord t) (h : Expression ts n rest) :
    Statement (t :: ts) (.ret t.pos n) rest
  | expression {ts n rest} (h : Expression ts n rest) : Statement ts n rest

inductive If : List Token → Node → List Token → Prop
  | plain {t ts test mid body rest} (ht : IsWord .ifWord t) (he : Expression ts test mid)
    (hb : Block mid body rest) : If (t :: ts) (.cond t.pos test body none) rest
  | elseBlock {t ts test mid body after u more other rest} (ht : IsWord .ifWord t)
    (he : Expression ts test mid) (hb : Block mid body after) (hn : Newlines after (u :: more))
    (hu : IsWord .elseWord u) (ho : Block more other rest) :
    If (t :: ts) (.cond t.pos test body (some other)) rest
  | elseIf {t ts test mid body after u more n rest} (ht : IsWord .ifWord t)
    (he : Expression ts test mid) (hb : Block mid body after) (hn : Newlines after (u :: more))
    (hu : IsWord .elseWord u) (ho : If more n rest) :
    If (t :: ts) (.cond t.pos test body (some [n])) rest

inductive Block : List Token → List Node → List Token → Prop
  | braces {t ts mid body u rest} (ho : Is .openBrace t) (hn : Newlines ts mid)
    (hs : Statements mid body (u :: rest)) (hc : Is .closeBrace u) : Block (t :: ts) body rest

inductive Statements : List Token → List Node → List Token → Prop
  | nil {ts} : Statements ts [] ts
  | cons {ts n mid after ns rest} (h : Statement ts n mid) (hn : Newlines mid after)
    (hs : Statements after ns rest) : Statements ts (n :: ns) rest

end

/-- The tokens are derived from the rule for programs. -/
def Program (ts : List Token) (body : List Node) : Prop :=
  ∃ mid, Newlines ts mid ∧ Statements mid body []

/-! ## What a phrase takes -/

/-- The rest comes later, with at least one token in front. -/
structure Past (ts rest : List Token) : Prop where
  suffix : rest <:+ ts
  shorter : rest.length < ts.length

variable {ts mid rest : List Token}

theorem Past.trans_suffix (h : Past ts mid) (h' : rest <:+ mid) : Past ts rest :=
  ⟨h'.trans h.suffix, Nat.lt_of_le_of_lt h'.length_le h.shorter⟩

theorem past_cons (t : Token) (h : rest <:+ ts) : Past (t :: ts) rest :=
  ⟨h.trans (List.suffix_cons t ts), Nat.lt_succ_of_le h.length_le⟩

theorem suffix_of_cons {t : Token} (h : t :: rest <:+ ts) : rest <:+ ts :=
  (List.suffix_cons t rest).trans h

theorem Newlines.suffix (h : Newlines ts rest) : rest <:+ ts := by
  induction h with
  | nil => exact List.suffix_rfl
  | cons _ _ ih => exact ih.trans (List.suffix_cons ..)

mutual

theorem Tiered.past : ∀ {tier ts n rest}, Tiered tier ts n rest → Past ts rest
  | _, _, _, _, .operand h => h.past
  | _, _, _, _, .binary ha _ _ hb =>
    ha.past.trans_suffix (hb.past.suffix.trans (List.suffix_cons ..))

theorem Operand.past : ∀ {tier ts n rest}, Operand tier ts n rest → Past ts rest
  | _, _, _, _, .comparison h => h.past
  | _, _, _, _, .sum h => h.past
  | _, _, _, _, .product h => h.past
  | _, _, _, _, .unary h => h.past

theorem Unary.past : ∀ {ts n rest}, Unary ts n rest → Past ts rest
  | _, _, _, .sign _ _ h => past_cons _ h.past.suffix
  | _, _, _, .plain h => h.past

theorem Postfixed.past : ∀ {ts n rest}, Postfixed ts n rest → Past ts rest
  | _, _, _, .primary h => h.past
  | _, _, _, .variableMethod _ _ ha _ =>
    past_cons _ ((suffix_of_cons ha.suffix).trans (List.suffix_append [_, _, _] _))
  | _, _, _, .method hr _ _ _ ha _ =>
    hr.past.trans_suffix ((suffix_of_cons ha.suffix).trans (List.suffix_append [_, _, _] _))

theorem Primary.past : ∀ {ts n rest}, Primary ts n rest → Past ts rest
  | _, _, _, .int | _, _, _, .float | _, _, _, .string | _, _, _, .trueWord _
  | _, _, _, .falseWord _ | _, _, _, .var => past_cons _ List.suffix_rfl
  | _, _, _, .call _ ha _ =>
    past_cons _ ((suffix_of_cons ha.suffix).trans (List.suffix_cons ..))
  | _, _, _, .parens _ h _ => past_cons _ (suffix_of_cons h.past.suffix)

theorem Arguments.suffix : ∀ {ts ns rest}, Arguments ts ns rest → rest <:+ ts
  | _, _, _, .none => List.suffix_rfl
  | _, _, _, .some h hs => hs.suffix.trans h.past.suffix

theorem MoreArguments.suffix : ∀ {ts ns rest}, MoreArguments ts ns rest → rest <:+ ts
  | _, _, _, .nil => List.suffix_rfl
  | _, _, _, .cons _ h hs => (hs.suffix.trans h.past.suffix).trans (List.suffix_cons ..)

end

theorem MoreParameters.suffix {names : List String} (h : MoreParameters ts names rest) :
    rest <:+ ts := by
  induction h with
  | nil => exact List.suffix_rfl
  | cons _ _ ih => exact ih.trans (List.suffix_append [_, _] _)

theorem Parameters.suffix {names : List String} (h : Parameters ts names rest) : rest <:+ ts := by
  cases h with
  | none => exact List.suffix_rfl
  | some h => exact h.suffix.trans (List.suffix_cons ..)

mutual

theorem Statement.past : ∀ {ts n rest}, Statement ts n rest → Past ts rest
  | _, _, _, .assign _ h => past_cons _ (h.past.suffix.trans (List.suffix_cons ..))
  | _, _, _, .fnDecl _ _ hp _ hb =>
    past_cons _ ((hb.past.suffix.trans (suffix_of_cons hp.suffix)).trans
      (List.suffix_append [_, _] _))
  | _, _, _, .whileLoop _ he hb => past_cons _ (hb.past.suffix.trans he.past.suffix)
  | _, _, _, .forLoop _ _ _ hl _ hh _ hb =>
    past_cons _ (((hb.past.suffix.trans (suffix_of_cons hh.past.suffix)).trans
      (suffix_of_cons hl.past.suffix)).trans (List.suffix_append [_, _, _] _))
  | _, _, _, .cond h => h.past
  | _, _, _, .ret _ h => past_cons _ h.past.suffix
  | _, _, _, .expression h => h.past

theorem If.past : ∀ {ts n rest}, If ts n rest → Past ts rest
  | _, _, _, .plain _ he hb => past_cons _ (hb.past.suffix.trans he.past.suffix)
  | _, _, _, .elseBlock _ he hb hn _ ho =>
    past_cons _ (((ho.past.suffix.trans (suffix_of_cons hn.suffix)).trans hb.past.suffix).trans
      he.past.suffix)
  | _, _, _, .elseIf _ he hb hn _ ho =>
    past_cons _ (((ho.past.suffix.trans (suffix_of_cons hn.suffix)).trans hb.past.suffix).trans
      he.past.suffix)

theorem Block.past : ∀ {ts body rest}, Block ts body rest → Past ts rest
  | _, _, _, .braces _ hn hs _ => past_cons _ ((suffix_of_cons hs.suffix).trans hn.suffix)

theorem Statements.suffix : ∀ {ts body rest}, Statements ts body rest → rest <:+ ts
  | _, _, _, .nil => List.suffix_rfl
  | _, _, _, .cons h hn hs => (hs.suffix.trans hn.suffix).trans h.past.suffix

end

end ExScript.Grammar
