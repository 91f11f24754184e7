import ExScript.Proofs.ReadingPhrases
import ExScript.Proofs.RoundTrip
import Mathlib.Data.List.DropRight

/-!
# What is derivable is accepted

The parser reads a statement as far as it can.  A derivation may end it earlier, but only in front
of a statement that it joins with; so either a derived statement is read up to the end of its
derivation, or the derivation of the statements can be changed to one with a statement less
(`Accepted`).  Once nothing joins, the parser goes through the statements one by one (`Sequence`).

The induction is on the number of tokens, since joining two statements gives a derivation that is
part of none of the two.
-/

open ExScript.Parser

namespace ExScript.Grammar

/-- Statements that are read one by one. -/
inductive Sequence (rounds : Nat) : List Token → List Node → List Token → Prop
  | nil {ts} : Sequence rounds ts [] ts
  | cons {ts n mid ns rest} (hb : (kindOf ts).beginsStmt = true) (hl : mid.length < ts.length)
    (h : Reads (fun d => statement rounds d) ts n mid)
    (hs : Sequence rounds (mid.dropWhile isNewline) ns rest) : Sequence rounds ts (n :: ns) rest

variable {rounds N : Nat} {ts mid after rest : List Token} {t u : Token} {n : Node}
  {ns body : List Node}

/-! ## What follows a statement -/

theorem If.begins (h : If ts n rest) : kindOf ts = keywordKind .ifWord := by
  cases h with
  | plain ht => exact ht
  | elseBlock ht => exact ht
  | elseIf ht => exact ht

theorem Block.begins (h : Block ts body rest) : kindOf ts = symbolKind .openBrace := by
  cases h with
  | braces ho => exact ho

theorem Statement.begins (h : Statement ts n rest) : (kindOf ts).beginsStmt = true := by
  cases h with
  | assign => rfl
  | fnDecl hf => exact congrArg Kind.beginsStmt hf
  | whileLoop hw => exact congrArg Kind.beginsStmt hw
  | forLoop hf => exact congrArg Kind.beginsStmt hf
  | cond h => exact congrArg Kind.beginsStmt h.begins
  | ret hr => exact congrArg Kind.beginsStmt hr
  | expression h => exact Kind.beginsStmt_of_beginsExpr h.begins

theorem Statements.nextLine (h : Statements ts ns rest) (hr : NextLine rest) : NextLine ts := by
  cases h with
  | nil => exact hr
  | cons h => exact .inl h.begins

/-- Statements end at a closing brace or at the end of the input. -/
def Stops (rest : List Token) : Prop := kindOf rest = symbolKind .closeBrace ∨ rest = []

theorem Stops.nextLine (h : Stops rest) : NextLine rest := .inr h

theorem Stops.not_beginsExpr (h : Stops rest) : (kindOf rest).beginsExpr ≠ true := by
  rcases h with h | rfl
  · rw [h]
    decide
  · decide

/-- Behind the line ends comes another statement, the end of a block or of the input. -/
def Follows (rest : List Token) : Prop := ∃ after, Newlines rest after ∧ NextLine after

theorem Newlines.dropWhile (h : Newlines ts rest) (hr : rest.dropWhile isNewline = rest) :
    ts.dropWhile isNewline = rest := by
  induction h with
  | nil => exact hr
  | @cons t _ _ ht _ ih =>
    have hline : isNewline t = true := decide_eq_true ht
    rw [List.dropWhile_cons_of_pos hline, ih hr]

theorem Follows.noElse (h : Follows rest) : elseFollows rest = false := by
  obtain ⟨after, hn, hnext⟩ := h
  rw [elseFollows, hn.dropWhile hnext.dropNewlines]
  exact decide_eq_false hnext.not_else

theorem Follows.next (h : Follows rest) : kindOf rest = .mark .newline ∨ NextLine rest := by
  obtain ⟨after, hn, hnext⟩ := h
  cases hn with
  | nil => exact .inr hnext
  | cons ht _ => exact .inl ht

theorem Follows.not_assign (h : Follows rest) : kindOf rest ≠ symbolKind .assign := by
  rcases h.next with hk | hk | hk | rfl
  · rw [hk]
    decide
  · rintro heq
    rw [heq] at hk
    cases hk
  · rw [hk]
    decide
  · decide

theorem pull_of_beginsStmt {k : Kind} (h : k.beginsStmt = true) : pull k = 0 ∨
    k = symbolKind .plus ∨ k = symbolKind .minus ∨ k = symbolKind .openParen := by
  unfold pull
  split <;> first | exact .inl rfl | exact .inr (by decide) | cases h

/-- Only a sign or a parenthesis can go on with what is in front of it. -/
theorem Follows.pull (h : Follows rest) : pull (kindOf rest) = 0 ∨
    ∃ t mid, rest = t :: mid ∧ (IsSign t ∨ Is .openParen t) := by
  rcases h.next with hk | hk | hk | rfl
  · exact .inl (by rw [hk]; rfl)
  · refine (pull_of_beginsStmt hk).imp_right fun hk => ?_
    cases rest with
    | nil => rcases hk with hk | hk | hk <;> cases hk
    | cons t mid =>
      refine ⟨t, mid, rfl, ?_⟩
      rcases hk with hk | hk | hk
      · exact .inl ⟨.plus, .plus, by decide, hk⟩
      · exact .inl ⟨.minus, .minus, by decide, hk⟩
      · exact .inr hk
  · exact .inl (by rw [hk]; rfl)
  · exact .inl rfl

/-! ## Expressions as statements -/

theorem Follows.ends_or_goesOn (hf : Follows rest) (ts : List Token) :
    Ends 1 ts rest ∨ ∃ t mid, rest = t :: mid ∧ GoesOn ts t mid := by
  rcases hf.pull with hp | ⟨t, mid, rfl, hsign | hparen⟩
  · exact .inl (ends_of_pull (by rw [hp]; decide) (by decide))
  · exact .inr ⟨t, mid, rfl, .inl hsign⟩
  · by_cases hname : EndsInName ts (t :: mid)
    · exact .inr ⟨t, mid, rfl, .inr ⟨hparen, hname⟩⟩
    · exact .inl ⟨.inr hparen, fun _ => hname⟩

theorem statement_reads_expression (hb : (kindOf ts).beginsExpr = true)
    (hne : kindOf ts.tail ≠ symbolKind .assign)
    (h : Reads (fun d => expression rounds d) ts n rest) :
    Reads (fun d => statement rounds d) ts n rest :=
  .of_succ (.congr (fun _ => statement_expression hb hne) h)

/-- An expression may begin here, and the statement in front is derived together with it. -/
def Joins (ts rest : List Token) : Prop :=
  (kindOf rest).beginsExpr = true ∧
    ∀ m after, Statement rest m after → ∃ k, Statement ts k after

theorem joins_of_expression (h : Expression ts n (t :: mid)) (ht : GoesOn ts t mid)
    {front : List Token} (hs : ∀ k after, Expression ts k after → ∃ m, Statement front m after) :
    Joins front (t :: mid) := by
  refine ⟨ht.beginsExpr, fun m after hm => ?_⟩
  obtain ⟨k, hk⟩ := h.join ht hm
  exact hs k after hk

/-! ## One statement -/

/-- What holds of statements of fewer tokens than some number: each is read up to the end of its
derivation, or joins with the next one. -/
def Accepted (rounds N : Nat) : Prop :=
  ∀ ⦃ts n rest⦄, ts.length < N → Statement ts n rest → Follows rest →
    (∃ m, Reads (fun d => statement rounds d) ts m rest) ∨ Joins ts rest

/-- In place of a derivation there is one whose statements are read one by one. -/
theorem Statements.sequence (hN : Accepted rounds N) (hr : Stops rest) (len : Nat) :
    ∀ {ts ns}, ns.length = len → ts.length < N → Statements ts ns rest →
      ∃ ms, Sequence rounds ts ms rest := by
  induction len with
  | zero =>
    intro ts ns hlen _ h
    cases List.length_eq_zero_iff.mp hlen
    cases h
    exact ⟨[], .nil⟩
  | succ len ih =>
    intro ts ns hlen hl h
    cases h with
    | nil => cases hlen
    | @cons _ n mid after ns _ h hn hs =>
      have hnext := hs.nextLine hr.nextLine
      have hshort := h.past.shorter
      have hafter := hn.suffix.length_le
      rcases hN hl h ⟨after, hn, hnext⟩ with ⟨m, hread⟩ | ⟨hbegins, hjoin⟩
      · obtain ⟨ms, hms⟩ := ih (Nat.succ.inj hlen) (by omega) hs
        rw [← hn.dropWhile hnext.dropNewlines] at hms
        exact ⟨m :: ms, .cons h.begins hshort hread hms⟩
      · -- no line end begins an expression, so that the next statement follows at once
        have hafter : after = mid := by
          cases hn with
          | nil => rfl
          | cons hline _ => cases (congrArg Kind.beginsExpr hline).symm.trans hbegins
        subst hafter
        cases hs with
        | nil => exact absurd hbegins hr.not_beginsExpr
        | cons h' hn' hs' =>
          obtain ⟨k, hk⟩ := hjoin _ _ h'
          exact ih (show (k :: _).length = len from Nat.succ.inj hlen) hl (.cons hk hn' hs')

/-! ## Blocks and programs -/

theorem statementsOf_stop (item : Parser Node) (fuel : Nat) (items : List Node)
    (hu : Is .closeBrace u) :
    statementsOf item (fuel + 1) items (u :: rest) = .ok (items.reverse, rest) := by
  rw [statementsOf]
  refine (bind_of_ok (nextKind_apply ..) _).trans ?_
  have hk := hu.kindOf rest
  rw [hk]
  exact bind_of_ok (advance_apply (symbol_ne_end hk)) _

theorem Sequence.reads_block (h : Sequence rounds ts ns after) (ha : after = u :: rest)
    (hu : Is .closeBrace u) : ∀ fuel items, ts.length < fuel →
      Reads (fun d => statementsOf (statement rounds d) fuel items) ts (items.reverse ++ ns)
        rest := by
  induction h with
  | nil =>
    intro fuel items hf
    obtain ⟨fuel, rfl⟩ := Nat.exists_eq_succ_of_ne_zero (Nat.ne_zero_of_lt hf)
    subst ha
    rw [List.append_nil]
    exact .of_forall fun d => statementsOf_stop _ _ _ hu
  | @cons ts n mid ns after hb hl h _ ih =>
    intro fuel items hf
    obtain ⟨fuel, rfl⟩ := Nat.exists_eq_succ_of_ne_zero (Nat.ne_zero_of_lt hf)
    have hmid : (mid.dropWhile isNewline).length ≤ mid.length :=
      (List.dropWhile_suffix _).length_le
    have hs := ih ha fuel (n :: items) (by omega)
    rw [List.reverse_cons, List.append_assoc] at hs
    refine .congr (fun d => statementsOf_next _ _ _ hb) ?_
    exact .bind h (.after (skipNewlines_apply ..) hs)

theorem programFrom_skip (item : Parser Node) (fuel : Nat) (items : List Node) (ts : List Token) :
    programFrom item (fuel + 1) items ts =
      programFrom item (fuel + 1) items (ts.dropWhile isNewline) := by
  rw [programFrom]
  refine (bind_of_ok (skipNewlines_apply ..) _).trans ?_
  refine .trans ?_ (bind_of_ok (skipNewlines_apply ..) _).symm
  rw [List.dropWhile_idempotent]

theorem Sequence.reads_program (h : Sequence rounds after ns rest) (hr : rest = []) :
    ∀ {ts} fuel items, ts.dropWhile isNewline = after → ts.length < fuel →
      Reads (fun d => programFrom (statement rounds d) fuel items) ts (items.reverse ++ ns) [] := by
  induction h with
  | nil =>
    intro ts fuel items hts hf
    obtain ⟨fuel, rfl⟩ := Nat.exists_eq_succ_of_ne_zero (Nat.ne_zero_of_lt hf)
    rw [List.append_nil]
    refine .congr (fun d => programFrom_skip _ _ _ _) ?_
    rw [hts, hr]
    exact .of_forall fun d => rfl
  | @cons after n mid ns rest hb hl h _ ih =>
    intro ts fuel items hts hf
    obtain ⟨fuel, rfl⟩ := Nat.exists_eq_succ_of_ne_zero (Nat.ne_zero_of_lt hf)
    have hafter : after.length ≤ ts.length := hts ▸ (List.dropWhile_suffix _).length_le
    have hs := ih hr fuel (n :: items) rfl (by omega)
    rw [List.reverse_cons, List.append_assoc] at hs
    refine .congr (fun d => programFrom_skip _ _ _ _) ?_
    rw [hts]
    exact .congr (fun d => programFrom_next _ _ _ hb) (.bind h hs)

/-- A block is read, though maybe not as the same statements. -/
theorem Block.accepted (hN : Accepted rounds N) (h : Block ts body rest) (hl : ts.length ≤ N)
    (hr : ts.length < rounds) : ∃ ms, Reads (fun d => block rounds d) ts ms rest := by
  cases h with
  | @braces t ts mid _ u _ ho hn hs hc =>
    have hmid := hn.suffix.length_le
    simp only [List.length_cons] at hl hr
    have hstops : Stops (u :: rest) := .inl hc
    obtain ⟨ms, hms⟩ := hs.sequence hN hstops _ rfl (by omega)
    have hread := hms.reads_block rfl hc rounds [] (by omega)
    rw [← hn.dropWhile (hs.nextLine hstops.nextLine).dropNewlines] at hread
    exact ⟨ms, .of_succ (.after (expectSymbol_of_is ho) (.after (skipNewlines_apply ..) hread))⟩

/-! ## Rules -/

/-- The rule of the statements that begin with a keyword. -/
def ruleOf (rounds d : Nat) : Keyword → Parser Node
  | .fnWord => fnDecl rounds d
  | .whileWord => whileLoop rounds d
  | .forWord => forLoop rounds d
  | .ifWord => cond rounds d
  | .returnWord => ret rounds d
  | _ => expression rounds d

theorem statement_reads_word {k : Keyword} (ht : IsWord k t)
    (h : Reads (fun d => ruleOf rounds d k) (t :: ts) n rest) :
    Reads (fun d => statement rounds d) (t :: ts) n rest := by
  obtain ⟨lexeme, pos⟩ := t
  cases lexeme with
  | mark m text =>
    cases ht
    refine .of_succ (.congr (fun d => ?_) h)
    cases k <;> rfl
  | _ => cases ht

/-- In front of a block an expression ends. -/
theorem Block.ends (h : Block mid body rest) (ts : List Token) : Ends 1 ts mid := by
  refine ends_of_pull ?_ (by decide)
  rw [h.begins]
  decide

theorem parameters_read {names : List String} (h : MoreParameters ts names rest)
    (hk : kindOf rest = symbolKind .closeParen) : ∀ fuel items, ts.length < fuel →
      Reads (fun _ => commaSeparated (expectName .parameterName) fuel items) ts
        (items.reverse ++ names) rest := by
  induction h with
  | nil =>
    intro fuel items _
    rw [List.append_nil]
    exact commaSeparated_reads_nil fuel items hk
  | @cons t name pos ts names rest ht _ ih =>
    intro fuel items hf
    simp only [List.length_cons] at hf
    obtain ⟨fuel, rfl⟩ := Nat.exists_eq_succ_of_ne_zero (Nat.ne_zero_of_lt hf)
    refine commaSeparated_reads_cons ht (.of_forall fun _ => expectName_cons _ name pos) ?_
    simpa using ih hk fuel (name :: items) (by omega)

theorem Parameters.reads {names : List String} (h : Parameters ts names rest)
    (hk : kindOf rest = symbolKind .closeParen) (hl : ts.length < rounds) :
    Reads (fun _ => listOf rounds (expectName .parameterName)) ts names rest := by
  cases h with
  | none =>
    refine .after (nextKind_apply ..) ?_
    simp only [if_pos hk]
    exact reads_pure _
  | @some name pos ts names rest h =>
    exact .after rfl (.after (expectName_cons _ name pos)
      (parameters_read h hk rounds [name] (Nat.lt_of_succ_lt hl)))

theorem fnDecl_accepted {name : String} {pos : Pos} {params : List String} {v : Token}
    (hN : Accepted rounds N) (hf : IsWord .fnWord t) (ho : Is .openParen u)
    (hp : Parameters ts params (v :: mid)) (hc : Is .closeParen v) (hb : Block mid body rest)
    (hl : ts.length < N) (hr : N < rounds) :
    ∃ m, Reads (fun d => statement rounds d) (t :: ⟨.name name, pos⟩ :: u :: ts) m rest := by
  have hmid := hp.suffix.length_le
  simp only [List.length_cons] at hmid
  have hts : ts.length < rounds := by omega
  have hparams := hp.reads hc hts
  obtain ⟨ms, hms⟩ := hb.accepted hN (by omega) (by omega)
  refine ⟨.fnDecl t.pos name params ms, statement_reads_word hf (.of_succ ?_)⟩
  refine .after rfl (.after (expectKeyword_of_is hf) (.after (expectName_cons _ name pos) ?_))
  refine .after (expectSymbol_of_is ho) (.bind hparams (.after (expectSymbol_of_is hc) ?_))
  exact .bind hms (reads_pure _)

theorem whileLoop_accepted {test : Node} (hN : Accepted rounds N) (ht : IsWord .whileWord t)
    (he : Expression ts test mid) (hb : Block mid body rest) (hl : ts.length < N)
    (hr : N < rounds) : ∃ m, Reads (fun d => statement rounds d) (t :: ts) m rest := by
  have hmid := he.past.shorter
  have htest := he.reads (Nat.lt_trans hl hr) (hb.ends ts)
  obtain ⟨ms, hms⟩ := hb.accepted hN (by omega) (by omega)
  refine ⟨.whileLoop t.pos test ms, statement_reads_word ht (.of_succ ?_)⟩
  refine .after rfl (.after (expectKeyword_of_is ht) ?_)
  exact .bind htest (.bind hms (reads_pure _))

theorem forLoop_accepted {name : String} {pos : Pos} {low high : Node} {v w c : Token}
    (hN : Accepted rounds N) (ht : IsWord .forWord t) (hi : IsWord .inWord u)
    (ho : Is .openBracket v) (hlow : Expression ts low (w :: mid)) (hw : Is .comma w)
    (hhigh : Expression mid high (c :: after)) (hc : Is .closeBracket c)
    (hb : Block after body rest) (hl : ts.length < N) (hr : N < rounds) :
    ∃ m, Reads (fun d => statement rounds d) (t :: ⟨.name name, pos⟩ :: u :: v :: ts) m rest := by
  have hmid := hlow.past.shorter
  have hafter := hhigh.past.shorter
  simp only [List.length_cons] at hmid hafter
  have hts : ts.length < rounds := Nat.lt_trans hl hr
  have hreadLow := hlow.reads hts (ends_of_symbol hw (by decide) (by decide))
  have hrange : mid.length < rounds := by omega
  have hreadHigh := hhigh.reads hrange (ends_of_symbol hc (by decide) (by decide))
  obtain ⟨ms, hms⟩ := hb.accepted hN (by omega) (by omega)
  refine ⟨.forLoop t.pos name low high ms, statement_reads_word ht (.of_succ ?_)⟩
  refine .after rfl (.after (expectKeyword_of_is ht) (.after (expectName_cons _ name pos) ?_))
  refine .after (expectKeyword_of_is hi) (.after (expectSymbol_of_is ho) ?_)
  refine .bind hreadLow (.after (expectSymbol_of_is hw) ?_)
  refine .bind hreadHigh (.after (expectSymbol_of_is hc) ?_)
  exact .bind hms (reads_pure _)

/-! ## Branches -/

theorem dropNewlines_else (hn : Newlines ts (u :: mid)) (hu : IsWord .elseWord u) :
    ts.dropWhile isNewline = u :: mid := by
  refine hn.dropWhile (List.dropWhile_cons_of_neg ?_)
  have hkind : u.kind = .mark (.keyword .elseWord) := hu
  rw [isNewline, hkind]
  decide

theorem branch_reads_none (build : Option (List Node) → Node) (hf : Follows ts) :
    Reads (fun d => branch rounds d build) ts (build none) ts := by
  refine .after rfl ?_
  simp only [hf.noElse, Bool.false_eq_true, if_false]
  exact reads_pure _

/-- Behind an `else` the kind of the next token tells which rule comes. -/
theorem branch_reads_else (build : Option (List Node) → Node) (hn : Newlines ts (u :: mid))
    (hu : IsWord .elseWord u)
    (h : Reads (fun d => if kindOf mid = keywordKind .ifWord
        then (do return build (some [← cond rounds d]) : Parser Node)
        else do return build (some (← block rounds d))) mid n rest) :
    Reads (fun d => branch rounds d build) ts n rest := by
  have hdrop := dropNewlines_else hn hu
  have helse : elseFollows ts = true := by
    rw [elseFollows, hdrop]
    exact decide_eq_true hu
  refine .after rfl ?_
  simp only [helse, if_true]
  refine .after (skipNewlines_apply ..) ?_
  rw [hdrop]
  have hk : kindOf (u :: mid) = keywordKind .elseWord := hu
  exact .after (advance_apply (keyword_ne_end hk)) (.after rfl h)

theorem branch_reads_block (build : Option (List Node) → Node) (hn : Newlines ts (u :: mid))
    (hu : IsWord .elseWord u) (hb : Block mid body after)
    (h : Reads (fun d => block rounds d) mid ns rest) :
    Reads (fun d => branch rounds d build) ts (build (some ns)) rest := by
  refine branch_reads_else build hn hu ?_
  rw [hb.begins]
  exact .bind h (reads_pure _)

theorem branch_reads_if {m : Node} (build : Option (List Node) → Node)
    (hn : Newlines ts (u :: mid)) (hu : IsWord .elseWord u) (hi : If mid m after)
    (h : Reads (fun d => cond rounds d) mid n rest) :
    Reads (fun d => branch rounds d build) ts (build (some [n])) rest := by
  refine branch_reads_else build hn hu ?_
  rw [hi.begins]
  exact .bind h (reads_pure _)

/-- The test and the first block of an `if`, which all its forms have. -/
theorem cond_accepted {test : Node} (hN : Accepted rounds N) (hr : N < rounds)
    (ht : IsWord .ifWord t) (he : Expression ts test mid) (hb : Block mid body after)
    (hl : (t :: ts).length ≤ N)
    (h : ∀ build, ∃ m, Reads (fun d => branch rounds d build) after m rest) :
    ∃ m, Reads (fun d => cond rounds d) (t :: ts) m rest := by
  have hmid := he.past.shorter
  simp only [List.length_cons] at hl
  have hts : ts.length < rounds := by omega
  have htest := he.reads hts (hb.ends ts)
  obtain ⟨ms, hms⟩ := hb.accepted hN (by omega) (by omega)
  obtain ⟨m, hm⟩ := h (.cond t.pos test ms)
  refine ⟨m, .of_succ ?_⟩
  simp only [cond_succ]
  exact .after rfl (.after (expectKeyword_of_is ht) (.bind htest (.bind hms hm)))

theorem If.accepted (hN : Accepted rounds N) (hr : N < rounds) : ∀ {ts n rest}, If ts n rest →
    ts.length ≤ N → Follows rest → ∃ m, Reads (fun d => cond rounds d) ts m rest
  | _, _, _, .plain ht he hb, hl, hf =>
    cond_accepted hN hr ht he hb hl fun build => ⟨_, branch_reads_none build hf⟩
  | _, _, _, .elseBlock ht he hb hn hu ho, hl, _ =>
    cond_accepted hN hr ht he hb hl fun build => by
      have hmid := he.past.shorter
      have hafter := hb.past.shorter
      have hmore := (suffix_of_cons hn.suffix).length_le
      simp only [List.length_cons] at hl
      obtain ⟨ks, hks⟩ := ho.accepted hN (by omega) (by omega)
      exact ⟨_, branch_reads_block build hn hu ho hks⟩
  | _, _, _, .elseIf ht he hb hn hu ho, hl, hf =>
    cond_accepted hN hr ht he hb hl fun build => by
      have hmid := he.past.shorter
      have hafter := hb.past.shorter
      have hmore := (suffix_of_cons hn.suffix).length_le
      simp only [List.length_cons] at hl
      obtain ⟨k, hk⟩ := ho.accepted hN hr (by omega) hf
      exact ⟨_, branch_reads_if build hn hu ho hk⟩

/-! ## Every statement -/

theorem statement_reads_assign {x : String} {pos : Pos} (ht : Is .assign t)
    (h : Reads (fun d => statement rounds d) ts n rest) :
    Reads (fun d => statement rounds d) (⟨.name x, pos⟩ :: t :: ts) (.assign pos x n) rest := by
  have hkind : kindOf (t :: ts) = symbolKind .assign := ht
  refine .of_succ (.after rfl (.after rfl ?_))
  simp only [List.tail_cons, hkind]
  refine .of_succ (.after rfl (.after (expectName_cons _ x pos) ?_))
  exact .after (expectSymbol_of_is ht) (.bind h (reads_pure _))

theorem expression_accepted (h : Expression ts n rest) (hl : ts.length < rounds)
    (hf : Follows rest) : (∃ m, Reads (fun d => statement rounds d) ts m rest) ∨ Joins ts rest := by
  rcases hf.ends_or_goesOn ts with he | ⟨t, mid, rfl, ht⟩
  · refine .inl ⟨n, statement_reads_expression h.begins (fun hk => ?_) (h.reads hl he)⟩
    rw [h.chain.second hk] at hk
    exact hf.not_assign hk
  · exact .inr (joins_of_expression h ht fun k _ hk => ⟨k, .expression hk⟩)

theorem ret_accepted (ht : IsWord .returnWord t) (h : Expression ts n rest)
    (hl : ts.length < rounds) (hf : Follows rest) :
    (∃ m, Reads (fun d => statement rounds d) (t :: ts) m rest) ∨ Joins (t :: ts) rest := by
  rcases hf.ends_or_goesOn ts with he | ⟨u, mid, rfl, hu⟩
  · refine .inl ⟨.ret t.pos n, statement_reads_word ht (.of_succ ?_)⟩
    refine .after rfl (.after (expectKeyword_of_is ht) ?_)
    exact .bind (h.reads hl he) (reads_pure _)
  · exact .inr (joins_of_expression h hu fun k _ hk => ⟨_, .ret ht hk⟩)

theorem Accepted.succ (hN : Accepted rounds N) (hr : N < rounds) : Accepted rounds (N + 1) := by
  intro ts n rest hl h hf
  cases h with
  | assign ht h =>
    simp only [List.length_cons] at hl
    refine (hN (by omega) h hf).imp (fun ⟨m, hm⟩ => ⟨_, statement_reads_assign ht hm⟩) ?_
    refine fun hjoin => ⟨hjoin.1, fun m after hm => ?_⟩
    obtain ⟨k, hk⟩ := hjoin.2 m after hm
    exact ⟨_, .assign ht hk⟩
  | fnDecl ht ho hp hc hb =>
    simp only [List.length_cons] at hl
    exact .inl (fnDecl_accepted hN ht ho hp hc hb (by omega) hr)
  | whileLoop ht he hb =>
    exact .inl (whileLoop_accepted hN ht he hb (Nat.lt_of_succ_lt_succ hl) hr)
  | forLoop ht hi ho hlow hw hhigh hc hb =>
    simp only [List.length_cons] at hl
    exact .inl (forLoop_accepted hN ht hi ho hlow hw hhigh hc hb (by omega) hr)
  | cond h =>
    obtain ⟨m, hm⟩ := h.accepted hN hr (Nat.le_of_lt_succ hl) hf
    cases ts with
    | nil => cases h
    | cons t ts => exact .inl ⟨m, statement_reads_word h.begins hm⟩
  | ret ht h =>
    exact ret_accepted ht h (Nat.lt_trans (Nat.lt_of_succ_lt_succ hl) hr) hf
  | expression h => exact expression_accepted h (Nat.lt_of_lt_of_le hl hr) hf

theorem accepted (hr : N ≤ rounds) : Accepted rounds N := by
  induction N with
  | zero => exact fun ts n rest hl => absurd hl (Nat.not_lt_zero _)
  | succ N ih => exact (ih (Nat.le_of_succ_le hr)).succ hr

/-- Every program that is derivable is read with every budget that is large enough. -/
theorem Program.read (h : Program ts body) :
    ∃ limit, ∀ larger ≥ limit, ∃ ns, program larger ts = .ok ns := by
  obtain ⟨mid, hn, hs⟩ := h
  have hstops : Stops [] := .inr rfl
  have hmid := hn.suffix.length_le
  obtain ⟨ns, hns⟩ := hs.sequence (accepted (Nat.le_refl (ts.length + 1))) hstops _ rfl (by omega)
  have hdrop := hn.dropWhile (hs.nextLine hstops.nextLine).dropNewlines
  have hread := hns.reads_program rfl (ts.length + 1) [] hdrop (Nat.lt_succ_self _)
  obtain ⟨limit, hlimit⟩ := Filter.eventually_atTop.mp hread
  refine ⟨limit, fun larger hle => ⟨ns, ?_⟩⟩
  change Prod.fst <$> programFrom (statement (ts.length + 1) larger) (ts.length + 1) [] ts = _
  have hrun : programFrom (statement (ts.length + 1) larger) (ts.length + 1) [] ts = .ok (ns, []) :=
    hlimit larger hle
  rw [hrun]
  rfl

/-- What is read of tokens without one that ends the input early is derived from all of them. -/
theorem Program.of_read {limit : Nat} (hts : ∀ t ∈ ts, t.kind ≠ .mark .endOfInput)
    (h : program limit ts = .ok body) : Program ts body := by
  obtain ⟨mid, rest, hn, hs, hend⟩ := program_sound h
  cases rest with
  | nil => exact ⟨mid, hn, hs⟩
  | cons t rest =>
    have hsuffix : t :: rest <:+ ts := hs.suffix.trans hn.suffix
    exact absurd hend (hts t (hsuffix.subset (List.mem_cons_self ..)))

end ExScript.Grammar

namespace ExScript

/-- The parser accepts exactly what the grammar derives, and returns a tree of a derivation.  The
limit on nesting is the only reason to refuse a program that is derivable. -/
theorem parser_accepts_grammar (ts : List Token) (hts : ∀ t ∈ ts, t.kind ≠ .mark .endOfInput) :
    (∀ limit body, program limit ts = .ok body → Grammar.Program ts body) ∧
    (∀ p, parseTokens ts = .ok p → Grammar.Program ts p.body) ∧
    ((∃ body, Grammar.Program ts body) →
      (∃ limit, ∀ larger ≥ limit, ∃ body, program larger ts = .ok body) ∧
      ((∃ pos, parseTokens ts = .error (.tooDeep pos)) ∨ ∃ p, parseTokens ts = .ok p)) := by
  refine ⟨fun limit body => .of_read hts, fun p h => ?_, fun ⟨body, h⟩ => ⟨h.read, ?_⟩⟩
  · rw [parseTokens] at h
    cases hp : program nestingLimit ts with
    | error s => rw [hp] at h; cases h
    | ok body =>
      rw [hp] at h
      cases h
      exact .of_read hts hp
  · obtain ⟨limit, hlimit⟩ := h.read
    obtain ⟨ns, hns⟩ := hlimit (max limit nestingLimit) (Nat.le_max_left ..)
    rcases program_agrees ts (Nat.le_max_right limit nestingLimit) with ⟨rest, hdeep⟩ | hagrees
    · refine .inl ⟨ParseError.stopPos ts rest, ?_⟩
      rw [parseTokens, hdeep]
      rfl
    · obtain ⟨pos, hp⟩ := parseTokens_of_program (hagrees.trans hns)
      exact .inr ⟨_, hp⟩

/-- The tokens of `a -1`, which are one statement or two. -/
theorem parser_accepts_grammar_minus :
    let ts : List Token := [⟨.name "a", ⟨1, 1⟩⟩, ⟨.mark (.symbol .minus) "-", ⟨1, 3⟩⟩,
      ⟨.int 1, ⟨1, 4⟩⟩]
    (∀ t ∈ ts, t.kind ≠ .mark .endOfInput) ∧
    Grammar.Program ts [.var ⟨1, 1⟩ "a", .unary ⟨1, 3⟩ .minus (.int ⟨1, 4⟩ 1)] ∧
    (∃ limit, ∀ larger ≥ limit, ∃ body, program larger ts = .ok body) ∧
    ∃ p, parseTokens ts = .ok p := by
  intro ts
  have hts : ∀ t ∈ ts, t.kind ≠ .mark .endOfInput := by decide
  have hone : Grammar.Unary [⟨.int 1, ⟨1, 4⟩⟩] (.int ⟨1, 4⟩ 1) [] := .plain (.primary .int)
  have hsign : Grammar.Unary ts.tail (.unary ⟨1, 3⟩ .minus (.int ⟨1, 4⟩ 1)) [] :=
    .sign (List.mem_cons_of_mem _ (List.mem_cons_self ..)) rfl hone
  have hname : Grammar.Unary ts (.var ⟨1, 1⟩ "a") ts.tail := .plain (.primary .var)
  have hprogram : Grammar.Program ts
      [.var ⟨1, 1⟩ "a", .unary ⟨1, 3⟩ .minus (.int ⟨1, 4⟩ 1)] :=
    ⟨ts, .nil, .cons (.expression (.operand (hname.operand _))) .nil
      (.cons (.expression (.operand (hsign.operand _))) .nil .nil)⟩
  obtain ⟨hread, hparse⟩ := (parser_accepts_grammar ts hts).2.2 ⟨_, hprogram⟩
  refine ⟨hts, hprogram, hread, hparse.resolve_left fun ⟨pos, hdeep⟩ => ?_⟩
  have hok : (parseTokens ts).isOk = true := by rfl
  rw [hdeep] at hok
  cases hok

end ExScript
