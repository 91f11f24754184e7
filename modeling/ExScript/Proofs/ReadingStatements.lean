import ExScript.Proofs.ReadingExpressions

/-!
# Reading spelled statements back

The parser makes a statement of its spelling again if the end of its line follows and no `else`
behind that (`StmtEnd`), and a whole program of the spelling of its statements (`program_ok`).  An
`if` is treated twice, since one that stands alone in an `else` is read by its own rule.
-/

namespace ExScript.Parser

open Node
open Lexeme (ofSymbol ofKeyword newline inParens inBraces separated Begins)

variable {rounds d : Nat} {n : Node} {ts mid rest after : List Token} {body : List Node}

/-! ## What follows a statement -/

/-- The line ends, and behind the line ends stands no `else`. -/
structure StmtEnd (rest : List Token) : Prop where
  endsLine : kindOf rest = .mark .newline
  noElse : elseFollows rest = false

theorem StmtEnd.pull (h : StmtEnd rest) : pull (kindOf rest) = 0 := by
  rw [h.endsLine]
  rfl

/-- What follows the end of a line: another statement, the end of a block or of the input. -/
def NextLine (ts : List Token) : Prop :=
  (kindOf ts).beginsStmt = true ∨ kindOf ts = symbolKind .closeBrace ∨ ts = []

theorem not_newline_of_begins {k : Kind} (h : k.beginsStmt = true) : k ≠ .mark .newline := by
  rintro rfl
  cases h

theorem NextLine.dropNewlines (h : NextLine ts) : ts.dropWhile isNewline = ts := by
  cases ts with
  | nil => rfl
  | cons t ts =>
    have hk : t.kind ≠ .mark .newline := by
      rcases h with h | h | h
      · exact not_newline_of_begins h
      · change kindOf (t :: ts) ≠ _
        rw [h]
        decide
      · cases h
    exact List.dropWhile_cons_of_neg (by simpa [isNewline] using hk)

theorem NextLine.not_else (h : NextLine ts) : kindOf ts ≠ keywordKind .elseWord := by
  rcases h with h | h | rfl
  · rintro heq
    rw [heq] at h
    cases h
  · rw [h]
    decide
  · decide

theorem NextLine.dropLine (h : NextLine ts) (pos : Pos) :
    (⟨newline, pos⟩ :: ts).dropWhile isNewline = ts :=
  (List.dropWhile_cons_of_pos rfl).trans h.dropNewlines

theorem NextLine.stmtEnd (h : NextLine ts) (pos : Pos) : StmtEnd (⟨newline, pos⟩ :: ts) := by
  refine ⟨rfl, decide_eq_false ?_⟩
  rw [h.dropLine]
  exact h.not_else

theorem nextLine_of_body (hw : ∀ n ∈ body, n.WellFormed) (hs : Spelled (bodyLexemes body) ts rest)
    (hr : NextLine rest) : NextLine ts := by
  cases body with
  | nil => exact spelled_nil.mp hs ▸ hr
  | cons n body =>
    obtain ⟨mid, hn, _⟩ := spelled_append.mp hs
    exact .inl (hn.begins (begins_stmtLexemes (hw n (List.mem_cons_self ..))))

/-! ## Bodies -/

def ReadsStmt (rounds : Nat) (n : Node) : Prop :=
  ∀ ⦃d ts rest⦄, Spelled n.stmtLexemes ts rest → StmtEnd rest → n.statementNesting ≤ d →
    ts.length < rounds → Yields (statement rounds d) ts n rest

/-- What the readings of larger trees assume of their statements. -/
structure BodyPart (rounds : Nat) (n : Node) : Prop where
  wellFormed : n.WellFormed
  reads : ReadsStmt rounds n

theorem statementsOf_close (item : Parser Node) (fuel : Nat) (items : List Node) (pos : Pos) :
    statementsOf item (fuel + 1) items (⟨ofSymbol .closeBrace, pos⟩ :: rest) =
      .ok (items.reverse, rest) := rfl

theorem statementsOf_next (item : Parser Node) (fuel : Nat) (items : List Node)
    (h : (kindOf ts).beginsStmt = true) :
    statementsOf item (fuel + 1) items ts =
      (item >>= fun n => skipNewlines >>= fun _ => statementsOf item fuel (n :: items)) ts := by
  rw [statementsOf]
  refine (bind_of_ok (nextKind_apply ..) _).trans ?_
  generalize kindOf ts = k at h
  split
  · cases h
  · cases h
  · rfl

theorem returns_statementsOf (h : ∀ n ∈ body, BodyPart rounds n) (hn : bodyNesting body ≤ d)
    (pos : Pos) : ∀ {ts fuel} (items : List Node),
      Spelled (bodyLexemes body) ts (⟨ofSymbol .closeBrace, pos⟩ :: rest) →
        ts.length < rounds → ts.length < fuel →
          Returns (statementsOf (statement rounds d) fuel items) ts
            (fun ns => ∃ more, ns = items.reverse ++ more ∧ eraseAll more = eraseAll body)
            rest := by
  induction body with
  | nil =>
    intro ts fuel items hs _ hf
    obtain ⟨fuel, rfl⟩ := Nat.exists_eq_succ_of_ne_zero (Nat.ne_zero_of_lt hf)
    cases spelled_nil.mp hs
    exact ⟨_, statementsOf_close .., [], by simp, rfl⟩
  | cons n body ih =>
    intro ts fuel items hs hl hf
    obtain ⟨fuel, rfl⟩ := Nat.exists_eq_succ_of_ne_zero (Nat.ne_zero_of_lt hf)
    obtain ⟨hpart, hparts⟩ := List.forall_mem_cons.mp h
    obtain ⟨hna, hnb⟩ := Nat.max_le.mp hn
    obtain ⟨mid, hstmt, hmid⟩ := spelled_append.mp hs
    obtain ⟨linePos, after, rfl, hbody⟩ := spelled_cons.mp hmid
    have hnext : NextLine after :=
      nextLine_of_body (fun m hm => (hparts m hm).wellFormed) hbody (.inr (.inl rfl))
    have hlen := hstmt.length_le
    simp only [List.length_cons] at hlen
    have hbegins := hstmt.begins (begins_stmtLexemes hpart.wellFormed)
    refine Returns.congr (statementsOf_next _ _ _ hbegins) ?_
    refine Returns.bind (hpart.reads hstmt (hnext.stmtEnd linePos) hna hl) fun m hm => ?_
    refine returns_skipNewlines.bind fun _ _ => ?_
    rw [hnext.dropLine]
    refine (ih hparts hnb (m :: items) hbody (by omega) (by omega)).mono ?_
    rintro _ ⟨more, rfl, hmore⟩
    exact ⟨m :: more, by simp, by rw [eraseAll, eraseAll, hm, hmore]⟩

theorem returns_block (h : ∀ n ∈ body, BodyPart rounds n)
    (hs : Spelled (inBraces (bodyLexemes body)) ts rest)
    (hn : bodyNesting body + 1 ≤ d) (hl : ts.length < rounds) :
    Returns (block rounds d) ts (fun ns => eraseAll ns = eraseAll body) rest := by
  obtain ⟨d, rfl⟩ := Nat.exists_eq_succ_of_ne_zero (Nat.ne_zero_of_lt hn)
  obtain ⟨_, _, rfl, hline⟩ := spelled_cons.mp hs
  obtain ⟨linePos, after, rfl, hafter⟩ := spelled_cons.mp hline
  obtain ⟨mid, hbody, hclose⟩ := spelled_append.mp hafter
  obtain ⟨closePos, _, rfl, hnil⟩ := spelled_cons.mp hclose
  cases spelled_nil.mp hnil
  simp only [List.length_cons] at hl
  have hnext : NextLine after :=
    nextLine_of_body (fun m hm => (h m hm).wellFormed) hbody (.inr (.inl rfl))
  refine (returns_expectSymbol _ _).bind fun _ _ => returns_skipNewlines.bind fun _ _ => ?_
  rw [hnext.dropLine]
  refine (returns_statementsOf h (Nat.le_of_succ_le_succ hn) closePos [] hbody (by omega)
    (by omega)).mono ?_
  rintro _ ⟨more, rfl, hmore⟩
  exact hmore

/-! ## Statements -/

theorem statement_expression (hb : (kindOf ts).beginsExpr = true)
    (hne : kindOf ts.tail ≠ symbolKind .assign) :
    statement rounds (d + 1) ts = expression rounds d ts := by
  rw [statement]
  refine (bind_of_ok (nextKind_apply ..) _).trans ?_
  refine (bind_of_ok (secondKind_apply ..) _).trans ?_
  generalize kindOf ts = k at hb
  generalize kindOf ts.tail = k' at hne
  split
  · exact absurd rfl hne
  all_goals first | rfl | cases hb

/-- The second token of an expression, or the first one behind it. -/
theorem second_not_assign {ls : List Lexeme} (hs : Spelled ls ts rest) (hne : ls ≠ [])
    (h : NoAssign ls) (hr : kindOf rest ≠ symbolKind .assign) :
    kindOf ts.tail ≠ symbolKind .assign := by
  obtain ⟨first, more, rfl⟩ := List.exists_cons_of_ne_nil hne
  obtain ⟨_, after, rfl, hafter⟩ := spelled_cons.mp hs
  cases more with
  | nil => exact spelled_nil.mp hafter ▸ hr
  | cons second more =>
    obtain ⟨_, _, rfl, _⟩ := spelled_cons.mp hafter
    exact h second (List.mem_cons_of_mem _ (List.mem_cons_self ..))

theorem expression_reads (hw : n.WellFormed) (he : n.isExpr = true) : ReadsStmt rounds n := by
  intro d ts rest hs hend hn hl
  rw [stmtLexemes_of_isExpr he] at hs
  rw [statementNesting, statementBudget, if_pos he] at hn
  obtain ⟨d, rfl⟩ := Nat.exists_eq_succ_of_ne_zero (Nat.ne_zero_of_lt hn)
  have hbegins := (begins_exprLexemes hw he).1
  have hne : n.exprLexemes ≠ [] := by
    obtain ⟨l, more, heq, _⟩ := hbegins
    rw [heq]
    exact List.cons_ne_nil _ _
  have hsecond := second_not_assign hs hne (noAssign_exprLexemes hw he)
    (by rw [hend.endsLine]; decide)
  refine Returns.congr (statement_expression (hs.begins hbegins) hsecond) ?_
  exact (readsAll rounds hw he).expr.expression hw hs hend.pull (Nat.le_of_succ_le_succ hn) hl

/-- A rule of its own reads a statement that is no expression. -/
def ReadsRule (rounds : Nat) (rule : Nat → Parser Node) (n : Node) : Prop :=
  ∀ ⦃d ts rest⦄, Spelled n.stmtLexemes ts rest → StmtEnd rest → n.nesting ≤ d →
    ts.length < rounds → Yields (rule d) ts n rest

theorem ReadsRule.stmt {rule : Nat → Parser Node} (h : ReadsRule rounds rule n)
    (he : n.isExpr = false)
    (hstart : ∀ {d ts rest}, Spelled n.stmtLexemes ts rest →
      statement rounds (d + 1) ts = rule d ts) : ReadsStmt rounds n := by
  intro d ts rest hs hend hn hl
  rw [statementNesting, statementBudget, he, if_neg Bool.false_ne_true] at hn
  obtain ⟨d, rfl⟩ := Nat.exists_eq_succ_of_ne_zero (Nat.ne_zero_of_lt hn)
  exact Returns.congr (hstart hs) (h hs hend (Nat.le_of_succ_le_succ hn) hl)

theorem assign_rule {pos : Pos} {name : String} {value : Node} (h : ReadsStmt rounds value) :
    ReadsRule rounds (assignment rounds) (.assign pos name value) := by
  intro d ts rest hs hend hn hl
  rw [stmtLexemes] at hs
  obtain ⟨_, _, rfl, hassign⟩ := spelled_cons.mp hs
  obtain ⟨_, after, rfl, hvalue⟩ := spelled_cons.mp hassign
  rw [nesting] at hn
  obtain ⟨d, rfl⟩ := Nat.exists_eq_succ_of_ne_zero (Nat.ne_zero_of_lt hn)
  simp only [List.length_cons] at hl
  refine returns_nextPos.bind fun _ _ => (returns_expectName _ _ _).bind ?_
  rintro _ rfl
  refine (returns_expectSymbol _ _).bind fun _ _ => ?_
  have hinner := h hvalue hend (Nat.le_of_succ_le_succ hn) (by omega)
  refine Returns.bind hinner fun m hm => ⟨_, rfl, ?_⟩
  simp only [erase, hm]

theorem ret_rule {pos : Pos} {value : Node} (hw : value.WellFormed) (he : value.isExpr = true) :
    ReadsRule rounds (ret rounds) (.ret pos value) := by
  intro d ts rest hs hend hn hl
  rw [stmtLexemes] at hs
  obtain ⟨_, after, rfl, hvalue⟩ := spelled_cons.mp hs
  rw [nesting] at hn
  obtain ⟨d, rfl⟩ := Nat.exists_eq_succ_of_ne_zero (Nat.ne_zero_of_lt hn)
  have hread := (readsAll rounds hw he).expr.expression hw hvalue hend.pull
    (Nat.le_of_succ_le_succ hn) (Nat.lt_of_succ_lt hl)
  refine returns_nextPos.bind fun _ _ => (returns_expectKeyword _ _).bind fun _ _ => ?_
  refine Returns.bind hread fun m hm => ⟨_, rfl, ?_⟩
  simp only [erase, hm]

theorem forall₂_params (params : List String) :
    List.Forall₂ (ReadsItem rounds (expectName .parameterName) Eq)
      (params.map fun p => [.name p]) params := by
  refine List.forall₂_map_left_iff.mpr (List.forall₂_same.mpr fun p _ => ⟨⟨_, _, rfl, rfl⟩, ?_⟩)
  intro ts rest hs _ _
  obtain ⟨_, _, rfl, hnil⟩ := spelled_cons.mp hs
  cases spelled_nil.mp hnil
  exact returns_expectName _ _ _

theorem fnDecl_rule {pos : Pos} {name : String} {params : List String}
    (h : ∀ n ∈ body, BodyPart rounds n) :
    ReadsRule rounds (fnDecl rounds) (.fnDecl pos name params body) := by
  intro d ts rest hs _ hn hl
  rw [stmtLexemes] at hs
  obtain ⟨_, _, rfl, hname⟩ := spelled_cons.mp hs
  obtain ⟨_, _, rfl, hcall⟩ := spelled_cons.mp hname
  obtain ⟨mid, hparens, hbody⟩ := spelled_append.mp hcall
  obtain ⟨_, inside, rfl, hinside⟩ := spelled_cons.mp hparens
  obtain ⟨_, hparams, hclose⟩ := spelled_append.mp hinside
  obtain ⟨_, _, rfl, hnil⟩ := spelled_cons.mp hclose
  cases spelled_nil.mp hnil
  rw [nesting] at hn
  obtain ⟨d, rfl⟩ := Nat.exists_eq_succ_of_ne_zero (Nat.ne_zero_of_lt hn)
  have hlen := hparams.length_le
  simp only [List.length_cons] at hl hlen
  refine returns_nextPos.bind fun _ _ => (returns_expectKeyword _ _).bind fun _ _ => ?_
  refine (returns_expectName _ _ _).bind ?_
  rintro _ rfl
  refine (returns_expectSymbol _ _).bind fun _ _ => ?_
  refine (returns_listOf (forall₂_params params) rfl hparams (by omega)).bind fun ps hps => ?_
  refine (returns_expectSymbol _ _).bind fun _ _ => ?_
  have hblock := returns_block h hbody (Nat.le_of_succ_le_succ hn) (by omega)
  refine hblock.bind fun m hm => ⟨_, rfl, ?_⟩
  cases List.forall₂_eq_eq_eq ▸ hps
  simp only [erase, hm]

theorem whileLoop_rule {pos : Pos} {test : Node} (hw : test.WellFormed) (he : test.isExpr = true)
    (h : ∀ n ∈ body, BodyPart rounds n) :
    ReadsRule rounds (whileLoop rounds) (.whileLoop pos test body) := by
  intro d ts rest hs _ hn hl
  rw [stmtLexemes] at hs
  obtain ⟨_, after, rfl, hafter⟩ := spelled_cons.mp hs
  obtain ⟨mid, htest, hbody⟩ := spelled_append.mp hafter
  rw [nesting] at hn
  obtain ⟨d, rfl⟩ := Nat.exists_eq_succ_of_ne_zero (Nat.ne_zero_of_lt hn)
  obtain ⟨hnt, hnb⟩ := Nat.max_le.mp (Nat.le_of_succ_le_succ hn)
  have hlen := htest.length_le
  simp only [List.length_cons] at hl
  have hbrace : pull (kindOf mid) = 0 := by
    obtain ⟨_, _, rfl, _⟩ := spelled_cons.mp hbody
    rfl
  have hread := (readsAll rounds hw he).expr.expression hw htest hbrace hnt (by omega)
  refine returns_nextPos.bind fun _ _ => (returns_expectKeyword _ _).bind fun _ _ => ?_
  refine Returns.bind hread fun t ht => ?_
  refine (returns_block h hbody hnb (by omega)).bind fun m hm => ⟨_, rfl, ?_⟩
  simp only [erase, ht, hm]

theorem forLoop_rule {pos : Pos} {x : String} {low high : Node}
    (hw : (Node.forLoop pos x low high body).WellFormed) (h : ∀ n ∈ body, BodyPart rounds n) :
    ReadsRule rounds (forLoop rounds) (.forLoop pos x low high body) := by
  intro d ts rest hs _ hn hl
  obtain ⟨_, hle, hhe⟩ := hw.proper
  have hlw : low.WellFormed := hw.child (List.mem_cons_self ..)
  have hhw : high.WellFormed := hw.child (List.mem_cons_of_mem _ (List.mem_cons_self ..))
  rw [stmtLexemes] at hs
  obtain ⟨_, _, rfl, hname⟩ := spelled_cons.mp hs
  obtain ⟨_, _, rfl, hin⟩ := spelled_cons.mp hname
  obtain ⟨_, _, rfl, hopen⟩ := spelled_cons.mp hin
  obtain ⟨_, after, rfl, hrange⟩ := spelled_cons.mp hopen
  obtain ⟨_, hlow, hcomma⟩ := spelled_append.mp hrange
  obtain ⟨_, second, rfl, hsecond⟩ := spelled_cons.mp hcomma
  obtain ⟨_, hhigh, hclose⟩ := spelled_append.mp hsecond
  obtain ⟨_, last, rfl, hbody⟩ := spelled_cons.mp hclose
  rw [nesting] at hn
  obtain ⟨d, rfl⟩ := Nat.exists_eq_succ_of_ne_zero (Nat.ne_zero_of_lt hn)
  obtain ⟨hnl, hn⟩ := Nat.max_le.mp (Nat.le_of_succ_le_succ hn)
  obtain ⟨hnh, hnb⟩ := Nat.max_le.mp hn
  have hlen := hlow.length_le
  have hlen' := hhigh.length_le
  simp only [List.length_cons] at hl hlen hlen'
  have hreadLow := (readsAll rounds hlw hle).expr.expression hlw hlow rfl hnl (by omega)
  have hreadHigh := (readsAll rounds hhw hhe).expr.expression hhw hhigh rfl hnh (by omega)
  refine returns_nextPos.bind fun _ _ => (returns_expectKeyword _ _).bind fun _ _ => ?_
  refine (returns_expectName _ _ _).bind ?_
  rintro _ rfl
  refine (returns_expectKeyword _ _).bind fun _ _ => (returns_expectSymbol _ _).bind fun _ _ => ?_
  refine Returns.bind hreadLow fun a ha => (returns_expectSymbol _ _).bind fun _ _ => ?_
  refine Returns.bind hreadHigh fun b hb => (returns_expectSymbol _ _).bind fun _ _ => ?_
  refine (returns_block h hbody hnb (by omega)).bind fun m hm => ⟨_, rfl, ?_⟩
  simp only [erase, ha, hb, hm]

/-! ## Branches -/

/-- What the reading of an `if` assumes of an `else`: an `if` that stands alone in it has a rule of
its own. -/
structure ElsePart (rounds : Nat) (body : List Node) : Prop where
  parts : ∀ n ∈ body, BodyPart rounds n
  alone : ∀ pos test thenBody elseBody, body = [.cond pos test thenBody elseBody] →
    ReadsRule rounds (cond rounds) (.cond pos test thenBody elseBody)

/-- What the rule of an `if` does behind its block. -/
def branch (rounds d : Nat) (build : Option (List Node) → Node) : Parser Node := do
  if elseFollows (← get) then
    skipNewlines
    advance
    if (← nextKind) = keywordKind .ifWord then return build (some [← cond rounds d])
    else return build (some (← block rounds d))
  else return build none

theorem cond_succ (rounds d : Nat) : cond rounds (d + 1) = (do
    let pos ← nextPos
    expectKeyword .ifWord
    let test ← expression rounds d
    let thenBody ← block rounds d
    branch rounds d (Node.cond pos test thenBody)) := rfl

theorem returns_branch (h : ElsePart rounds body) (build : Option (List Node) → Node)
    (hs : Spelled (elseLexemes (some body)) ts rest) (hend : StmtEnd rest)
    (hn : elseNesting (some body) ≤ d) (hl : ts.length < rounds) :
    Returns (branch rounds d build) ts
      (fun m => ∃ other, m = build (some other) ∧ eraseAll other = eraseAll body) rest := by
  have hfollows (after : List Token) (pos : Pos) :
      elseFollows (⟨ofKeyword .elseWord, pos⟩ :: after) = true := rfl
  have hword (after : List Token) (pos : Pos) :
      kindOf (⟨ofKeyword .elseWord, pos⟩ :: after) = keywordKind .elseWord := rfl
  have hdrop (after : List Token) (pos : Pos) :
      (⟨ofKeyword .elseWord, pos⟩ :: after : List Token).dropWhile isNewline =
        ⟨ofKeyword .elseWord, pos⟩ :: after := rfl
  by_cases halone : ∃ pos test thenBody elseBody, body = [.cond pos test thenBody elseBody]
  · obtain ⟨ipos, itest, ithen, ielse, rfl⟩ := halone
    rw [elseLexemes_cond] at hs
    rw [elseNesting_cond] at hn
    obtain ⟨_, after, rfl, hcond⟩ := spelled_cons.mp hs
    have hif : kindOf after = keywordKind .ifWord := by
      rw [stmtLexemes] at hcond
      obtain ⟨_, _, rfl, _⟩ := spelled_cons.mp hcond
      rfl
    have hread := h.alone _ _ _ _ rfl hcond hend hn (Nat.lt_of_succ_lt hl)
    refine returns_get.bind ?_
    rintro _ rfl
    rw [hfollows, if_pos rfl]
    refine returns_skipNewlines.bind fun _ _ => ?_
    rw [hdrop]
    refine (returns_advance (keyword_ne_end (hword _ _))).bind fun _ _ => returns_nextKind.bind ?_
    rintro _ rfl
    rw [if_pos (by exact hif)]
    refine Returns.bind hread fun m hm => ⟨_, rfl, [m], rfl, ?_⟩
    simp only [eraseAll, hm]
  · have hne (pos : Pos) (test : Node) (thenBody : List Node) (elseBody : Option (List Node)) :
        body ≠ [.cond pos test thenBody elseBody] := fun heq => halone ⟨_, _, _, _, heq⟩
    rw [elseLexemes_block hne] at hs
    rw [elseNesting_block hne] at hn
    obtain ⟨_, after, rfl, hblock⟩ := spelled_cons.mp hs
    have hif : kindOf after ≠ keywordKind .ifWord := by
      obtain ⟨_, _, rfl, _⟩ := spelled_cons.mp hblock
      exact (by decide : symbolKind .openBrace ≠ keywordKind .ifWord)
    refine returns_get.bind ?_
    rintro _ rfl
    rw [hfollows, if_pos rfl]
    refine returns_skipNewlines.bind fun _ _ => ?_
    rw [hdrop]
    refine (returns_advance (keyword_ne_end (hword _ _))).bind fun _ _ => returns_nextKind.bind ?_
    rintro _ rfl
    rw [if_neg (by exact hif)]
    exact (returns_block h.parts hblock hn (Nat.lt_of_succ_lt hl)).bind
      fun other hother => ⟨_, rfl, other, rfl, hother⟩

theorem returns_branch_none (build : Option (List Node) → Node) (hend : StmtEnd ts) :
    Returns (branch rounds d build) ts (· = build none) ts := by
  refine returns_get.bind ?_
  rintro _ rfl
  rw [hend.noElse, if_neg Bool.false_ne_true]
  exact ⟨_, rfl, rfl⟩

theorem cond_rule {pos : Pos} {test : Node} {thenBody : List Node} {elseBody : Option (List Node)}
    (hw : test.WellFormed) (he : test.isExpr = true) (h : ∀ n ∈ thenBody, BodyPart rounds n)
    (helse : ∀ body, elseBody = some body → ElsePart rounds body) :
    ReadsRule rounds (cond rounds) (.cond pos test thenBody elseBody) := by
  intro d ts rest hs hend hn hl
  rw [stmtLexemes] at hs
  obtain ⟨_, after, rfl, hafter⟩ := spelled_cons.mp hs
  obtain ⟨mid, htest, hmid⟩ := spelled_append.mp hafter
  obtain ⟨last, hblock, hlast⟩ := spelled_append.mp hmid
  rw [nesting] at hn
  obtain ⟨d, rfl⟩ := Nat.exists_eq_succ_of_ne_zero (Nat.ne_zero_of_lt hn)
  obtain ⟨hnt, hn⟩ := Nat.max_le.mp (Nat.le_of_succ_le_succ hn)
  obtain ⟨hnb, hne⟩ := Nat.max_le.mp hn
  have hlen := htest.length_le
  have hlen' := hblock.length_le
  simp only [List.length_cons] at hl
  have hbrace : pull (kindOf mid) = 0 := by
    obtain ⟨_, _, rfl, _⟩ := spelled_cons.mp hblock
    rfl
  have hread := (readsAll rounds hw he).expr.expression hw htest hbrace hnt (by omega)
  refine Returns.congr (by rw [cond_succ]) ?_
  refine returns_nextPos.bind fun _ _ => (returns_expectKeyword _ _).bind fun _ _ => ?_
  refine Returns.bind hread fun t ht => ?_
  refine (returns_block h hblock hnb (by omega)).bind fun b hb => ?_
  cases elseBody with
  | none =>
    cases spelled_nil.mp hlast
    refine (returns_branch_none _ hend).mono ?_
    rintro _ rfl
    simp only [erase, ht, hb]
  | some body =>
    refine (returns_branch (helse body rfl) _ hlast hend hne (by omega)).mono ?_
    rintro _ ⟨other, rfl, hother⟩
    simp only [erase, eraseElse, ht, hb, hother]

/-! ## All statements -/

/-- Every well-formed statement is read back from its spelling; an `if` by its own rule as well. -/
theorem stmt_reads (rounds : Nat) (hw : n.WellFormed) : ReadsStmt rounds n ∧
    ∀ pos test thenBody elseBody, n = .cond pos test thenBody elseBody →
      ReadsRule rounds (cond rounds) n := by
  induction n using childInduction with
  | step n ih =>
  have child {m : Node} (hm : m ∈ n.children) : BodyPart rounds m :=
    ⟨hw.child hm, (ih m hm (hw.child hm)).1⟩
  have noCond (hread : ReadsStmt rounds n)
      (hne : ∀ pos test thenBody elseBody, n ≠ .cond pos test thenBody elseBody) :
      ReadsStmt rounds n ∧ ∀ pos test thenBody elseBody, n = .cond pos test thenBody elseBody →
        ReadsRule rounds (cond rounds) n :=
    ⟨hread, fun _ _ _ _ heq => absurd heq (hne _ _ _ _)⟩
  cases n with
  | assign pos name value =>
    refine noCond ((assign_rule (child (List.mem_cons_self ..)).reads).stmt rfl fun hs => ?_) nofun
    obtain ⟨_, _, rfl, hassign⟩ := spelled_cons.mp hs
    obtain ⟨_, _, rfl, _⟩ := spelled_cons.mp hassign
    rfl
  | fnDecl pos name params body =>
    refine noCond ((fnDecl_rule fun n hn => child hn).stmt rfl fun hs => ?_) nofun
    obtain ⟨_, _, rfl, _⟩ := spelled_cons.mp hs
    rfl
  | ret pos value =>
    refine noCond ((ret_rule (hw.child (List.mem_cons_self ..)) hw.proper).stmt rfl fun hs => ?_)
      nofun
    obtain ⟨_, _, rfl, _⟩ := spelled_cons.mp hs
    rfl
  | cond pos test thenBody elseBody =>
    have hrule : ReadsRule rounds (cond rounds) (.cond pos test thenBody elseBody) := by
      refine cond_rule (hw.child (List.mem_cons_self ..)) hw.proper (fun n hn => child ?_) ?_
      · exact List.mem_cons_of_mem _ (List.mem_append_left _ hn)
      · rintro body rfl
        have hmem (n : Node) (hn : n ∈ body) :
            n ∈ (Node.cond pos test thenBody (some body)).children :=
          List.mem_cons_of_mem _ (List.mem_append_right _ hn)
        refine ⟨fun n hn => child (hmem n hn), ?_⟩
        rintro ipos itest ithen ielse rfl
        have hm := hmem _ (List.mem_singleton.mpr rfl)
        exact (ih _ hm (hw.child hm)).2 _ _ _ _ rfl
    refine ⟨hrule.stmt rfl fun hs => ?_, fun _ _ _ _ _ => hrule⟩
    obtain ⟨_, _, rfl, _⟩ := spelled_cons.mp hs
    rfl
  | whileLoop pos test body =>
    refine noCond ((whileLoop_rule (hw.child (List.mem_cons_self ..)) hw.proper fun n hn =>
      child (List.mem_cons_of_mem _ hn)).stmt rfl fun hs => ?_) nofun
    obtain ⟨_, _, rfl, _⟩ := spelled_cons.mp hs
    rfl
  | forLoop pos x low high body =>
    refine noCond ((forLoop_rule hw fun n hn =>
      child (List.mem_cons_of_mem _ (List.mem_cons_of_mem _ hn))).stmt rfl fun hs => ?_) nofun
    obtain ⟨_, _, rfl, _⟩ := spelled_cons.mp hs
    rfl
  | block => exact hw.proper.elim
  | unknown => exact hw.proper.elim
  | _ => exact noCond (expression_reads hw rfl) nofun

/-! ## Programs -/

theorem programFrom_end (item : Parser Node) (fuel : Nat) (items : List Node) (pos : Pos) :
    programFrom item (fuel + 1) items [⟨newline, pos⟩] = .ok (items.reverse, []) := rfl

theorem programFrom_line (item : Parser Node) (fuel : Nat) (items : List Node) (pos : Pos) :
    programFrom item (fuel + 1) items (⟨newline, pos⟩ :: ts) =
      programFrom item (fuel + 1) items ts := rfl

theorem programFrom_next (item : Parser Node) (fuel : Nat) (items : List Node)
    (h : (kindOf ts).beginsStmt = true) :
    programFrom item (fuel + 1) items ts =
      (item >>= fun n => programFrom item fuel (n :: items)) ts := by
  have hnext : NextLine ts := .inl h
  have hend : kindOf ts ≠ .mark .endOfInput := by
    intro heq
    rw [heq] at h
    cases h
  refine (bind_of_ok (skipNewlines_apply ..) _).trans ?_
  rw [hnext.dropNewlines]
  refine (bind_of_ok (nextKind_apply ..) _).trans ?_
  rw [if_neg hend]

/-- The statements of a program stand on lines of their own, and a line end follows the last one. -/
theorem returns_programFrom (h : ∀ n ∈ body, BodyPart rounds n) (hn : bodyNesting body ≤ d)
    (pos : Pos) : ∀ {ts fuel} (items : List Node),
      Spelled (bodyLexemes body) ts [⟨newline, pos⟩] → ts.length < rounds → ts.length < fuel →
        Returns (programFrom (statement rounds d) fuel items) ts
          (fun ns => ∃ more, ns = items.reverse ++ more ∧ eraseAll more = eraseAll body) [] := by
  induction body with
  | nil =>
    intro ts fuel items hs _ hf
    obtain ⟨fuel, rfl⟩ := Nat.exists_eq_succ_of_ne_zero (Nat.ne_zero_of_lt hf)
    cases spelled_nil.mp hs
    exact ⟨_, programFrom_end .., [], by simp, rfl⟩
  | cons n body ih =>
    intro ts fuel items hs hl hf
    obtain ⟨fuel, rfl⟩ := Nat.exists_eq_succ_of_ne_zero (Nat.ne_zero_of_lt hf)
    obtain ⟨hpart, hparts⟩ := List.forall_mem_cons.mp h
    obtain ⟨hna, hnb⟩ := Nat.max_le.mp hn
    obtain ⟨mid, hstmt, hmid⟩ := spelled_append.mp hs
    obtain ⟨linePos, after, rfl, hbody⟩ := spelled_cons.mp hmid
    have hend : StmtEnd (⟨newline, linePos⟩ :: after) := by
      cases body with
      | nil =>
        cases spelled_nil.mp hbody
        exact ⟨rfl, rfl⟩
      | cons m body =>
        obtain ⟨_, hm, _⟩ := spelled_append.mp hbody
        have hw := (hparts m (List.mem_cons_self ..)).wellFormed
        have hnext : NextLine after := .inl (hm.begins (begins_stmtLexemes hw))
        exact hnext.stmtEnd linePos
    have hlen := hstmt.length_le
    simp only [List.length_cons] at hlen
    have hbegins := hstmt.begins (begins_stmtLexemes hpart.wellFormed)
    refine Returns.congr (programFrom_next _ _ _ hbegins) ?_
    refine Returns.bind (hpart.reads hstmt hend hna hl) fun m hm => ?_
    have hfuel : after.length < fuel := by omega
    obtain ⟨fuel, rfl⟩ := Nat.exists_eq_succ_of_ne_zero (Nat.ne_zero_of_lt hfuel)
    refine Returns.congr (programFrom_line ..) ?_
    refine (ih hparts hnb (m :: items) hbody (by omega) hfuel).mono ?_
    rintro _ ⟨more, rfl, hmore⟩
    exact ⟨m :: more, by simp, by rw [eraseAll, eraseAll, hm, hmore]⟩

/-- The parser makes a program of its spelling again if its limit covers the nesting. -/
theorem program_ok {limit : Nat} (hw : ∀ n ∈ body, n.WellFormed) (hn : bodyNesting body ≤ limit)
    (hs : ts.map Token.lexeme = bodyLexemes body ++ [newline]) :
    ∃ body', program limit ts = .ok body' ∧ eraseAll body' = eraseAll body := by
  have hall : Spelled (bodyLexemes body ++ [newline]) ts [] := ⟨ts, by simp, hs⟩
  obtain ⟨mid, hbody, hline⟩ := spelled_append.mp hall
  obtain ⟨pos, _, rfl, hnil⟩ := spelled_cons.mp hline
  cases spelled_nil.mp hnil
  have hparts (n : Node) (hn : n ∈ body) : BodyPart (ts.length + 1) n :=
    ⟨hw n hn, (stmt_reads _ (hw n hn)).1⟩
  obtain ⟨ns, hrun, more, hns, hmore⟩ := returns_programFrom hparts hn pos [] hbody
    (Nat.lt_succ_self _) (Nat.lt_succ_self _)
  refine ⟨ns, ?_, hns ▸ hmore⟩
  rw [program, StateT.run', hrun]
  rfl

end ExScript.Parser
