import ExScript.Proofs.LargerBudget
import ExScript.Proofs.Loops
import ExScript.Proofs.ViablePrefix

/-!
# The parser ends by itself

Two numbers limit the parser: the rounds of its repetitions and the rules that are active at a time.
It would end without them.  At most ten rules are entered before a token is taken (`Rule.height`),
so that a budget of ten for each token, and ten more, is not used up.  Under all limits that are as
large as this, or larger, a rule gives the same (`Terminates`).
-/

namespace ExScript.Parser

variable {α β σ : Type} {ts rest : List Token}

/-! ## Results that no limit decides -/

/-- On the tokens both parsers do the same, and they do not find them too deep. -/
structure Settled (p q : Parser α) (ts : List Token) : Prop where
  same : p ts = q ts
  shallow : ¬ TooDeep (p ts)

variable {p q : Parser α} {f g : α → Parser β}

theorem Settled.bind (h : Settled p q ts) (hf : Ensures p ts fun a mid => Settled (f a) (g a) mid) :
    Settled (p >>= f) (q >>= g) ts := by
  cases hp : p ts with
  | error s =>
    have hq : q ts = .error s := h.same.symm.trans hp
    refine ⟨(bind_of_error hp f).trans (bind_of_error hq g).symm, ?_⟩
    rw [bind_of_error hp]
    rintro ⟨rest, ⟨⟩⟩
    exact h.shallow ⟨rest, hp⟩
  | ok x =>
    obtain ⟨a, mid⟩ := x
    have hq : q ts = .ok (a, mid) := h.same.symm.trans hp
    have hnext := hf hp
    refine ⟨(bind_of_ok hp f).trans (hnext.same.trans (bind_of_ok hq g).symm), ?_⟩
    rw [bind_of_ok hp]
    exact hnext.shallow

/-- A step that is the same in both. -/
theorem Settled.after {p : Parser α} (h : ¬ TooDeep (p ts))
    (hf : Ensures p ts fun a mid => Settled (f a) (g a) mid) : Settled (p >>= f) (p >>= g) ts :=
  Settled.bind ⟨rfl, h⟩ hf

theorem settled_pure (a : α) : Settled (pure a) (pure a) ts := ⟨rfl, nofun⟩

theorem settled_stop (expected : Expected) :
    Settled (stop expected : Parser α) (stop expected) ts := ⟨rfl, nofun⟩

/-- What is returned is only built into a tree. -/
theorem Settled.map (h : Settled p q ts) (build : α → β) :
    Settled (p >>= fun a => pure (build a)) (q >>= fun a => pure (build a)) ts :=
  h.bind fun a _ _ => settled_pure (build a)

theorem settled_nextKind {f g : Kind → Parser β} (h : Settled (f (kindOf ts)) (g (kindOf ts)) ts) :
    Settled (nextKind >>= f) (nextKind >>= g) ts := .after nofun (ensures_nextKind h)

theorem settled_secondKind {f g : Kind → Parser β}
    (h : Settled (f (kindOf ts.tail)) (g (kindOf ts.tail)) ts) :
    Settled (secondKind >>= f) (secondKind >>= g) ts := .after nofun (ensures_secondKind h)

theorem settled_nextPos {f g : Pos → Parser β} (h : ∀ pos, Settled (f pos) (g pos) ts) :
    Settled (nextPos >>= f) (nextPos >>= g) ts := .after nofun (ensures_nextPos (h _))

theorem settled_advance {f g : Unit → Parser β} (h : Settled (f ()) (g ()) (behindNext ts)) :
    Settled (advance >>= f) (advance >>= g) ts := by
  refine .after nofun ?_
  rintro _ _ ⟨⟩
  exact h

theorem settled_skipNewlines {f g : Unit → Parser β}
    (h : Settled (f ()) (g ()) (ts.dropWhile isNewline)) :
    Settled (skipNewlines >>= f) (skipNewlines >>= g) ts :=
  .after nofun (ensures_skipNewlines fun _ => h)

theorem shallow_expect (kind : Kind) : ¬ TooDeep (expect kind ts) := by
  change ¬ TooDeep ((if kindOf ts = kind then advance else stop (.kind kind)) ts)
  split <;> exact nofun

theorem settled_expectSymbol (s : Symbol) {f g : Unit → Parser β}
    (h : ∀ mid, mid.length < ts.length → Settled (f ()) (g ()) mid) :
    Settled (expectSymbol s >>= f) (expectSymbol s >>= g) ts :=
  .after (shallow_expect _) ((shortens_expectSymbol s ts).mono fun _ mid hless => h mid hless)

theorem settled_expectKeyword (k : Keyword) {f g : Unit → Parser β}
    (h : ∀ mid, mid.length < ts.length → Settled (f ()) (g ()) mid) :
    Settled (expectKeyword k >>= f) (expectKeyword k >>= g) ts :=
  .after (shallow_expect _) ((shortens_expectKeyword k ts).mono fun _ mid hless => h mid hless)

theorem shallow_expectName (expected : Expected) : ¬ TooDeep (expectName expected ts) := by
  rcases ts with _ | ⟨⟨lexeme, pos⟩, rest⟩
  · exact nofun
  · cases lexeme <;> exact nofun

theorem settled_expectName (expected : Expected) {f g : String → Parser β}
    (h : ∀ name mid, mid.length < ts.length → Settled (f name) (g name) mid) :
    Settled (expectName expected >>= f) (expectName expected >>= g) ts :=
  .after (shallow_expectName expected) ((shortens_expectName expected ts).mono h)

/-- Loops whose passes do the same do the same, with any numbers of rounds above that of the
tokens. -/
theorem Limited.settled {pass pass' : σ → Parser (Pass σ α)} {P P' : Nat → σ → Parser α}
    (hP : Limited pass P) (hP' : Limited pass' P')
    (h : ∀ s mid, mid.length ≤ ts.length → Settled (pass s) (pass' s) mid) (n : Nat) :
    ∀ m s mid, mid.length ≤ ts.length → mid.length < n → mid.length < m →
      Settled (P n s) (P' m s) mid := by
  induction n with
  | zero => exact fun m s mid _ hn => absurd hn (Nat.not_lt_zero _)
  | succ n ih =>
    intro m s mid hle hn hm
    cases m with
    | zero => exact absurd hm (Nat.not_lt_zero _)
    | succ m =>
      rw [hP.step, hP'.step]
      refine (h s mid hle).bind ((hP.takes s mid).mono fun next rest hless => ?_)
      cases next with
      | leave a => exact settled_pure a
      | again s' =>
        have htaken := hless s' rfl
        exact ih m s' rest (by omega) (by omega) (by omega)

/-! ## Passes -/

theorem settled_commaPass (h : ∀ mid, mid.length ≤ ts.length → Settled p q mid) (items : List α) :
    Settled (commaPass p items) (commaPass q items) ts := by
  refine settled_nextKind ?_
  split
  · exact settled_advance ((h _ (behindNext_suffix ts).length_le).map _)
  · exact settled_pure _

section Passes

variable {p q : Parser Node} (h : ∀ mid, mid.length ≤ ts.length → Settled p q mid)

include h

theorem settled_statementPass (items : List Node) :
    Settled (statementPass p items) (statementPass q items) ts := by
  refine settled_nextKind ?_
  generalize kindOf ts = k
  split
  · exact settled_advance (settled_pure _)
  · exact settled_stop _
  · refine (h ts (Nat.le_refl _)).bind fun n mid _ => settled_skipNewlines (settled_pure _)

theorem settled_operatorPass (tier : Tier) (left : Node) :
    Settled (operatorPass tier.operator? p left) (operatorPass tier.operator? q left) ts := by
  refine settled_nextKind ?_
  cases tier.operator? (kindOf ts) with
  | some op => exact settled_advance ((h _ (behindNext_suffix ts).length_le).map _)
  | none => exact settled_pure _

theorem settled_programPass (items : List Node) :
    Settled (programPass p items) (programPass q items) ts := by
  refine settled_skipNewlines (settled_nextKind ?_)
  split
  · exact settled_pure _
  · exact (h _ (List.dropWhile_suffix _).length_le).map _

end Passes

theorem settled_methodPass {p q : Parser (List Node)}
    (h : ∀ mid, mid.length < ts.length → Settled p q mid) (s : Bool × Node) :
    Settled (methodPass p s) (methodPass q s) ts := by
  refine settled_nextKind ?_
  split
  · refine settled_advance (settled_expectName _ fun method mid hname => ?_)
    refine settled_expectSymbol _ fun inner hopen => ?_
    have htail := (behindNext_suffix ts).length_le
    refine (h inner (by omega)).bind fun args after _ => ?_
    exact settled_expectSymbol _ fun rest _ => settled_pure _
  · exact settled_pure _

theorem settled_listOf {rounds rounds' : Nat} (h : ∀ mid, mid.length ≤ ts.length → Settled p q mid)
    (hp : Shortens p) (hq : Shortens q) (hr : ts.length < rounds) (hr' : ts.length < rounds') :
    Settled (listOf rounds p) (listOf rounds' q) ts := by
  refine settled_nextKind ?_
  split
  · exact settled_pure _
  · refine (h ts (Nat.le_refl _)).bind ((hp ts).mono fun first mid hless => ?_)
    have hpass : ∀ items after, after.length ≤ ts.length →
        Settled (commaPass p items) (commaPass q items) after :=
      fun items after hle => settled_commaPass (fun _ h' => h _ (Nat.le_trans h' hle)) items
    exact (limited_commaSeparated hp).settled (limited_commaSeparated hq) hpass rounds rounds' _ mid
      (by omega) (by omega) (by omega)

/-! ## Rules -/

/-- How many rules are entered before a token is taken, this one included. -/
def Rule.height : Rule → Nat
  | .statement | .argument => 9
  | .expression => 8
  | .tiered tier => 8 - tier.level
  | .unary => 3
  | .postfixed => 2
  | _ => 1

/-- On at most `N` tokens the rules do not depend on their rounds, if the budget allows for ten
rules a token. -/
structure SettledRules (N rounds rounds' d : Nat) : Prop where
  rule : ∀ (rule : Rule) {ts : List Token}, ts.length ≤ N → 10 * ts.length + rule.height ≤ d →
    Settled (rule.parser rounds d) (rule.parser rounds' d) ts
  block : ∀ {ts : List Token}, ts.length ≤ N → 10 * ts.length + 1 ≤ d →
    Settled (block rounds d) (block rounds' d) ts
  arguments : ∀ {ts : List Token}, ts.length ≤ N → 10 * ts.length + 10 ≤ d →
    Settled (arguments rounds d) (arguments rounds' d) ts

section Rules

variable {N rounds rounds' d : Nat} (ih : SettledRules N rounds rounds' d) (hN : ts.length ≤ N)

include ih hN

theorem settled_statement (h : 10 * ts.length + 9 ≤ d + 1) :
    Settled (statement rounds (d + 1)) (statement rounds' (d + 1)) ts := by
  refine settled_nextKind (settled_secondKind ?_)
  generalize kindOf ts = k
  generalize kindOf ts.tail = l
  split
  · exact ih.rule .assignment hN (show 10 * ts.length + 1 ≤ d by omega)
  · exact ih.rule .fnDecl hN (show 10 * ts.length + 1 ≤ d by omega)
  · exact ih.rule .whileLoop hN (show 10 * ts.length + 1 ≤ d by omega)
  · exact ih.rule .forLoop hN (show 10 * ts.length + 1 ≤ d by omega)
  · exact ih.rule .cond hN (show 10 * ts.length + 1 ≤ d by omega)
  · exact ih.rule .ret hN (show 10 * ts.length + 1 ≤ d by omega)
  · exact settled_stop _
  · exact ih.rule .expression hN (show 10 * ts.length + 8 ≤ d by omega)

theorem settled_assignment (h : 10 * ts.length + 1 ≤ d + 1) :
    Settled (assignment rounds (d + 1)) (assignment rounds' (d + 1)) ts := by
  refine settled_nextPos fun pos => settled_expectName _ fun name mid hname => ?_
  refine settled_expectSymbol _ fun after hassign => ?_
  exact (ih.rule .statement (by omega) (show 10 * after.length + 9 ≤ d by omega)).map _

omit hN in
/-- An expression takes a token, and another phrase comes behind it. -/
theorem settled_expression_bind {mid : List Token} (hmid : mid.length ≤ N)
    (h : 10 * mid.length + 8 ≤ d) {f g : Node → Parser α}
    (hf : ∀ n after, after.length < mid.length → Settled (f n) (g n) after) :
    Settled (expression rounds d >>= f) (expression rounds' d >>= g) mid :=
  (ih.rule .expression hmid h).bind ((Rule.shortens .expression rounds d mid).mono hf)

theorem settled_fnDecl (hr : N < rounds) (hr' : N < rounds') (h : 10 * ts.length + 1 ≤ d + 1) :
    Settled (fnDecl rounds (d + 1)) (fnDecl rounds' (d + 1)) ts := by
  refine settled_nextPos fun pos => settled_expectKeyword _ fun mid hword => ?_
  refine settled_expectName _ fun name after hname => settled_expectSymbol _ fun inner hopen => ?_
  have hlist : Settled (listOf rounds (expectName .parameterName))
      (listOf rounds' (expectName .parameterName)) inner :=
    settled_listOf (fun _ _ => ⟨rfl, shallow_expectName _⟩) (shortens_expectName _)
      (shortens_expectName _) (by omega) (by omega)
  refine hlist.bind ((parameters_sound rounds inner).mono fun params close hparams => ?_)
  have hle := hparams.suffix.length_le
  refine settled_expectSymbol _ fun rest hclose => ?_
  exact (ih.block (by omega) (by omega)).map _

theorem settled_whileLoop (h : 10 * ts.length + 1 ≤ d + 1) :
    Settled (whileLoop rounds (d + 1)) (whileLoop rounds' (d + 1)) ts := by
  refine settled_nextPos fun pos => settled_expectKeyword _ fun mid hword => ?_
  refine settled_expression_bind ih (by omega) (by omega) fun test after htest => ?_
  exact (ih.block (by omega) (by omega)).map _

theorem settled_forLoop (h : 10 * ts.length + 1 ≤ d + 1) :
    Settled (forLoop rounds (d + 1)) (forLoop rounds' (d + 1)) ts := by
  refine settled_nextPos fun pos => settled_expectKeyword _ fun mid hword => ?_
  refine settled_expectName _ fun name after hname => ?_
  refine settled_expectKeyword _ fun inner hin => settled_expectSymbol _ fun first hopen => ?_
  refine settled_expression_bind ih (by omega) (by omega) fun low behind hlow => ?_
  refine settled_expectSymbol _ fun second hcomma => ?_
  refine settled_expression_bind ih (by omega) (by omega) fun high close hhigh => ?_
  refine settled_expectSymbol _ fun rest hclose => ?_
  exact (ih.block (by omega) (by omega)).map _

theorem settled_cond (h : 10 * ts.length + 1 ≤ d + 1) :
    Settled (cond rounds (d + 1)) (cond rounds' (d + 1)) ts := by
  refine settled_nextPos fun pos => settled_expectKeyword _ fun mid hword => ?_
  refine settled_expression_bind ih (by omega) (by omega) fun test after htest => ?_
  refine (ih.block (by omega) (by omega)).bind ?_
  refine ((sound rounds d).block after).mono fun thenBody behind hthen => ?_
  have hbehind := hthen.past.shorter
  refine .after nofun (ensures_get ?_)
  split
  · refine settled_skipNewlines (settled_advance (settled_nextKind ?_))
    have hskip := (List.dropWhile_suffix isNewline (l := behind)).length_le
    have htail := (behindNext_suffix (behind.dropWhile isNewline)).length_le
    split
    · exact (ih.rule .cond (by omega) (show 10 * _ + 1 ≤ d by omega)).map _
    · exact (ih.block (by omega) (by omega)).map _
  · exact settled_pure _

theorem settled_ret (h : 10 * ts.length + 1 ≤ d + 1) :
    Settled (ret rounds (d + 1)) (ret rounds' (d + 1)) ts := by
  refine settled_nextPos fun pos => settled_expectKeyword _ fun mid hword => ?_
  exact (ih.rule .expression (by omega) (show 10 * mid.length + 8 ≤ d by omega)).map _

theorem settled_block (hr : N < rounds) (hr' : N < rounds') (h : 10 * ts.length + 1 ≤ d + 1) :
    Settled (block rounds (d + 1)) (block rounds' (d + 1)) ts := by
  refine settled_expectSymbol _ fun mid hopen => settled_skipNewlines ?_
  have hskip := (List.dropWhile_suffix isNewline (l := mid)).length_le
  have hpass : ∀ items after, after.length ≤ mid.length →
      Settled (statementPass (statement rounds d) items)
        (statementPass (statement rounds' d) items) after := fun items after hle =>
    settled_statementPass (fun inner hinner =>
      ih.rule .statement (by omega) (show 10 * inner.length + 9 ≤ d by omega)) items
  exact (limited_statementsOf (Rule.shortens .statement rounds d)).settled
    (limited_statementsOf (Rule.shortens .statement rounds' d)) hpass rounds rounds' _ _ hskip
    (by omega) (by omega)

theorem settled_expression (h : 10 * ts.length + 8 ≤ d + 1) :
    Settled (expression rounds (d + 1)) (expression rounds' (d + 1)) ts :=
  ih.rule (.tiered .equality) hN (show 10 * ts.length + 7 ≤ d by omega)

theorem settled_tiered (hr : N < rounds) (hr' : N < rounds') (tier : Tier)
    (h : 10 * ts.length + (8 - tier.level) ≤ d + 1) :
    Settled (tiered rounds (d + 1) tier) (tiered rounds' (d + 1) tier) ts := by
  -- what the operators of a tier are applied to is read by the rule of the next level
  obtain ⟨rule, hrule, hheight⟩ : ∃ rule : Rule,
      (∀ rounds, ruleAt rounds d (tier.level + 1) = rule.parser rounds d) ∧
        rule.height + 1 = 8 - tier.level := by
    cases tier with
    | equality => exact ⟨.tiered .comparison, fun _ => rfl, rfl⟩
    | comparison => exact ⟨.tiered .sum, fun _ => rfl, rfl⟩
    | sum => exact ⟨.tiered .product, fun _ => rfl, rfl⟩
    | product => exact ⟨.unary, fun _ => rfl, rfl⟩
  have hoperand : ∀ mid, mid.length ≤ ts.length →
      Settled (rule.parser rounds d) (rule.parser rounds' d) mid :=
    fun mid hle => ih.rule rule (by omega) (by omega)
  have hpass : ∀ left after, after.length ≤ ts.length →
      Settled (operatorPass tier.operator? (rule.parser rounds d) left)
        (operatorPass tier.operator? (rule.parser rounds' d) left) after :=
    fun left after hle =>
      settled_operatorPass (fun mid h' => hoperand mid (Nat.le_trans h' hle)) _ left
  rw [tiered_succ, tiered_succ, hrule, hrule]
  refine (hoperand ts (Nat.le_refl _)).bind ?_
  refine (rule.shortens rounds d ts).mono fun first mid hless => ?_
  exact (limited_operatorsOf _ (rule.shortens rounds d)).settled
    (limited_operatorsOf _ (rule.shortens rounds' d)) hpass rounds rounds' first mid (by omega)
    (by omega) (by omega)

theorem settled_unary (h : 10 * ts.length + 3 ≤ d + 1) :
    Settled (unary rounds (d + 1)) (unary rounds' (d + 1)) ts := by
  refine settled_nextKind ?_
  cases hsign : sign? (kindOf ts) with
  | some op =>
    refine settled_nextPos fun pos => .after nofun (ensures_advance (sign?_ne_end hsign) ?_)
    cases ts with
    | nil => cases hsign
    | cons t mid =>
      rw [List.length_cons] at hN h
      exact (ih.rule .unary (by omega) (show 10 * mid.length + 3 ≤ d by omega)).map _
  | none => exact ih.rule .postfixed hN (show 10 * ts.length + 2 ≤ d by omega)

theorem settled_postfixed (hr : N < rounds) (hr' : N < rounds') (h : 10 * ts.length + 2 ≤ d + 1) :
    Settled (postfixed rounds (d + 1)) (postfixed rounds' (d + 1)) ts := by
  refine settled_nextKind (settled_secondKind ?_)
  refine (ih.rule .primary hN (show 10 * ts.length + 1 ≤ d by omega)).bind ?_
  refine (Rule.shortens .primary rounds d ts).mono fun receiver mid hless => ?_
  have hpass : ∀ s after, after.length ≤ mid.length →
      Settled (methodPass (arguments rounds d) s) (methodPass (arguments rounds' d) s) after :=
    fun s after hle =>
      settled_methodPass (fun inner hinner => ih.arguments (by omega) (by omega)) s
  exact (limited_methodsOf (arguments_noLonger rounds d)).settled
    (limited_methodsOf (arguments_noLonger rounds' d)) hpass rounds rounds' (_, receiver) mid
    (Nat.le_refl _) (by omega) (by omega)

theorem settled_arguments (hr : N < rounds) (hr' : N < rounds')
    (h : 10 * ts.length + 10 ≤ d + 1) :
    Settled (arguments rounds (d + 1)) (arguments rounds' (d + 1)) ts :=
  settled_listOf
    (fun mid hle => ih.rule .argument (by omega) (show 10 * mid.length + 9 ≤ d by omega))
    (Rule.shortens .argument rounds d) (Rule.shortens .argument rounds' d) (by omega) (by omega)

theorem settled_argument (h : 10 * ts.length + 9 ≤ d + 1) :
    Settled (argument rounds (d + 1)) (argument rounds' (d + 1)) ts := by
  refine settled_nextKind ?_
  split
  · exact settled_stop _
  · exact ih.rule .expression hN (show 10 * ts.length + 8 ≤ d by omega)

theorem settled_primary (h : 10 * ts.length + 1 ≤ d + 1) :
    Settled (primary rounds (d + 1)) (primary rounds' (d + 1)) ts := by
  refine .after nofun (ensures_get ?_)
  split
  case h_8 => exact settled_stop _
  all_goals
    rw [List.length_cons] at hN h
    refine .after nofun (ensures_set ?_)
  case h_6 name pos rest =>
    split
    · refine settled_advance ?_
      have htail := (behindNext_suffix rest).length_le
      refine (ih.arguments (by omega) (by omega)).bind fun args mid _ => ?_
      exact settled_expectSymbol _ fun _ _ => settled_pure _
    · exact settled_pure _
  case h_7 text pos rest =>
    refine settled_expression_bind ih (by omega) (by omega) fun inner mid hinner => ?_
    exact settled_expectSymbol _ fun _ _ => settled_pure _
  all_goals exact settled_pure _

end Rules

theorem Rule.height_pos (rule : Rule) : 0 < rule.height := by
  cases rule with
  | tiered tier => cases tier <;> decide
  | _ => decide

theorem settledRules {N rounds rounds' : Nat} (hr : N < rounds) (hr' : N < rounds') (d : Nat) :
    SettledRules N rounds rounds' d := by
  induction d with
  | zero =>
    constructor
    case rule =>
      intro rule ts _ h
      have hpos := rule.height_pos
      omega
    all_goals
      intro ts _ h
      omega
  | succ d ih =>
    constructor
    case block => exact fun hN h => settled_block ih hN hr hr' h
    case arguments => exact fun hN h => settled_arguments ih hN hr hr' h
    case rule =>
      intro rule ts hN h
      cases rule with
      | statement => exact settled_statement ih hN h
      | assignment => exact settled_assignment ih hN h
      | fnDecl => exact settled_fnDecl ih hN hr hr' h
      | whileLoop => exact settled_whileLoop ih hN h
      | forLoop => exact settled_forLoop ih hN h
      | cond => exact settled_cond ih hN h
      | ret => exact settled_ret ih hN h
      | expression => exact settled_expression ih hN h
      | tiered tier => exact settled_tiered ih hN hr hr' tier h
      | unary => exact settled_unary ih hN h
      | postfixed => exact settled_postfixed ih hN hr hr' h
      | argument => exact settled_argument ih hN h
      | primary => exact settled_primary ih hN h

/-! ## Ends -/

/-- Under all limits that are large enough for the number of tokens, the parser has one and the same
result, which is no report of too deep nesting. -/
def Terminates (p : Nat → Nat → Parser α) (ts : List Token) : Prop :=
  ∃ r, ¬ TooDeep r ∧
    ∀ rounds limit, ts.length < rounds → 10 * (ts.length + 1) ≤ limit → p rounds limit ts = r

theorem terminates_of_settled {p : Nat → Nat → Parser α}
    (h : ∀ {rounds rounds' d}, ts.length < rounds → ts.length < rounds' →
      10 * (ts.length + 1) ≤ d → Settled (p rounds d) (p rounds' d) ts)
    (hnext : ∀ rounds d, Agrees (p rounds d) (p rounds (d + 1))) : Terminates p ts := by
  have hfirst := Nat.lt_succ_self ts.length
  refine ⟨p (ts.length + 1) (10 * (ts.length + 1)) ts, ?_, fun rounds limit hr hlimit => ?_⟩
  · exact (h hfirst hfirst (Nat.le_refl _)).shallow
  · have hrounds := h hr hfirst (Nat.le_refl _)
    have hlarger := (agrees_of_le (hnext rounds) hlimit ts).resolve_left hrounds.shallow
    exact hlarger.symm.trans hrounds.same

theorem Rule.agreesNext (rule : Rule) (rounds d : Nat) :
    Agrees (rule.parser rounds d) (rule.parser rounds (d + 1)) := by
  have h := Parser.agreesNext rounds d
  cases rule with
  | statement => exact h.statement
  | assignment => exact h.assignment
  | fnDecl => exact h.fnDecl
  | whileLoop => exact h.whileLoop
  | forLoop => exact h.forLoop
  | cond => exact h.cond
  | ret => exact h.ret
  | expression => exact h.expression
  | tiered tier => exact h.tiered tier
  | unary => exact h.unary
  | postfixed => exact h.postfixed
  | argument => exact h.argument
  | primary => exact h.primary

theorem Rule.height_le (rule : Rule) : rule.height ≤ 10 := by
  cases rule with
  | tiered tier => cases tier <;> decide
  | _ => decide

theorem settled_programFrom {rounds rounds' d : Nat} (hr : ts.length < rounds)
    (hr' : ts.length < rounds') (h : 10 * ts.length + 9 ≤ d) (items : List Node) :
    Settled (programFrom (statement rounds d) rounds items)
      (programFrom (statement rounds' d) rounds' items) ts := by
  have ih := settledRules hr hr' d
  have hpass : ∀ items mid, mid.length ≤ ts.length →
      Settled (programPass (statement rounds d) items)
        (programPass (statement rounds' d) items) mid := fun items mid hle =>
    settled_programPass (fun inner hinner =>
      ih.rule .statement (by omega) (show 10 * inner.length + 9 ≤ d by omega)) items
  exact (limited_programFrom (Rule.shortens .statement rounds d)).settled
    (limited_programFrom (Rule.shortens .statement rounds' d)) hpass rounds rounds' items ts
    (Nat.le_refl _) hr hr'

/-- The parser ends on the tokens, whatever the limits would be. -/
structure EndsOn (ts : List Token) : Prop where
  rule : ∀ rule : Rule, Terminates (fun rounds d => rule.parser rounds d) ts
  block : Terminates block ts
  arguments : Terminates arguments ts
  program : ∃ r, ¬ TooDeep r ∧
    ∀ limit, 10 * (ts.length + 1) ≤ limit → Parser.program limit ts = r

theorem endsOn (ts : List Token) : EndsOn ts where
  rule rule := by
    have hle := rule.height_le
    refine terminates_of_settled (fun hr hr' hd => ?_) rule.agreesNext
    exact (settledRules hr hr' _).rule rule (Nat.le_refl _) (by omega)
  block := by
    refine terminates_of_settled (fun hr hr' hd => ?_) fun rounds d => (agreesNext rounds d).block
    exact (settledRules hr hr' _).block (Nat.le_refl _) (by omega)
  arguments := by
    refine terminates_of_settled (fun hr hr' hd => ?_)
      fun rounds d => (agreesNext rounds d).arguments
    exact (settledRules hr hr' _).arguments (Nat.le_refl _) (by omega)
  program := by
    have hfirst := Nat.lt_succ_self ts.length
    have hsettled := settled_programFrom (d := 10 * (ts.length + 1)) hfirst hfirst (by omega) []
    have hshallow : ¬ TooDeep (program (10 * (ts.length + 1)) ts) :=
      fun ⟨rest, h⟩ => hsettled.shallow ⟨rest, program_error.mp h⟩
    refine ⟨_, hshallow, fun limit hlimit => ?_⟩
    exact ((program_agrees ts hlimit).resolve_left hshallow).symm

end ExScript.Parser
