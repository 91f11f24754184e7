import ExScript.Proofs.Grammar
import ExScript.Proofs.ParserSteps

/-!
# What the parser accepts is derivable

Whenever a rule of the parser returns a tree, the tokens that it has taken are derived from the rule
of the grammar with that tree (`Sound`).  The induction is on the nesting budget; a repetition
carries along what has been read so far.
-/

namespace ExScript.Parser

open Grammar

variable {α β : Type} {ts rest : List Token}

/-! ## Steps -/

/-- Whatever a parser returns on the tokens has a property, together with the tokens behind it. -/
def Ensures (p : Parser α) (ts : List Token) (Q : α → List Token → Prop) : Prop :=
  ∀ ⦃a rest⦄, p ts = .ok (a, rest) → Q a rest

theorem Ensures.bind {p : Parser α} {f : α → Parser β} {Q : β → List Token → Prop}
    (h : Ensures p ts fun a mid => Ensures (f a) mid Q) : Ensures (p >>= f) ts Q := by
  intro b rest hb
  obtain ⟨a, mid, ha, hf⟩ := bind_ok.mp hb
  exact h ha hf

theorem Ensures.mono {p : Parser α} {Q R : α → List Token → Prop} (h : Ensures p ts Q)
    (hQ : ∀ a rest, Q a rest → R a rest) : Ensures p ts R :=
  fun _ _ ha => hQ _ _ (h ha)

theorem ensures_pure {Q : α → List Token → Prop} {a : α} (h : Q a ts) : Ensures (pure a) ts Q := by
  rintro _ _ ⟨⟩
  exact h

theorem ensures_stop {Q : α → List Token → Prop} (expected : Expected) :
    Ensures (stop expected) ts Q := by
  rintro _ _ ⟨⟩

theorem ensures_tooDeep {Q : α → List Token → Prop} : Ensures tooDeep ts Q := by
  rintro _ _ ⟨⟩

theorem ensures_nextKind {Q : Kind → List Token → Prop} (h : Q (kindOf ts) ts) :
    Ensures nextKind ts Q := by
  rintro _ _ ⟨⟩
  exact h

theorem ensures_secondKind {Q : Kind → List Token → Prop} (h : Q (kindOf ts.tail) ts) :
    Ensures secondKind ts Q := by
  rintro _ _ ⟨⟩
  exact h

theorem ensures_nextPos {Q : Pos → List Token → Prop} (h : Q (posOf ts) ts) :
    Ensures nextPos ts Q := by
  rintro _ _ ⟨⟩
  exact h

theorem ensures_get {Q : List Token → List Token → Prop} (h : Q ts ts) : Ensures get ts Q := by
  rintro _ _ ⟨⟩
  exact h

theorem ensures_set {Q : PUnit → List Token → Prop} {new : List Token} (h : Q ⟨⟩ new) :
    Ensures (set new : Parser PUnit) ts Q := by
  rintro _ _ ⟨⟩
  exact h

theorem ensures_advance {Q : Unit → List Token → Prop} (hk : kindOf ts ≠ .mark .endOfInput)
    (h : Q () ts.tail) : Ensures advance ts Q := by
  intro _ rest hrest
  rw [advance_apply hk] at hrest
  cases hrest
  exact h

/-! ## Terminals -/

theorem kindOf_symbol {s : Symbol} (h : kindOf ts = symbolKind s) :
    ∃ t, ts = t :: ts.tail ∧ Is s t := by
  cases ts with
  | nil => cases h
  | cons t ts => exact ⟨t, rfl, h⟩

theorem kindOf_keyword {k : Keyword} (h : kindOf ts = keywordKind k) :
    ∃ t, ts = t :: ts.tail ∧ IsWord k t := by
  cases ts with
  | nil => cases h
  | cons t ts => exact ⟨t, rfl, h⟩

theorem ensures_expectSymbol {s : Symbol} {Q : Unit → List Token → Prop}
    (h : ∀ t mid, ts = t :: mid → Is s t → Q () mid) : Ensures (expectSymbol s) ts Q := by
  intro _ rest ht
  obtain ⟨hk, rfl⟩ := expectSymbol_ok.mp ht
  obtain ⟨t, hts, hs⟩ := kindOf_symbol hk
  exact h t _ hts hs

theorem ensures_expectKeyword {k : Keyword} {Q : Unit → List Token → Prop}
    (h : ∀ t mid, ts = t :: mid → IsWord k t → Q () mid) : Ensures (expectKeyword k) ts Q := by
  intro _ rest ht
  obtain ⟨hk, rfl⟩ := expectKeyword_ok.mp ht
  obtain ⟨t, hts, hs⟩ := kindOf_keyword hk
  exact h t _ hts hs

theorem ensures_expectName {expected : Expected} {Q : String → List Token → Prop}
    (h : ∀ name pos mid, ts = ⟨.name name, pos⟩ :: mid → Q name mid) :
    Ensures (expectName expected) ts Q := by
  intro name rest ht
  obtain ⟨pos, hts⟩ := expectName_ok.mp ht
  exact h name pos rest hts

theorem newlines_dropWhile (ts : List Token) : Newlines ts (ts.dropWhile isNewline) := by
  induction ts with
  | nil => exact .nil
  | cons t ts ih =>
    by_cases ht : t.kind = .mark .newline
    · rw [List.dropWhile_cons_of_pos (by simpa [isNewline] using ht)]
      exact .cons ht ih
    · rw [List.dropWhile_cons_of_neg (by simpa [isNewline] using ht)]
      exact .nil

theorem ensures_skipNewlines {Q : Unit → List Token → Prop}
    (h : Newlines ts (ts.dropWhile isNewline) → Q () (ts.dropWhile isNewline)) :
    Ensures skipNewlines ts Q := by
  rintro _ _ ⟨⟩
  exact h (newlines_dropWhile ts)

theorem operators_of_operator? {tier : Tier} {k : Kind} {op : BinaryOp}
    (h : tier.operator? k = some op) : ∃ s, (s, op) ∈ operators tier ∧ k = symbolKind s := by
  unfold Tier.operator? at h
  split at h <;> cases h <;> exact ⟨_, by decide, rfl⟩

theorem signs_of_sign? {k : Kind} {op : UnaryOp} (h : sign? k = some op) :
    ∃ s, (s, op) ∈ signs ∧ k = symbolKind s := by
  unfold sign? at h
  split at h <;> cases h <;> exact ⟨_, by decide, rfl⟩

/-! ## Repetitions -/

/-- All that a parser accepts is in the grammar, with the tree that is returned. -/
def Recognises (p : Parser α) (G : List Token → α → List Token → Prop) : Prop :=
  ∀ ts, Ensures p ts (G ts)

section Lists

variable {item : Parser α} {Item : List Token → α → List Token → Prop}
  {Items More : List Token → List α → List Token → Prop}

theorem commaSeparated_sound (hi : Recognises item Item) (hnil : ∀ ts, More ts [] ts)
    (hcons : ∀ {t ts a mid as rest}, Is .comma t → Item ts a mid → More mid as rest →
      More (t :: ts) (a :: as) rest) (fuel : Nat) :
    ∀ items ts, Ensures (commaSeparated item fuel items) ts fun as rest =>
      ∃ more, as = items.reverse ++ more ∧ More ts more rest := by
  induction fuel with
  | zero => exact fun items ts => ensures_pure ⟨[], (List.append_nil _).symm, hnil ts⟩
  | succ fuel ih =>
    intro items ts
    refine .bind (ensures_nextKind ?_)
    split
    case isTrue hk =>
      obtain ⟨t, hts, ht⟩ := kindOf_symbol hk
      have hne := symbol_ne_end hk
      refine .bind (ensures_advance hne (.bind ((hi _).mono fun a mid ha => ?_)))
      refine (ih (a :: items) mid).mono ?_
      rintro as rest ⟨more, rfl, hm⟩
      rw [hts]
      exact ⟨a :: more, by simp, hcons ht ha hm⟩
    case isFalse => exact ensures_pure ⟨[], (List.append_nil _).symm, hnil ts⟩

theorem listOf_sound (hi : Recognises item Item) (hnil : ∀ ts, More ts [] ts)
    (hcons : ∀ {t ts a mid as rest}, Is .comma t → Item ts a mid → More mid as rest →
      More (t :: ts) (a :: as) rest) (hnone : ∀ ts, Items ts [] ts)
    (hsome : ∀ {ts a mid as rest}, Item ts a mid → More mid as rest → Items ts (a :: as) rest)
    (rounds : Nat) : Recognises (listOf rounds item) Items := by
  intro ts
  refine .bind (ensures_nextKind ?_)
  split
  · exact ensures_pure (hnone ts)
  · refine .bind ((hi ts).mono fun a mid ha => ?_)
    refine (commaSeparated_sound hi hnil hcons rounds [a] mid).mono ?_
    rintro as rest ⟨more, rfl, hm⟩
    exact hsome ha hm

end Lists

theorem parameters_sound (rounds : Nat) :
    Recognises (listOf rounds (expectName .parameterName)) Parameters := by
  have hname : Recognises (expectName .parameterName) fun ts name rest =>
      ∃ pos, ts = ⟨.name name, pos⟩ :: rest :=
    fun ts => ensures_expectName fun name pos mid hts => ⟨pos, hts⟩
  refine listOf_sound hname (fun _ => MoreParameters.nil) ?_ (fun _ => .none) ?_ rounds
  · rintro t _ name mid names rest ht ⟨pos, rfl⟩ hm
    exact .cons ht hm
  · rintro _ name mid names rest ⟨pos, rfl⟩ hm
    exact .some hm

theorem operatorsOf_sound {operand : Parser Node} {tier : Tier}
    (ho : Recognises operand (Operand tier)) (fuel : Nat) :
    ∀ left mid, Tiered tier ts left mid →
      Ensures (operatorsOf tier.operator? operand fuel left) mid (Tiered tier ts) := by
  induction fuel with
  | zero => exact fun left mid hl => ensures_pure hl
  | succ fuel ih =>
    intro left mid hl
    refine .bind (ensures_nextKind ?_)
    split
    next op hop =>
      obtain ⟨s, hs, hk⟩ := operators_of_operator? hop
      obtain ⟨t, hts, ht⟩ := kindOf_symbol hk
      have hne := symbol_ne_end hk
      refine .bind (ensures_advance hne (.bind ((ho _).mono fun right after hr => ?_)))
      rw [hts] at hl
      exact ih _ _ (.binary hl hs ht hr)
    next => exact ensures_pure hl

/-- What a method is applied to, and whether this is a bare name. -/
structure Receiver (ts : List Token) (bare : Bool) (n : Node) (rest : List Token) : Prop where
  phrase : Postfixed ts n rest
  onName : ∀ {name pos}, ts = ⟨.name name, pos⟩ :: rest → kindOf rest = symbolKind .dot →
    bare = true ∧ n = .var pos name
  onValue : ¬ BareName ts rest → ∀ method args,
    methodOn bare n method args = .exprMethodCall n.pos n method args

theorem Receiver.method {bare : Bool} {n : Node} {t u v : Token} {m : String} {q : Pos}
    {mid : List Token} {args : List Node}
    (h : Receiver ts bare n (t :: ⟨.name m, q⟩ :: u :: mid)) (ht : Is .dot t)
    (hu : Is .openParen u) (ha : Arguments mid args (v :: rest)) (hv : Is .closeParen v) :
    Receiver ts false (methodOn bare n m args) rest where
  phrase := by
    by_cases hb : BareName ts (t :: ⟨.name m, q⟩ :: u :: mid)
    · obtain ⟨name, pos, rfl⟩ := hb
      obtain ⟨rfl, rfl⟩ := h.onName rfl ht
      exact .variableMethod ht hu ha hv
    · rw [h.onValue hb]
      exact .method h.phrase hb ht hu ha hv
  onName := by
    rintro name pos rfl -
    have hlong := h.phrase.past.shorter
    have hshort := ha.suffix.length_le
    simp only [List.length_cons] at hlong hshort
    omega
  onValue _ _ _ := rfl

theorem methodsOf_sound {args : Parser (List Node)} (ha : Recognises args Arguments) (fuel : Nat) :
    ∀ bare n mid, Receiver ts bare n mid →
      Ensures (methodsOf args fuel bare n) mid (Postfixed ts) := by
  induction fuel with
  | zero => exact fun bare n mid h => ensures_pure h.phrase
  | succ fuel ih =>
    intro bare n mid h
    refine .bind (ensures_nextKind ?_)
    split
    case isTrue hk =>
      obtain ⟨t, hts, ht⟩ := kindOf_symbol hk
      have hne := symbol_ne_end hk
      refine .bind (ensures_advance hne (.bind (ensures_expectName fun m q after hm => ?_)))
      refine .bind (ensures_expectSymbol fun u inner hu hopen => ?_)
      refine .bind ((ha inner).mono fun given close hg => ?_)
      refine .bind (ensures_expectSymbol fun v rest hv hclose => ?_)
      rw [hts, hm, hu] at h
      subst hv
      exact ih false _ rest (h.method ht hopen hg hclose)
    case isFalse => exact ensures_pure h.phrase

theorem statementsOf_sound {item : Parser Node} (hi : Recognises item Statement) (fuel : Nat) :
    ∀ items ts, Ensures (statementsOf item fuel items) ts fun body rest =>
      ∃ more u, body = items.reverse ++ more ∧ Statements ts more (u :: rest) ∧
        Is .closeBrace u := by
  induction fuel with
  | zero => exact fun items ts => ensures_stop _
  | succ fuel ih =>
    intro items ts
    refine .bind (ensures_nextKind ?_)
    split
    next hk =>
      obtain ⟨u, hts, hu⟩ := kindOf_symbol hk
      refine .bind (ensures_advance (symbol_ne_end hk) (ensures_pure ?_))
      exact ⟨[], u, (List.append_nil _).symm, hts ▸ .nil, hu⟩
    next => exact ensures_stop _
    next =>
      refine .bind ((hi ts).mono fun n mid hn => .bind (ensures_skipNewlines fun hl => ?_))
      refine (ih (n :: items) _).mono ?_
      rintro body rest ⟨more, u, rfl, hs, hu⟩
      exact ⟨n :: more, u, by simp, .cons hn hl hs, hu⟩

/-- With more rounds than tokens, the statements are read up to the end of the input. -/
theorem programFrom_sound {item : Parser Node} (hi : Recognises item Statement) (fuel : Nat) :
    ∀ items ts, ts.length < fuel → Ensures (programFrom item fuel items) ts fun body rest =>
      ∃ mid more, body = items.reverse ++ more ∧ Newlines ts mid ∧ Statements mid more rest ∧
        kindOf rest = .mark .endOfInput := by
  induction fuel with
  | zero => exact fun items ts h => absurd h (Nat.not_lt_zero _)
  | succ fuel ih =>
    intro items ts hlen
    refine .bind (ensures_skipNewlines fun hl => .bind (ensures_nextKind ?_))
    split
    next hk => exact ensures_pure ⟨_, [], (List.append_nil _).symm, hl, .nil, hk⟩
    next =>
      refine .bind ((hi _).mono fun n after hn => ?_)
      have hafter := hn.past.shorter
      have hmid := hl.suffix.length_le
      refine (ih (n :: items) after (by omega)).mono ?_
      rintro body rest ⟨next, more, rfl, hnext, hs, hend⟩
      exact ⟨_, n :: more, by simp, hl, .cons hn hnext hs, hend⟩

/-! ## Rules -/

/-- What the rules accept at a budget. -/
structure Sound (rounds d : Nat) : Prop where
  statement : Recognises (statement rounds d) Statement
  assignment : Recognises (assignment rounds d) Statement
  fnDecl : Recognises (fnDecl rounds d) Statement
  whileLoop : Recognises (whileLoop rounds d) Statement
  forLoop : Recognises (forLoop rounds d) Statement
  cond : Recognises (cond rounds d) If
  ret : Recognises (ret rounds d) Statement
  block : Recognises (block rounds d) Block
  expression : Recognises (expression rounds d) Expression
  tiered : ∀ tier, Recognises (tiered rounds d tier) (Tiered tier)
  unary : Recognises (unary rounds d) Unary
  postfixed : Recognises (postfixed rounds d) Postfixed
  arguments : Recognises (arguments rounds d) Arguments
  argument : Recognises (argument rounds d) Expression
  primary : Recognises (primary rounds d) Primary

variable {rounds d : Nat}

theorem statement_sound (ih : Sound rounds d) :
    Recognises (statement rounds (d + 1)) Statement := by
  intro ts
  refine .bind (ensures_nextKind (.bind (ensures_secondKind ?_)))
  split
  · exact ih.assignment ts
  · exact ih.fnDecl ts
  · exact ih.whileLoop ts
  · exact ih.forLoop ts
  · exact (ih.cond ts).mono fun _ _ => .cond
  · exact ih.ret ts
  · exact ensures_stop _
  · exact (ih.expression ts).mono fun _ _ => .expression

theorem assignment_sound (ih : Sound rounds d) :
    Recognises (assignment rounds (d + 1)) Statement := by
  intro ts
  refine .bind (ensures_nextPos (.bind (ensures_expectName fun name pos mid hts => ?_)))
  refine .bind (ensures_expectSymbol fun t after hmid ht => ?_)
  refine .bind ((ih.statement after).mono fun n rest hn => ensures_pure ?_)
  subst hts hmid
  exact .assign ht hn

theorem fnDecl_sound (ih : Sound rounds d) : Recognises (fnDecl rounds (d + 1)) Statement := by
  intro ts
  refine .bind (ensures_nextPos (.bind (ensures_expectKeyword fun t _ hts ht => ?_)))
  refine .bind (ensures_expectName fun name p _ hname => ?_)
  refine .bind (ensures_expectSymbol fun u inner hu hopen => ?_)
  refine .bind ((parameters_sound rounds inner).mono fun params _ hp => ?_)
  refine .bind (ensures_expectSymbol fun v mid hv hclose => ?_)
  refine .bind ((ih.block mid).mono fun body rest hb => ensures_pure ?_)
  subst hv hu hname hts
  exact .fnDecl ht hopen hp hclose hb

theorem whileLoop_sound (ih : Sound rounds d) :
    Recognises (whileLoop rounds (d + 1)) Statement := by
  intro ts
  refine .bind (ensures_nextPos (.bind (ensures_expectKeyword fun t mid hts ht => ?_)))
  refine .bind ((ih.expression mid).mono fun test after he => ?_)
  refine .bind ((ih.block after).mono fun body rest hb => ensures_pure ?_)
  subst hts
  exact .whileLoop ht he hb

theorem forLoop_sound (ih : Sound rounds d) : Recognises (forLoop rounds (d + 1)) Statement := by
  intro ts
  refine .bind (ensures_nextPos (.bind (ensures_expectKeyword fun t _ hts ht => ?_)))
  refine .bind (ensures_expectName fun x p _ hx => ?_)
  refine .bind (ensures_expectKeyword fun u _ hu hin => ?_)
  refine .bind (ensures_expectSymbol fun v inner hv hopen => ?_)
  refine .bind ((ih.expression inner).mono fun low _ hl => ?_)
  refine .bind (ensures_expectSymbol fun w mid hw hcomma => ?_)
  refine .bind ((ih.expression mid).mono fun high _ hh => ?_)
  refine .bind (ensures_expectSymbol fun c after hc hclose => ?_)
  refine .bind ((ih.block after).mono fun body rest hb => ensures_pure ?_)
  subst hc hw hv hu hx hts
  exact .forLoop ht hin hopen hl hcomma hh hclose hb

theorem cond_sound (ih : Sound rounds d) : Recognises (cond rounds (d + 1)) If := by
  intro ts
  refine .bind (ensures_nextPos (.bind (ensures_expectKeyword fun t mid hts ht => ?_)))
  refine .bind ((ih.expression mid).mono fun test _ he => ?_)
  refine .bind ((ih.block _).mono fun body after hb => .bind (ensures_get ?_))
  subst hts
  split
  next helse =>
    have hk := of_decide_eq_true helse
    obtain ⟨u, hu, hword⟩ := kindOf_keyword hk
    have hne := keyword_ne_end hk
    refine .bind (ensures_skipNewlines fun hn => .bind (ensures_advance hne ?_))
    rw [hu] at hn
    refine .bind (ensures_nextKind ?_)
    split
    · refine .bind ((ih.cond _).mono fun n rest ho => ensures_pure ?_)
      exact .elseIf ht he hb hn hword ho
    · refine .bind ((ih.block _).mono fun other rest ho => ensures_pure ?_)
      exact .elseBlock ht he hb hn hword ho
  next => exact ensures_pure (.plain ht he hb)

theorem ret_sound (ih : Sound rounds d) : Recognises (ret rounds (d + 1)) Statement := by
  intro ts
  refine .bind (ensures_nextPos (.bind (ensures_expectKeyword fun t mid hts ht => ?_)))
  refine .bind ((ih.expression mid).mono fun n rest hn => ensures_pure ?_)
  subst hts
  exact .ret ht hn

theorem block_sound (ih : Sound rounds d) : Recognises (block rounds (d + 1)) Block := by
  intro ts
  refine .bind (ensures_expectSymbol fun t mid hts ht => .bind (ensures_skipNewlines fun hn => ?_))
  refine (statementsOf_sound ih.statement rounds [] _).mono ?_
  rintro body rest ⟨more, u, rfl, hs, hu⟩
  subst hts
  exact .braces ht hn hs hu

theorem tiered_sound (ih : Sound rounds d) (tier : Tier) :
    Recognises (tiered rounds (d + 1) tier) (Tiered tier) := by
  have rule {operand : Parser Node} (ho : Recognises operand (Operand tier)) :
      Recognises (do let first ← operand; operatorsOf tier.operator? operand rounds first)
        (Tiered tier) := fun ts =>
    .bind ((ho ts).mono fun first mid hf => operatorsOf_sound ho rounds first mid (.operand hf))
  cases tier with
  | equality => exact rule fun ts => (ih.tiered .comparison ts).mono fun _ _ => .comparison
  | comparison => exact rule fun ts => (ih.tiered .sum ts).mono fun _ _ => .sum
  | sum => exact rule fun ts => (ih.tiered .product ts).mono fun _ _ => .product
  | product => exact rule fun ts => (ih.unary ts).mono fun _ _ => .unary

theorem unary_sound (ih : Sound rounds d) : Recognises (unary rounds (d + 1)) Unary := by
  intro ts
  refine .bind (ensures_nextKind ?_)
  split
  next op hop =>
    obtain ⟨s, hs, hk⟩ := signs_of_sign? hop
    obtain ⟨t, hts, ht⟩ := kindOf_symbol hk
    refine .bind (ensures_nextPos (.bind (ensures_advance (symbol_ne_end hk) ?_)))
    refine .bind ((ih.unary _).mono fun n rest hn => ensures_pure ?_)
    rw [hts]
    exact .sign hs ht hn
  next => exact (ih.postfixed ts).mono fun _ _ => .plain

/-- A name is bare if no parenthesis follows it, and then it is a variable. -/
theorem receiver_of_primary {n : Node} (h : Primary ts n rest) :
    Receiver ts (kindOf ts = .name && kindOf ts.tail != symbolKind .openParen) n rest where
  phrase := .primary h
  onName := by
    rintro name pos rfl hk
    cases h with
    | var =>
      refine ⟨?_, rfl⟩
      rw [List.tail_cons, hk]
      rfl
    | call _ ha _ =>
      have hlen := ha.suffix.length_le
      simp only [List.length_cons] at hlen
      omega
    | trueWord ht => cases ht
    | falseWord ht => cases ht
    | parens ho _ _ => cases ho
  onValue hb method args := by
    cases h with
    | var => exact absurd ⟨_, _, rfl⟩ hb
    | @parens t mid n u rest ho h hc =>
      have hk : kindOf (t :: mid) = symbolKind .openParen := ho
      rw [hk]
      rfl
    | int | float | string | trueWord | falseWord | call => exact methodOn.eq_2 _ _ _ _ nofun

theorem postfixed_sound (ih : Sound rounds d) :
    Recognises (postfixed rounds (d + 1)) Postfixed := by
  intro ts
  refine .bind (ensures_nextKind (.bind (ensures_secondKind ?_)))
  refine .bind ((ih.primary ts).mono fun receiver mid hp => ?_)
  exact methodsOf_sound ih.arguments rounds _ receiver mid (receiver_of_primary hp)

theorem arguments_sound (ih : Sound rounds d) :
    Recognises (arguments rounds (d + 1)) Arguments :=
  listOf_sound ih.argument (fun _ => MoreArguments.nil) .cons (fun _ => .none) .some rounds

theorem argument_sound (ih : Sound rounds d) :
    Recognises (argument rounds (d + 1)) Expression := by
  intro ts
  refine .bind (ensures_nextKind ?_)
  split
  · exact ensures_stop _
  · exact ih.expression ts

theorem primary_sound (ih : Sound rounds d) : Recognises (primary rounds (d + 1)) Primary := by
  intro ts
  refine .bind (ensures_get ?_)
  split
  case h_8 => exact ensures_stop _
  all_goals refine .bind (ensures_set ?_)
  case h_6 name pos rest =>
    split
    next hk =>
      obtain ⟨t, hts, ht⟩ := kindOf_symbol hk
      have hne := symbol_ne_end hk
      refine .bind (ensures_advance hne (.bind ((ih.arguments _).mono fun args _ ha => ?_)))
      refine .bind (ensures_expectSymbol fun u after hu hclose => ensures_pure ?_)
      rw [hts]
      subst hu
      exact .call ht ha hclose
    next => exact ensures_pure .var
  case h_7 text pos rest =>
    refine .bind ((ih.expression rest).mono fun inner _ hi => ?_)
    refine .bind (ensures_expectSymbol fun u after hu hclose => ensures_pure ?_)
    subst hu
    exact .parens rfl hi hclose
  · exact ensures_pure .int
  · exact ensures_pure .float
  · exact ensures_pure .string
  · exact ensures_pure (.trueWord rfl)
  · exact ensures_pure (.falseWord rfl)

theorem sound (rounds d : Nat) : Sound rounds d := by
  induction d with
  | zero =>
    constructor
    case tiered => exact fun _ _ => ensures_tooDeep
    all_goals exact fun _ => ensures_tooDeep
  | succ d ih =>
    exact ⟨statement_sound ih, assignment_sound ih, fnDecl_sound ih, whileLoop_sound ih,
      forLoop_sound ih, cond_sound ih, ret_sound ih, block_sound ih, fun ts => ih.tiered _ ts,
      tiered_sound ih, unary_sound ih, postfixed_sound ih, arguments_sound ih, argument_sound ih,
      primary_sound ih⟩

/-- The statements of a program are derived, up to the end of the input. -/
theorem program_sound {limit : Nat} {body : List Node} (h : program limit ts = .ok body) :
    ∃ mid rest, Newlines ts mid ∧ Statements mid body rest ∧
      kindOf rest = .mark .endOfInput := by
  change Prod.fst <$> programFrom (statement (ts.length + 1) limit) (ts.length + 1) [] ts = _ at h
  cases hp : programFrom (statement (ts.length + 1) limit) (ts.length + 1) [] ts with
  | error s => rw [hp] at h; cases h
  | ok result =>
    obtain ⟨ns, rest⟩ := result
    rw [hp] at h
    cases h
    have hs := (sound (ts.length + 1) limit).statement
    obtain ⟨mid, more, rfl, hn, hs, hend⟩ :=
      programFrom_sound hs (ts.length + 1) [] ts (Nat.lt_succ_self _) hp
    exact ⟨mid, rest, hn, hs, hend⟩

end ExScript.Parser
