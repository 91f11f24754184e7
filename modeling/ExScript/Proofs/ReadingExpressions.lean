import ExScript.Proofs.ParserSteps
import ExScript.Proofs.Spelling
import Mathlib.Data.List.Forall2

/-!
# Reading a spelled expression back

The parser makes an expression of its spelling again, apart from positions, whenever its budget
covers the nesting of the expression (`readsAll`).  A rule of some level reads what is spelled for a
place of that level (`ReadsText`), as long as what follows does not pull at the expression (`pull`).
A chain of operators or methods that groups to the left is read by one repetition; what the
repetition still has to do after the chain is part of the statement (`ReadsChain`, `ReadsMethods`),
so that a longer chain can go on from there.
-/

namespace ExScript.Parser

open Node
open Lexeme (ofSymbol ofKeyword newline inParens inBraces placed separated Begins begins_inParens
  begins_placed)

variable {α β : Type} {ts mid rest : List Token} {ls ls' : List Lexeme}

/-! ## Tokens that spell some lexemes -/

/-- Tokens begin with the given lexemes and go on with the rest. -/
def Spelled (ls : List Lexeme) (ts rest : List Token) : Prop :=
  ∃ front, ts = front ++ rest ∧ front.map Token.lexeme = ls

theorem spelled_nil : Spelled [] ts rest ↔ ts = rest := by
  constructor
  · rintro ⟨front, rfl, h⟩
    rw [List.map_eq_nil_iff.mp h, List.nil_append]
  · rintro rfl
    exact ⟨[], rfl, rfl⟩

theorem spelled_cons {l : Lexeme} :
    Spelled (l :: ls) ts rest ↔ ∃ pos mid, ts = ⟨l, pos⟩ :: mid ∧ Spelled ls mid rest := by
  constructor
  · rintro ⟨front, rfl, h⟩
    obtain ⟨⟨_, pos⟩, more, rfl, rfl, hmore⟩ := List.map_eq_cons_iff.mp h
    exact ⟨pos, more ++ rest, rfl, more, rfl, hmore⟩
  · rintro ⟨pos, mid, rfl, more, rfl, hmore⟩
    exact ⟨⟨l, pos⟩ :: more, rfl, by rw [List.map_cons, hmore]⟩

theorem spelled_append :
    Spelled (ls ++ ls') ts rest ↔ ∃ mid, Spelled ls ts mid ∧ Spelled ls' mid rest := by
  constructor
  · rintro ⟨front, rfl, h⟩
    obtain ⟨a, b, rfl, ha, hb⟩ := List.map_eq_append_iff.mp h
    exact ⟨b ++ rest, ⟨a, List.append_assoc .., ha⟩, b, rfl, hb⟩
  · rintro ⟨mid, ⟨a, rfl, ha⟩, b, rfl, hb⟩
    exact ⟨a ++ b, (List.append_assoc ..).symm, by rw [List.map_append, ha, hb]⟩

theorem Spelled.length_le (h : Spelled ls ts rest) : rest.length ≤ ts.length := by
  obtain ⟨front, rfl, _⟩ := h
  simp

theorem Spelled.begins {P : Kind → Bool} (h : Spelled ls ts rest) (hb : Begins P ls) :
    P (kindOf ts) = true := by
  obtain ⟨l, more, rfl, hl⟩ := hb
  obtain ⟨pos, mid, rfl, _⟩ := spelled_cons.mp h
  exact hl

/-! ## Rules that succeed -/

/-- A run of a parser that succeeds, takes the tokens up to the rest and returns something apt. -/
def Returns (p : Parser α) (ts : List Token) (Q : α → Prop) (rest : List Token) : Prop :=
  ∃ a, p ts = .ok (a, rest) ∧ Q a

theorem Returns.bind {p : Parser α} {f : α → Parser β} {Q : α → Prop} {R : β → Prop}
    (hp : Returns p ts Q mid) (hf : ∀ a, Q a → Returns (f a) mid R rest) :
    Returns (p >>= f) ts R rest := by
  obtain ⟨a, ha, hq⟩ := hp
  obtain ⟨b, hb, hr⟩ := hf a hq
  exact ⟨b, (bind_of_ok ha f).trans hb, hr⟩

theorem Returns.mono {p : Parser α} {Q R : α → Prop} (hp : Returns p ts Q rest)
    (h : ∀ a, Q a → R a) : Returns p ts R rest := by
  obtain ⟨a, ha, hq⟩ := hp
  exact ⟨a, ha, h a hq⟩

theorem Returns.congr {p q : Parser α} {Q : α → Prop} {ts' : List Token} (h : p ts = q ts')
    (hq : Returns q ts' Q rest) : Returns p ts Q rest := by
  obtain ⟨a, ha, hqa⟩ := hq
  exact ⟨a, h.trans ha, hqa⟩

theorem returns_pure {Q : α → Prop} {a : α} (h : Q a) : Returns (pure a) ts Q ts := ⟨a, rfl, h⟩

theorem returns_nextKind : Returns nextKind ts (· = kindOf ts) ts := ⟨_, rfl, rfl⟩

theorem returns_secondKind : Returns secondKind ts (· = kindOf ts.tail) ts := ⟨_, rfl, rfl⟩

theorem returns_nextPos : Returns nextPos ts (fun _ => True) ts := ⟨_, rfl, trivial⟩

theorem returns_advance (hk : kindOf ts ≠ .mark .endOfInput) :
    Returns advance ts (fun _ => True) ts.tail := ⟨_, advance_apply hk, trivial⟩

theorem returns_get : Returns get ts (· = ts) ts := ⟨_, rfl, rfl⟩

theorem returns_set (new : List Token) : Returns (set new : Parser PUnit) ts (fun _ => True) new :=
  ⟨_, rfl, trivial⟩

theorem expectSymbol_self (s : Symbol) (pos : Pos) (rest : List Token) :
    expectSymbol s (⟨ofSymbol s, pos⟩ :: rest) = .ok ((), rest) :=
  expectSymbol_ok.mpr ⟨rfl, rfl⟩

theorem returns_expectSymbol (s : Symbol) (pos : Pos) :
    Returns (expectSymbol s) (⟨ofSymbol s, pos⟩ :: rest) (fun _ => True) rest :=
  ⟨(), expectSymbol_self s pos rest, trivial⟩

theorem returns_expectKeyword (k : Keyword) (pos : Pos) :
    Returns (expectKeyword k) (⟨ofKeyword k, pos⟩ :: rest) (fun _ => True) rest :=
  ⟨(), expectKeyword_ok.mpr ⟨rfl, rfl⟩, trivial⟩

theorem returns_expectName (expected : Expected) (name : String) (pos : Pos) :
    Returns (expectName expected) (⟨.name name, pos⟩ :: rest) (· = name) rest :=
  ⟨name, expectName_ok.mpr ⟨pos, rfl⟩, rfl⟩

theorem returns_skipNewlines :
    Returns skipNewlines ts (fun _ => True) (ts.dropWhile isNewline) := ⟨_, rfl, trivial⟩

/-- A parser returns a tree, apart from positions. -/
def Yields (p : Parser Node) (ts : List Token) (n : Node) (rest : List Token) : Prop :=
  Returns p ts (fun m => m.erase = n.erase) rest

/-! ## Lists of items -/

theorem not_closeParen_of_begins {k : Kind} (h : k.beginsExpr = true) :
    k ≠ symbolKind .closeParen := by
  rintro rfl
  cases h

/-- A parser reads an item of a list and returns something in relation to it. -/
structure ReadsItem (rounds : Nat) (item : Parser α) (R : α → β → Prop) (ls : List Lexeme) (b : β) :
    Prop where
  begins : Begins Kind.beginsExpr ls
  reads : ∀ {ts rest}, Spelled ls ts rest → ts.length < rounds →
    kindOf rest = symbolKind .comma ∨ kindOf rest = symbolKind .closeParen →
      Returns item ts (fun a => R a b) rest

variable {rounds : Nat} {item : Parser α} {R : α → β → Prop}

theorem kindOf_more (items : List (List Lexeme))
    (h : Spelled (items.flatMap (ofSymbol .comma :: ·)) ts rest)
    (hr : kindOf rest = symbolKind .closeParen) :
    kindOf ts = symbolKind .comma ∨ kindOf ts = symbolKind .closeParen := by
  cases items with
  | nil => exact .inr (spelled_nil.mp h ▸ hr)
  | cons item items =>
    obtain ⟨pos, mid, rfl, _⟩ := spelled_cons.mp h
    exact .inl rfl

theorem returns_commaSeparated {items : List (List Lexeme)} {bs : List β}
    (h : List.Forall₂ (ReadsItem rounds item R) items bs)
    (hr : kindOf rest = symbolKind .closeParen) :
    ∀ {ts fuel} (acc : List α), Spelled (items.flatMap (ofSymbol .comma :: ·)) ts rest →
      ts.length < rounds → ts.length < fuel →
        Returns (commaSeparated item fuel acc) ts
          (fun as => ∃ more, as = acc.reverse ++ more ∧ List.Forall₂ R more bs) rest := by
  induction h with
  | nil =>
    intro ts fuel acc hs _ hf
    obtain ⟨fuel, rfl⟩ := Nat.exists_eq_succ_of_ne_zero (Nat.ne_zero_of_lt hf)
    refine returns_nextKind.bind ?_
    rintro _ rfl
    cases spelled_nil.mp hs
    rw [if_neg (by rw [hr]; decide)]
    exact returns_pure ⟨[], by simp, .nil⟩
  | @cons ls b items bs hitem _ ih =>
    intro ts fuel acc hs hl hf
    obtain ⟨fuel, rfl⟩ := Nat.exists_eq_succ_of_ne_zero (Nat.ne_zero_of_lt hf)
    rw [List.flatMap_cons, List.cons_append, spelled_cons] at hs
    obtain ⟨pos, after, rfl, hs⟩ := hs
    obtain ⟨mid, hs, hmore⟩ := spelled_append.mp hs
    have hlen := hs.length_le
    have hcomma : kindOf (⟨ofSymbol .comma, pos⟩ :: after) = symbolKind .comma := rfl
    simp only [List.length_cons] at hl hf
    refine returns_nextKind.bind ?_
    rintro _ rfl
    rw [if_pos hcomma]
    refine (returns_advance (symbol_ne_end hcomma)).bind fun _ _ => ?_
    refine (hitem.reads hs (by omega) (kindOf_more items hmore hr)).bind fun a ha => ?_
    refine (ih (a :: acc) hmore (by omega) (by omega)).mono ?_
    rintro _ ⟨more, rfl, hR⟩
    exact ⟨a :: more, by simp, .cons ha hR⟩

theorem returns_listOf {items : List (List Lexeme)} {bs : List β}
    (h : List.Forall₂ (ReadsItem rounds item R) items bs)
    (hr : kindOf rest = symbolKind .closeParen)
    (hs : Spelled (separated items) ts rest) (hl : ts.length < rounds) :
    Returns (listOf rounds item) ts (fun as => List.Forall₂ R as bs) rest := by
  refine returns_nextKind.bind ?_
  rintro _ rfl
  cases h with
  | nil =>
    cases spelled_nil.mp hs
    rw [if_pos hr]
    exact returns_pure .nil
  | @cons ls b items bs hitem hitems =>
    obtain ⟨mid, hs, hmore⟩ := spelled_append.mp hs
    have hlen := hs.length_le
    rw [if_neg (not_closeParen_of_begins (hs.begins hitem.begins))]
    refine (hitem.reads hs hl (kindOf_more items hmore hr)).bind fun a ha => ?_
    refine (returns_commaSeparated hitems hr [a] hmore (by omega) (by omega)).mono ?_
    rintro _ ⟨more, rfl, hR⟩
    exact .cons ha hR

/-! ## Levels -/

/-- The tightest level at which a token continues the expression in front of it. -/
def pull : Kind → Nat
  | .mark (.symbol .equal) | .mark (.symbol .notEqual) => 1
  | .mark (.symbol .greater) | .mark (.symbol .atLeast) => 2
  | .mark (.symbol .less) | .mark (.symbol .atMost) => 2
  | .mark (.symbol .plus) | .mark (.symbol .minus) => 3
  | .mark (.symbol .star) | .mark (.symbol .slash) => 4
  | .mark (.symbol .dot) => 6
  | .mark (.symbol .openParen) => 8
  | _ => 0

theorem operator?_of_pull_lt {tier : Tier} {kind : Kind} (h : pull kind < tier.level) :
    tier.operator? kind = none := by
  unfold Tier.operator?
  split <;> first | rfl | exact absurd h (by decide)

theorem operator?_lexeme {tier : Tier} {op : BinaryOp} (h : op.level = tier.level) :
    tier.operator? op.lexeme.kind = some op ∧ pull op.lexeme.kind = tier.level := by
  cases op <;> cases tier <;> first | exact ⟨rfl, rfl⟩ | cases h

theorem sign?_lexeme {op : UnaryOp} (h : op.Known) : sign? op.lexeme.kind = some op := by
  cases op <;> first | rfl | exact h.elim

theorem sign?_of_beginsPrimary {kind : Kind} (h : kind.beginsPrimary = true) :
    sign? kind = none := by
  unfold sign?
  split <;> first | rfl | cases h

/-- The rule of a level. -/
def ruleAt (rounds d : Nat) : Nat → Parser Node
  | 1 => tiered rounds d .equality
  | 2 => tiered rounds d .comparison
  | 3 => tiered rounds d .sum
  | 4 => tiered rounds d .product
  | 5 => unary rounds d
  | 6 => postfixed rounds d
  | _ => primary rounds d

theorem ruleAt_level (rounds d : Nat) (tier : Tier) :
    ruleAt rounds d tier.level = tiered rounds d tier := by
  cases tier <;> rfl

theorem tiered_succ (rounds d : Nat) (tier : Tier) :
    tiered rounds (d + 1) tier = ruleAt rounds d (tier.level + 1) >>=
      operatorsOf tier.operator? (ruleAt rounds d (tier.level + 1)) rounds := by
  cases tier <;> rfl

/-- The rule of a level reads some lexemes as a tree if its budget covers the need. -/
def ReadsText (rounds level : Nat) (ls : List Lexeme) (need : Nat) (n : Node) : Prop :=
  ∀ ⦃d ts rest⦄, Spelled ls ts rest → pull (kindOf rest) < level → need ≤ d → ts.length < rounds →
    Yields (ruleAt rounds d level) ts n rest

/-- A chain of operators of one tier is read, and the repetition goes on behind it. -/
def ReadsChain (rounds : Nat) (tier : Tier) (ls : List Lexeme) (need : Nat) (n : Node) : Prop :=
  ∀ ⦃d ts rest⦄, Spelled ls ts rest → pull (kindOf rest) ≤ tier.level → need ≤ d + 1 →
    ts.length < rounds → ∃ m fuel, m.erase = n.erase ∧ rest.length < fuel ∧
      tiered rounds (d + 1) tier ts =
        operatorsOf tier.operator? (ruleAt rounds d (tier.level + 1)) fuel m rest

variable {n : Node} {need : Nat} {tier : Tier}

theorem operatorsOf_stop {operator? : Kind → Option BinaryOp} (operand : Parser Node) (fuel : Nat)
    (left : Node) (h : operator? (kindOf ts) = none) :
    operatorsOf operator? operand fuel left ts = .ok (left, ts) := by
  cases fuel with
  | zero => rfl
  | succ fuel =>
    rw [operatorsOf, bind_of_ok nextKind_apply]
    simp only [h]
    rfl

theorem operatorsOf_step {tier : Tier} {operand : Parser Node} {fuel : Nat}
    {left right : Node} {op : BinaryOp} (h : tier.operator? (kindOf ts) = some op)
    (hr : operand ts.tail = .ok (right, rest)) :
    operatorsOf tier.operator? operand (fuel + 1) left ts =
      operatorsOf tier.operator? operand fuel (.binary left.pos op left right) rest := by
  rw [operatorsOf, bind_of_ok nextKind_apply]
  simp only [h]
  exact (bind_of_ok (advance_apply (Tier.operator?_ne_end h)) _).trans (bind_of_ok hr _)

theorem ReadsText.chain (h : ReadsText rounds (tier.level + 1) ls need n) :
    ReadsChain rounds tier ls (need + 1) n := by
  intro d ts rest hs hp hn hl
  obtain ⟨m, hm, he⟩ := h hs (Nat.lt_succ_of_le hp) (Nat.le_of_succ_le_succ hn) hl
  refine ⟨m, rounds, he, Nat.lt_of_le_of_lt hs.length_le hl, ?_⟩
  rw [tiered_succ]
  exact bind_of_ok hm _

theorem ReadsChain.step {left right : Node} {need' : Nat} {op : BinaryOp} (pos : Pos)
    (hop : op.level = tier.level) (h : ReadsChain rounds tier ls need left)
    (hr : ReadsText rounds (tier.level + 1) ls' need' right) :
    ReadsChain rounds tier (ls ++ op.lexeme :: ls') (max need (need' + 1))
      (.binary pos op left right) := by
  intro d ts rest hs hp hn hl
  obtain ⟨hoperator, hpull⟩ := operator?_lexeme hop
  obtain ⟨mid, hleft, hs⟩ := spelled_append.mp hs
  obtain ⟨oppos, after, rfl, hright⟩ := spelled_cons.mp hs
  have hlen := hleft.length_le
  simp only [List.length_cons] at hlen
  obtain ⟨m, fuel, hm, hfuel, hrun⟩ := h (d := d) hleft (Nat.le_of_eq hpull) (by omega) hl
  obtain ⟨r, hread, hre⟩ := hr hright (Nat.lt_succ_of_le hp) (d := d) (by omega) (by omega)
  have hafter := hright.length_le
  simp only [List.length_cons] at hfuel
  obtain ⟨fuel, rfl⟩ := Nat.exists_eq_succ_of_ne_zero (Nat.ne_zero_of_lt hfuel)
  refine ⟨.binary m.pos op m r, fuel, by rw [erase, erase, hm, hre], by omega, ?_⟩
  rw [hrun]
  exact operatorsOf_step hoperator hread

theorem ReadsChain.reads (h : ReadsChain rounds tier ls need n) (hneed : 0 < need) :
    ReadsText rounds tier.level ls need n := by
  intro d ts rest hs hp hn hl
  obtain ⟨d, rfl⟩ := Nat.exists_eq_succ_of_ne_zero (Nat.ne_zero_of_lt (Nat.lt_of_lt_of_le hneed hn))
  obtain ⟨m, fuel, hm, _, hrun⟩ := h hs (Nat.le_of_lt hp) hn hl
  refine ⟨m, ?_, hm⟩
  rw [ruleAt_level, hrun]
  exact operatorsOf_stop _ _ _ (operator?_of_pull_lt hp)

theorem methodsOf_stop (args : Parser (List Node)) (fuel : Nat) (bare : Bool) (receiver : Node)
    (h : kindOf ts ≠ symbolKind .dot) :
    methodsOf args fuel bare receiver ts = .ok (receiver, ts) := by
  cases fuel with
  | zero => rfl
  | succ fuel =>
    change (if kindOf ts = symbolKind .dot then _ else pure receiver : Parser Node) ts = _
    rw [if_neg h]
    rfl

theorem not_dot_of_pull_lt {k : Kind} (h : pull k < 6) : k ≠ symbolKind .dot := by
  rintro rfl
  exact absurd h (by decide)

/-- A rule of a looser level goes through the one below it. -/
theorem ReadsText.looser {level : Nat} (h : ReadsText rounds (level + 1) ls need n)
    (h1 : 1 ≤ level) (h7 : level < 7) (hb : level = 5 → Begins Kind.beginsPrimary ls) :
    ReadsText rounds level ls (need + 1) n := by
  have tier (tier : Tier) (h : ReadsText rounds (tier.level + 1) ls need n) :=
    h.chain.reads (Nat.succ_pos need)
  match level, h1, h7 with
  | 1, _, _ => exact tier .equality h
  | 2, _, _ => exact tier .comparison h
  | 3, _, _ => exact tier .sum h
  | 4, _, _ => exact tier .product h
  | 5, _, _ =>
    intro d ts rest hs hp hn hl
    obtain ⟨d, rfl⟩ := Nat.exists_eq_succ_of_ne_zero (Nat.ne_zero_of_lt hn)
    refine returns_nextKind.bind ?_
    rintro _ rfl
    rw [sign?_of_beginsPrimary (hs.begins (hb rfl))]
    exact h hs (Nat.lt_succ_of_lt hp) (Nat.le_of_succ_le_succ hn) hl
  | 6, _, _ =>
    intro d ts rest hs hp hn hl
    obtain ⟨d, rfl⟩ := Nat.exists_eq_succ_of_ne_zero (Nat.ne_zero_of_lt hn)
    refine returns_nextKind.bind fun _ _ => returns_secondKind.bind fun _ _ => ?_
    refine (h hs (Nat.lt_succ_of_lt hp) (Nat.le_of_succ_le_succ hn) hl).bind fun m hm => ?_
    exact ⟨m, methodsOf_stop _ _ _ _ (not_dot_of_pull_lt hp), hm⟩

theorem ReadsText.descend {low high : Nat} (h : ReadsText rounds high ls need n) (h1 : 1 ≤ low)
    (hle : low ≤ high) (h7 : high ≤ 7) (hb : 6 ≤ high → Begins Kind.beginsPrimary ls) :
    ReadsText rounds low ls (high - low + need) n := by
  obtain ⟨k, rfl⟩ := Nat.exists_eq_add_of_le hle
  clear hle
  induction k generalizing low with
  | zero => simpa using h
  | succ k ih =>
    have hnext : low + (k + 1) = low + 1 + k := by omega
    rw [hnext] at h h7 hb
    have htight := (ih (Nat.le_add_left ..) h h7 hb).looser h1 (by omega) fun h5 => hb (by omega)
    have hneed : low + 1 + k - (low + 1) + need + 1 = low + (k + 1) - low + need := by omega
    rwa [hneed] at htight

theorem expression_yields {d : Nat} (h : ReadsText rounds 1 ls need n) (hs : Spelled ls ts rest)
    (hp : pull (kindOf rest) = 0) (hn : need + 1 ≤ d) (hl : ts.length < rounds) :
    Yields (expression rounds d) ts n rest := by
  obtain ⟨d, rfl⟩ := Nat.exists_eq_succ_of_ne_zero (Nat.ne_zero_of_lt hn)
  exact h hs (hp ▸ Nat.one_pos) (Nat.le_of_succ_le_succ hn) hl

theorem ReadsText.inParens (h : ReadsText rounds 1 ls need n) :
    ReadsText rounds 7 (inParens ls) (need + 2) n := by
  intro d ts rest hs _ hn hl
  obtain ⟨d, rfl⟩ := Nat.exists_eq_succ_of_ne_zero (Nat.ne_zero_of_lt hn)
  obtain ⟨pos, after, rfl, hafter⟩ := spelled_cons.mp hs
  obtain ⟨mid, hinner, hclose⟩ := spelled_append.mp hafter
  obtain ⟨_, _, rfl, hnil⟩ := spelled_cons.mp hclose
  cases spelled_nil.mp hnil
  have hl' := Nat.lt_of_succ_lt hl
  refine returns_get.bind ?_
  rintro _ rfl
  refine (returns_set after).bind fun _ _ => ?_
  refine (expression_yields h hinner rfl (Nat.le_of_succ_le_succ hn) hl').bind fun m hm => ?_
  exact (returns_expectSymbol _ _).bind fun _ _ => ⟨m, rfl, hm⟩

/-- An expression is read wherever it is spelled for its place. -/
def ReadsExpr (rounds : Nat) (n : Node) : Prop :=
  ∀ level, 1 ≤ level → level ≤ 7 →
    ReadsText rounds level (placed level n.level n.exprLexemes) (n.nestingAt level) n

theorem level_le_seven (n : Node) : n.level ≤ 7 := by
  cases n with
  | binary pos op left right => cases op <;> simp [level, BinaryOp.level]
  | _ => simp [level]

/-- The rule of its own level is enough. -/
theorem readsExpr_of_own (hw : n.WellFormed) (he : n.isExpr = true)
    (h : ReadsText rounds n.level n.exprLexemes n.nesting n) : ReadsExpr rounds n := by
  intro level h1 h7
  have hbegins := (begins_exprLexemes hw he).2
  rw [placed, nestingAt, budgetAt]
  split
  · have hexpr := h.descend (Nat.le_refl 1) (one_le_level hw) (level_le_seven n) hbegins
    have hparens := hexpr.inParens.descend h1 h7 (Nat.le_refl 7) fun _ => begins_inParens _
    have hl := one_le_level hw
    have hneed : 7 - level + (n.level - 1 + n.nesting + 2) = 8 - level + (n.level + n.nesting) := by
      omega
    rwa [hneed] at hparens
  · next hle => exact h.descend h1 (Nat.le_of_not_lt hle) (level_le_seven n) hbegins

theorem ReadsExpr.expression {d : Nat} (h : ReadsExpr rounds n) (hw : n.WellFormed)
    (hs : Spelled n.exprLexemes ts rest) (hp : pull (kindOf rest) = 0)
    (hn : n.level + n.nesting ≤ d) (hl : ts.length < rounds) :
    Yields (expression rounds d) ts n rest := by
  have hlevel := one_le_level hw
  have hloose := h 1 (Nat.le_refl 1) (by decide)
  rw [placed, if_neg (Nat.not_lt.mpr hlevel), nestingAt, budgetAt,
    if_neg (Nat.not_lt.mpr hlevel)] at hloose
  exact expression_yields hloose hs hp (by omega) hl

/-! ## Arguments -/

/-- What the readings of larger trees assume of their parts. -/
structure Part (rounds : Nat) (n : Node) : Prop where
  wellFormed : n.WellFormed
  isExpr : n.isExpr = true
  reads : ReadsExpr rounds n

theorem endsArgument_of_begins {k : Kind} (h : k.beginsExpr = true) : endsArgument k = false := by
  unfold endsArgument
  split <;> first | rfl | cases h

theorem Part.readsItem {d : Nat} (h : Part rounds n) (hn : n.level + n.nesting + 1 ≤ d) :
    ReadsItem rounds (argument rounds d) (fun a b => a.erase = b.erase) n.exprLexemes n := by
  obtain ⟨d, rfl⟩ := Nat.exists_eq_succ_of_ne_zero (Nat.ne_zero_of_lt hn)
  have hbegins := (begins_exprLexemes h.wellFormed h.isExpr).1
  refine ⟨hbegins, fun {ts rest} hs hl hr => ?_⟩
  refine returns_nextKind.bind ?_
  rintro _ rfl
  rw [endsArgument_of_begins (hs.begins hbegins), if_neg Bool.false_ne_true]
  refine h.reads.expression h.wellFormed hs ?_ (Nat.le_of_succ_le_succ hn) hl
  rcases hr with hr | hr <;> rw [hr] <;> rfl

theorem forall₂_argLexemes {d : Nat} {args : List Node} (h : ∀ a ∈ args, Part rounds a)
    (hn : argNesting args ≤ d) :
    List.Forall₂ (ReadsItem rounds (argument rounds d) fun a b => a.erase = b.erase)
      (argLexemes args) args := by
  induction args with
  | nil => rw [argLexemes]; exact .nil
  | cons a args ih =>
    obtain ⟨ha, hargs⟩ := List.forall_mem_cons.mp h
    obtain ⟨hna, hnargs⟩ := Nat.max_le.mp hn
    rw [argLexemes]
    exact .cons (ha.readsItem hna) (ih hargs hnargs)

theorem eraseAll_eq {as bs : List Node} (h : List.Forall₂ (fun a b => a.erase = b.erase) as bs) :
    eraseAll as = eraseAll bs := by
  induction h with
  | nil => rfl
  | cons h _ ih => rw [eraseAll, eraseAll, h, ih]

theorem arguments_return {d : Nat} {args : List Node} (h : ∀ a ∈ args, Part rounds a)
    (hs : Spelled (separated (argLexemes args)) ts rest) (hr : kindOf rest = symbolKind .closeParen)
    (hn : argNesting args + 1 ≤ d) (hl : ts.length < rounds) :
    Returns (arguments rounds d) ts (fun as => eraseAll as = eraseAll args) rest := by
  obtain ⟨d, rfl⟩ := Nat.exists_eq_succ_of_ne_zero (Nat.ne_zero_of_lt hn)
  have hitems := forall₂_argLexemes h (Nat.le_of_succ_le_succ hn)
  exact (returns_listOf hitems hr hs hl).mono fun as has => eraseAll_eq has

/-! ## Primaries -/

theorem literal_reads {l : Lexeme} (hls : n.exprLexemes = [l])
    (h : ∀ d pos rest, Yields (primary rounds (d + 1)) (⟨l, pos⟩ :: rest) n rest) :
    ReadsText rounds 7 n.exprLexemes 1 n := by
  intro d ts rest hs _ hn _
  obtain ⟨d, rfl⟩ := Nat.exists_eq_succ_of_ne_zero (Nat.ne_zero_of_lt hn)
  rw [hls] at hs
  obtain ⟨pos, _, rfl, hnil⟩ := spelled_cons.mp hs
  cases spelled_nil.mp hnil
  exact h d pos rest

theorem call_reads {pos : Pos} {name : String} {args : List Node}
    (h : ∀ a ∈ args, Part rounds a) :
    ReadsText rounds 7 (call pos name args).exprLexemes (argNesting args + 2)
      (call pos name args) := by
  intro d ts rest hs _ hn hl
  obtain ⟨d, rfl⟩ := Nat.exists_eq_succ_of_ne_zero (Nat.ne_zero_of_lt hn)
  rw [exprLexemes] at hs
  obtain ⟨_, after, rfl, hopen⟩ := spelled_cons.mp hs
  obtain ⟨openPos, inside, rfl, hinside⟩ := spelled_cons.mp hopen
  obtain ⟨mid, hargs, hclose⟩ := spelled_append.mp hinside
  obtain ⟨_, _, rfl, hnil⟩ := spelled_cons.mp hclose
  cases spelled_nil.mp hnil
  simp only [List.length_cons] at hl
  have hparen : kindOf (⟨ofSymbol .openParen, openPos⟩ :: inside) = symbolKind .openParen := rfl
  refine returns_get.bind ?_
  rintro _ rfl
  refine (returns_set _).bind fun _ _ => ?_
  refine (returns_advance (symbol_ne_end hparen)).bind fun _ _ => ?_
  refine (arguments_return h hargs rfl (Nat.le_of_succ_le_succ hn) (by omega)).bind fun as has => ?_
  refine (returns_expectSymbol _ _).bind fun _ _ => ⟨_, rfl, ?_⟩
  simp only [erase, has]

theorem var_reads {pos : Pos} {name : String} :
    ReadsText rounds 7 (var pos name).exprLexemes 1 (var pos name) := by
  intro d ts rest hs hp hn _
  obtain ⟨d, rfl⟩ := Nat.exists_eq_succ_of_ne_zero (Nat.ne_zero_of_lt hn)
  rw [exprLexemes] at hs
  obtain ⟨_, _, rfl, hnil⟩ := spelled_cons.mp hs
  cases spelled_nil.mp hnil
  have hopen : kindOf rest ≠ symbolKind .openParen := by
    intro h
    rw [h] at hp
    exact absurd hp (by decide)
  refine returns_get.bind ?_
  rintro _ rfl
  refine (returns_set _).bind fun _ _ => ?_
  rw [if_neg hopen]
  exact ⟨_, rfl, rfl⟩

theorem unary_reads {pos : Pos} {op : UnaryOp} {operand : Node} (hop : op.Known)
    (h : ReadsExpr rounds operand) :
    ReadsText rounds 5 (Node.unary pos op operand).exprLexemes (operand.nestingAt 5 + 1)
      (.unary pos op operand) := by
  intro d ts rest hs hp hn hl
  obtain ⟨d, rfl⟩ := Nat.exists_eq_succ_of_ne_zero (Nat.ne_zero_of_lt hn)
  rw [exprLexemes] at hs
  obtain ⟨signPos, after, rfl, hoperand⟩ := spelled_cons.mp hs
  have hsign : sign? (kindOf (⟨op.lexeme, signPos⟩ :: after)) = some op := sign?_lexeme hop
  have hread := h 5 (by decide) (by decide) hoperand hp (Nat.le_of_succ_le_succ hn)
    (Nat.lt_of_succ_lt hl)
  refine returns_nextKind.bind ?_
  rintro _ rfl
  rw [hsign]
  refine returns_nextPos.bind fun _ _ => ?_
  refine (returns_advance (sign?_ne_end hsign)).bind fun _ _ => ?_
  refine Returns.bind hread fun m hm => ⟨_, rfl, ?_⟩
  simp only [erase, hm]

/-! ## Methods -/

/-- A chain of methods is read, and the repetition goes on behind it. -/
def ReadsMethods (rounds : Nat) (ls : List Lexeme) (need : Nat) (n : Node) : Prop :=
  ∀ ⦃d ts rest⦄, Spelled ls ts rest → need ≤ d + 1 → ts.length < rounds →
    ∃ m fuel, m.erase = n.erase ∧ rest.length < fuel ∧
      postfixed rounds (d + 1) ts = methodsOf (arguments rounds d) fuel false m rest

/-- The lexemes of a method behind its receiver. -/
def methodLexemes (method : String) (args : List Node) : List Lexeme :=
  ofSymbol .dot :: .name method :: inParens (separated (argLexemes args))

theorem methodsOf_step {d fuel : Nat} (bare : Bool) (receiver : Node) {method : String}
    {args : List Node} (h : ∀ a ∈ args, Part rounds a)
    (hs : Spelled (methodLexemes method args) ts rest) (hn : argNesting args + 1 ≤ d)
    (hl : ts.length < rounds) (hf : ts.length < fuel) :
    ∃ fuel' as, eraseAll as = eraseAll args ∧ rest.length < fuel' ∧
      methodsOf (arguments rounds d) fuel bare receiver ts =
        methodsOf (arguments rounds d) fuel' false (methodOn bare receiver method as) rest := by
  obtain ⟨fuel, rfl⟩ := Nat.exists_eq_succ_of_ne_zero (Nat.ne_zero_of_lt hf)
  obtain ⟨dotPos, _, rfl, hname⟩ := spelled_cons.mp hs
  obtain ⟨_, _, rfl, hopen⟩ := spelled_cons.mp hname
  obtain ⟨_, inside, rfl, hinside⟩ := spelled_cons.mp hopen
  obtain ⟨mid, hargs, hclose⟩ := spelled_append.mp hinside
  obtain ⟨_, _, rfl, hnil⟩ := spelled_cons.mp hclose
  cases spelled_nil.mp hnil
  have hlen := hargs.length_le
  simp only [List.length_cons] at hl hf hlen
  obtain ⟨as, hrun, has⟩ := arguments_return h hargs rfl hn (by omega)
  refine ⟨fuel, as, has, by omega, ?_⟩
  have hdot (more : List Token) : kindOf (⟨ofSymbol .dot, dotPos⟩ :: more) = symbolKind .dot := rfl
  rw [methodsOf]
  refine (bind_of_ok (nextKind_apply ..) _).trans ?_
  rw [if_pos (hdot _)]
  refine (bind_of_ok (advance_apply (symbol_ne_end (hdot _))) _).trans ?_
  refine (bind_of_ok (expectName_ok.mpr ⟨_, rfl⟩) _).trans ?_
  refine (bind_of_ok (expectSymbol_self ..) _).trans ?_
  refine (bind_of_ok hrun _).trans ?_
  exact bind_of_ok (expectSymbol_self ..) _

theorem postfixed_of_primary {d : Nat} {m : Node} (h : primary rounds d ts = .ok (m, mid)) :
    postfixed rounds (d + 1) ts = methodsOf (arguments rounds d) rounds
      (kindOf ts = .name && kindOf ts.tail != symbolKind .openParen) m mid := by
  refine (bind_of_ok (nextKind_apply ..) _).trans ?_
  refine (bind_of_ok (secondKind_apply ..) _).trans ?_
  exact bind_of_ok h _

theorem ReadsMethods.reads (h : ReadsMethods rounds ls need n) (hneed : 0 < need) :
    ReadsText rounds 6 ls need n := by
  intro d ts rest hs hp hn hl
  obtain ⟨d, rfl⟩ := Nat.exists_eq_succ_of_ne_zero (Nat.ne_zero_of_lt (Nat.lt_of_lt_of_le hneed hn))
  obtain ⟨m, fuel, hm, _, hrun⟩ := h hs hn hl
  exact ⟨m, hrun.trans (methodsOf_stop _ _ _ _ (not_dot_of_pull_lt hp)), hm⟩

theorem methodCall_reads {pos : Pos} {receiver method : String} {args : List Node}
    (h : ∀ a ∈ args, Part rounds a) :
    ReadsMethods rounds (methodCall pos receiver method args).exprLexemes (argNesting args + 2)
      (methodCall pos receiver method args) := by
  intro d ts rest hs hn hl
  rw [exprLexemes] at hs
  obtain ⟨namePos, after, rfl, hmethod⟩ := spelled_cons.mp hs
  obtain ⟨_, _, rfl, _⟩ := spelled_cons.mp hmethod
  have hn := Nat.le_of_succ_le_succ hn
  obtain ⟨d, rfl⟩ := Nat.exists_eq_succ_of_ne_zero (Nat.ne_zero_of_lt hn)
  have hl' := Nat.lt_of_succ_lt hl
  obtain ⟨fuel, as, has, hfuel, hrun⟩ :=
    methodsOf_step true (.var namePos receiver) h hmethod hn hl' hl'
  refine ⟨_, fuel, ?_, hfuel, (postfixed_of_primary rfl).trans hrun⟩
  simp only [methodOn, erase, has]

theorem erase_methodOn {bare : Bool} {m receiver : Node} {pos : Pos} {method : String}
    {as args : List Node} (hm : m.erase = receiver.erase) (has : eraseAll as = eraseAll args)
    (hb : bare = true → ∀ pos name, receiver ≠ .var pos name) :
    (methodOn bare m method as).erase = (exprMethodCall pos receiver method args).erase := by
  unfold methodOn
  split
  · next name =>
    cases receiver with
    | var => exact absurd rfl (hb rfl _ _)
    | _ => simp only [erase] at hm; cases hm
  · simp only [erase, hm, has]

/-- Behind a receiver that is no method itself. -/
theorem exprMethodCall_reads_first {pos : Pos} {receiver : Node} {method : String}
    {args : List Node} (h : ∀ a ∈ args, Part rounds a)
    (hr : ReadsText rounds 7 ls need receiver)
    (hvar : ∀ pos name, receiver = .var pos name →
      Begins (· = symbolKind .openParen) ls) :
    ReadsMethods rounds (ls ++ methodLexemes method args) (max (need + 1) (argNesting args + 2))
      (exprMethodCall pos receiver method args) := by
  intro d ts rest hs hn hl
  obtain ⟨hn, hargs⟩ := Nat.max_le.mp hn
  obtain ⟨mid, hreceiver, hmethod⟩ := spelled_append.mp hs
  have hlen := hreceiver.length_le
  have hdot : pull (kindOf mid) < 7 := by
    obtain ⟨_, _, rfl, _⟩ := spelled_cons.mp hmethod
    exact (by decide : (6 : Nat) < 7)
  obtain ⟨m, hrun, hm⟩ := hr hreceiver hdot (Nat.le_of_succ_le_succ hn) hl
  obtain ⟨fuel, as, has, hfuel, hstep⟩ :=
    methodsOf_step (kindOf ts = .name && kindOf ts.tail != symbolKind .openParen) m h hmethod
      (Nat.le_of_succ_le_succ hargs) (Nat.lt_of_le_of_lt hlen hl) (Nat.lt_of_le_of_lt hlen hl)
  refine ⟨_, fuel, erase_methodOn hm has fun hbare pos name heq => ?_, hfuel,
    (postfixed_of_primary hrun).trans hstep⟩
  have hopen := of_decide_eq_true (hreceiver.begins (hvar pos name heq))
  rw [hopen] at hbare
  exact absurd hbare Bool.false_ne_true

/-- Behind a receiver that ends with a method. -/
theorem exprMethodCall_reads_next {pos : Pos} {receiver : Node} {method : String}
    {args : List Node} (h : ∀ a ∈ args, Part rounds a)
    (hr : ReadsMethods rounds ls need receiver) :
    ReadsMethods rounds (ls ++ methodLexemes method args) (max need (argNesting args + 2))
      (exprMethodCall pos receiver method args) := by
  intro d ts rest hs hn hl
  obtain ⟨hn, hargs⟩ := Nat.max_le.mp hn
  obtain ⟨mid, hreceiver, hmethod⟩ := spelled_append.mp hs
  have hlen := hreceiver.length_le
  obtain ⟨m, fuel, hm, hfuel, hrun⟩ := hr hreceiver hn hl
  obtain ⟨fuel', as, has, hfuel', hstep⟩ :=
    methodsOf_step false m h hmethod (Nat.le_of_succ_le_succ hargs)
      (Nat.lt_of_le_of_lt hlen hl) hfuel
  exact ⟨_, fuel', erase_methodOn hm has (fun h => absurd h Bool.false_ne_true), hfuel',
    hrun.trans hstep⟩

/-! ## All expressions -/

/-- An expression is read at every place, and the chain that it may begin is read as one. -/
structure ReadsAll (rounds : Nat) (n : Node) : Prop where
  expr : ReadsExpr rounds n
  chain : ∀ tier, n.level = tier.level → ReadsChain rounds tier n.exprLexemes n.nesting n
  methods : n.level = 6 → ReadsMethods rounds n.exprLexemes n.nesting n

theorem tierOf {op : BinaryOp} (h : op.Known) : ∃ tier : Tier, op.level = tier.level := by
  cases op with
  | equal | notEqual => exact ⟨.equality, rfl⟩
  | greater | atLeast | less | atMost => exact ⟨.comparison, rfl⟩
  | add | sub => exact ⟨.sum, rfl⟩
  | mul | div => exact ⟨.product, rfl⟩
  | other => exact h.elim

theorem nestingAt_succ {level : Nat} (h : n.level ≠ level) (h7 : level < 7) :
    n.nestingAt level = n.nestingAt (level + 1) + 1 := by
  simp only [nestingAt, budgetAt]
  split <;> split <;> omega

theorem placed_succ {level own : Nat} (h : own ≠ level) :
    placed level own ls = placed (level + 1) own ls := by
  simp only [placed]
  split <;> split <;> first | rfl | omega

/-- A left operand begins the chain, or is one itself. -/
theorem ReadsAll.leftOperand (h : ReadsAll rounds n) (tier : Tier) :
    ReadsChain rounds tier (placed tier.level n.level n.exprLexemes) (n.nestingAt tier.level)
      n := by
  by_cases heq : n.level = tier.level
  · have hchain := h.chain tier heq
    rwa [placed, if_neg (by omega), nestingAt, budgetAt, if_neg (by omega), heq, Nat.sub_self,
      Nat.zero_add]
  · have h7 : tier.level < 7 := by cases tier <;> decide
    rw [placed_succ heq, nestingAt_succ heq h7]
    exact (h.expr (tier.level + 1) (Nat.le_add_left ..) h7).chain

theorem binary_reads {pos : Pos} {op : BinaryOp} {left right : Node} {tier : Tier}
    (hop : op.level = tier.level) (hl : ReadsAll rounds left) (hr : ReadsExpr rounds right) :
    ReadsChain rounds tier (binary pos op left right).exprLexemes
      (binary pos op left right).nesting (binary pos op left right) := by
  have h7 : tier.level < 7 := by cases tier <;> decide
  have hstep := (hl.leftOperand tier).step pos hop (hr (tier.level + 1) (Nat.le_add_left ..) h7)
  rwa [exprLexemes, nesting, hop]

theorem exprMethodCall_reads {pos : Pos} {receiver : Node} {method : String} {args : List Node}
    (hr : ReadsAll rounds receiver) (h : ∀ a ∈ args, Part rounds a) :
    ReadsMethods rounds (exprMethodCall pos receiver method args).exprLexemes
      (exprMethodCall pos receiver method args).nesting
      (exprMethodCall pos receiver method args) := by
  have placedReceiver (hv : ∀ pos name, receiver ≠ .var pos name) :
      ReadsMethods rounds
        (placed 6 receiver.level receiver.exprLexemes ++ methodLexemes method args)
        (max (receiver.nestingAt 6) (argNesting args + 2))
        (exprMethodCall pos receiver method args) := by
    by_cases heq : receiver.level = 6
    · rw [placed, if_neg (by omega), nestingAt, budgetAt, if_neg (by omega), heq, Nat.sub_self,
        Nat.zero_add]
      exact exprMethodCall_reads_next h (hr.methods heq)
    · rw [placed_succ heq, nestingAt_succ heq (by decide)]
      exact exprMethodCall_reads_first h (hr.expr 7 (by decide) (by decide))
        fun pos name hvar => absurd hvar (hv pos name)
  rw [exprLexemes, nesting]
  cases receiver with
  | var varPos name =>
    have hinner := (hr.expr 1 (by decide) (by decide)).inParens
    exact exprMethodCall_reads_first h hinner fun _ _ _ => ⟨_, _, rfl, rfl⟩
  | _ => exact placedReceiver fun _ _ hvar => by cases hvar

/-- Every well-formed expression is read back from its spelling. -/
theorem readsAll (rounds : Nat) (hw : n.WellFormed) (he : n.isExpr = true) : ReadsAll rounds n := by
  induction n using childInduction with
  | step n ih =>
  have child {m : Node} (hm : m ∈ n.children) (he : m.isExpr = true) : ReadsAll rounds m :=
    ih m hm (hw.child hm) he
  have part {m : Node} (hm : m ∈ n.children) (he : m.isExpr = true) : Part rounds m :=
    ⟨hw.child hm, he, (child hm he).expr⟩
  have loose (h5 : 5 ≤ n.level) (tier : Tier) (h : n.level = tier.level) :
      ReadsChain rounds tier n.exprLexemes n.nesting n := by
    cases tier <;> exact absurd (h ▸ h5) (by decide)
  have leaf (hlevel : n.level = 7) (hown : ReadsText rounds 7 n.exprLexemes n.nesting n) :
      ReadsAll rounds n :=
    ⟨readsExpr_of_own hw he (hlevel ▸ hown), loose (by omega), fun h => by omega⟩
  have methods (hlevel : n.level = 6)
      (hown : ReadsMethods rounds n.exprLexemes n.nesting n) : ReadsAll rounds n :=
    ⟨readsExpr_of_own hw he (hlevel ▸ hown.reads (nesting_pos n)), loose (by omega), fun _ => hown⟩
  cases n with
  | int pos value =>
    exact leaf rfl (literal_reads (by rw [exprLexemes]) fun _ p _ => ⟨.int p value, rfl, rfl⟩)
  | float pos value =>
    exact leaf rfl (literal_reads (by rw [exprLexemes]) fun _ p _ => ⟨.float p value, rfl, rfl⟩)
  | string pos text =>
    exact leaf rfl (literal_reads (by rw [exprLexemes]) fun _ p _ => ⟨.string p text, rfl, rfl⟩)
  | bool pos value =>
    refine leaf rfl (literal_reads (by rw [exprLexemes]) fun _ _ _ => ?_)
    cases value <;> exact ⟨_, rfl, rfl⟩
  | var pos name => exact leaf rfl var_reads
  | unary pos op operand =>
    have hoperand := child (List.mem_cons_self ..) hw.proper.2
    have hown : ReadsText rounds 5 (Node.unary pos op operand).exprLexemes _ _ :=
      unary_reads hw.proper.1 hoperand.expr
    exact ⟨readsExpr_of_own hw he hown, loose (Nat.le_refl 5), fun h => by cases h⟩
  | binary pos op left right =>
    obtain ⟨hop, hl, hr⟩ := hw.proper
    have hright := child (List.mem_cons_of_mem _ (List.mem_singleton.mpr rfl)) hr
    have hchain (tier : Tier) (htier : op.level = tier.level) :
        ReadsChain rounds tier (binary pos op left right).exprLexemes _ _ :=
      binary_reads htier (child (List.mem_cons_self ..) hl) hright.expr
    obtain ⟨tier, htier⟩ := tierOf hop
    have hown := (hchain tier htier).reads (nesting_pos _)
    refine ⟨readsExpr_of_own hw he (by rwa [level, htier]), hchain, fun h => ?_⟩
    have h6 : tier.level = 6 := htier.symm.trans h
    cases tier <;> cases h6
  | call pos name args =>
    exact leaf rfl (call_reads fun a ha => part ha (hw.proper.2 a ha))
  | methodCall pos receiver method args =>
    exact methods rfl (methodCall_reads fun a ha => part ha (hw.proper.2.2 a ha))
  | exprMethodCall pos receiver method args =>
    obtain ⟨hr, _, ha⟩ := hw.proper
    exact methods rfl (exprMethodCall_reads (child (List.mem_cons_self ..) hr)
      fun a hm => part (List.mem_cons_of_mem _ hm) (ha a hm))
  | unknown => exact hw.proper.elim
  | _ => cases he

end ExScript.Parser
