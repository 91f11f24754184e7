import ExScript.Proofs.GrammarComplete
import ExScript.Proofs.MovedPositions

/-!
# More tokens behind a text

The parser looks at most past the line ends behind a statement, for an `else`.  So what it reads of
tokens that end with a line end it also reads when they stand at other positions and more tokens come
behind them, unless these go on with an `else` (`programFrom_moved`).  `Carries` says so of two
parsers at some tokens; it holds of the rules by induction on the nesting budget.
-/

namespace ExScript

namespace Parser

open Node (mapPos)

/-! ## Tokens -/

/-- Tokens whose last one ends a line. -/
def Ended (ts : List Token) : Prop := ∃ t ∈ ts.getLast?, isNewline t = true

/-- The tokens at other positions, with more tokens behind them. -/
def moved (f : Pos → Pos) (more ts : List Token) : List Token := ts.map (Token.mapPos f) ++ more

variable {α β : Type} {f : Pos → Pos} {more ts : List Token}

theorem Ended.ne_nil (h : Ended ts) : ts ≠ [] := by
  rintro rfl
  obtain ⟨t, ht, _⟩ := h
  cases ht

theorem Ended.suffix {rest : List Token} (h : Ended ts) (hs : rest <:+ ts) (hne : rest ≠ []) :
    Ended rest := by
  obtain ⟨taken, rfl⟩ := hs
  obtain ⟨t, ht, hn⟩ := h
  rw [List.getLast?_append_of_ne_nil _ hne] at ht
  exact ⟨t, ht, hn⟩

/-- Only a line end can be the last token. -/
theorem Ended.tail (h : Ended ts) (hk : kindOf ts ≠ .mark .newline) :
    Ended ts.tail ∧ ts.tail.length < ts.length := by
  cases ts with
  | nil => exact absurd rfl h.ne_nil
  | cons t rest =>
    refine ⟨h.suffix (List.suffix_cons t rest) ?_, Nat.lt_succ_self _⟩
    rintro rfl
    obtain ⟨u, hu, hn⟩ := h
    cases hu
    exact hk (of_decide_eq_true hn)

theorem kindOf_moved (h : ts ≠ []) : kindOf (moved f more ts) = kindOf ts := by
  cases ts with
  | nil => exact absurd rfl h
  | cons t rest => rfl

theorem posOf_moved (h : ts ≠ []) : posOf (moved f more ts) = f (posOf ts) := by
  cases ts with
  | nil => exact absurd rfl h
  | cons t rest => rfl

theorem tail_moved (h : ts ≠ []) : (moved f more ts).tail = moved f more ts.tail := by
  cases ts with
  | nil => exact absurd rfl h
  | cons t rest => rfl

theorem dropWhile_moved (h : ts.dropWhile isNewline ≠ []) :
    (moved f more ts).dropWhile isNewline = moved f more (ts.dropWhile isNewline) := by
  induction ts with
  | nil => exact absurd rfl h
  | cons t rest ih =>
    have hsame : isNewline (t.mapPos f) = isNewline t := rfl
    by_cases ht : isNewline t = true
    · rw [List.dropWhile_cons_of_pos ht] at h ⊢
      rw [← ih h]
      exact List.dropWhile_cons_of_pos (hsame.trans ht)
    · rw [List.dropWhile_cons_of_neg ht]
      exact List.dropWhile_cons_of_neg (hsame ▸ ht)

theorem dropWhile_moved_nil (h : ts.dropWhile isNewline = []) :
    (moved f more ts).dropWhile isNewline = more.dropWhile isNewline := by
  induction ts with
  | nil => rfl
  | cons t rest ih =>
    have hsame : isNewline (t.mapPos f) = isNewline t := rfl
    by_cases ht : isNewline t = true
    · rw [List.dropWhile_cons_of_pos ht] at h
      rw [← ih h]
      exact List.dropWhile_cons_of_pos (hsame.trans ht)
    · rw [List.dropWhile_cons_of_neg ht] at h
      cases h

theorem elseFollows_moved (hm : elseFollows more = false) :
    elseFollows (moved f more ts) = elseFollows ts := by
  by_cases h : ts.dropWhile isNewline = []
  · rw [elseFollows, elseFollows, dropWhile_moved_nil h, h]
    exact hm
  · rw [elseFollows, elseFollows, dropWhile_moved h, kindOf_moved h]

/-! ## Steps -/

/-- What the first parser reads of the tokens, the second one reads of the moved ones. -/
def Carries (f : Pos → Pos) (more : List Token) (g : α → α) (p q : Parser α) (ts : List Token) :
    Prop :=
  ∀ ⦃a rest⦄, p ts = .ok (a, rest) → Ended rest ∧ rest.length ≤ ts.length ∧
    q (moved f more ts) = .ok (g a, moved f more rest)

section Steps

variable {g : α → α} {g' : β → β} {p q : Parser α}

theorem Carries.bind {k k' : α → Parser β} (h : Carries f more g p q ts)
    (hk : ∀ a mid, Ended mid → mid.length ≤ ts.length → Carries f more g' (k a) (k' (g a)) mid) :
    Carries f more g' (p >>= k) (q >>= k') ts := by
  intro b rest hb
  obtain ⟨a, mid, ha, hkb⟩ := bind_ok.mp hb
  obtain ⟨hmid, hlen, hq⟩ := h ha
  obtain ⟨hrest, hless, hq'⟩ := hk a mid hmid hlen hkb
  exact ⟨hrest, hless.trans hlen, (bind_of_ok hq k').trans hq'⟩

theorem carries_pure (hts : Ended ts) {a b : α} (h : b = g a) :
    Carries f more g (pure a) (pure b) ts := by
  rintro _ _ ⟨⟩
  exact ⟨hts, Nat.le_refl _, h ▸ rfl⟩

theorem carries_stop (expected : Expected) : Carries f more g (stop expected) q ts := by
  rintro _ _ ⟨⟩

theorem carries_tooDeep : Carries f more g tooDeep q ts := by
  rintro _ _ ⟨⟩

theorem carries_get {k k' : List Token → Parser α}
    (h : Carries f more g (k ts) (k' (moved f more ts)) ts) :
    Carries f more g (get >>= k) (get >>= k') ts :=
  fun _ _ ha => h ha

theorem carries_set {rest : List Token} (hle : rest.length ≤ ts.length)
    {k k' : PUnit → Parser α} (h : Carries f more g (k ⟨⟩) (k' ⟨⟩) rest) :
    Carries f more g (set rest >>= k) (set (moved f more rest) >>= k') ts := by
  intro a mid ha
  obtain ⟨hmid, hlen, hq⟩ := @h a mid ha
  exact ⟨hmid, hlen.trans hle, hq⟩

theorem carries_nextKind (hts : Ended ts) {k k' : Kind → Parser α}
    (h : Carries f more g (k (kindOf ts)) (k' (kindOf ts)) ts) :
    Carries f more g (nextKind >>= k) (nextKind >>= k') ts := by
  intro a rest ha
  have hq := @h a rest ha
  have hkind : kindOf (moved f more ts) = kindOf ts := kindOf_moved hts.ne_nil
  rw [← hkind] at hq
  exact hq

/-- A line end may be the last token, so that another kind may follow it in the moved tokens. -/
theorem carries_secondKind (hts : Ended ts) {k k' : Kind → Parser α}
    (hk : kindOf ts = .mark .newline → ∀ second, k' second = k' (kindOf ts.tail))
    (h : Carries f more g (k (kindOf ts.tail)) (k' (kindOf ts.tail)) ts) :
    Carries f more g (secondKind >>= k) (secondKind >>= k') ts := by
  intro a rest ha
  have hq := @h a rest ha
  have hsame : k' (kindOf (moved f more ts).tail) = k' (kindOf ts.tail) := by
    by_cases hn : kindOf ts = .mark .newline
    · exact hk hn _
    · rw [tail_moved hts.ne_nil, kindOf_moved (hts.tail hn).1.ne_nil]
  rw [← hsame] at hq
  exact hq

theorem carries_nextPos (hts : Ended ts) {k k' : Pos → Parser α}
    (h : Carries f more g (k (posOf ts)) (k' (f (posOf ts))) ts) :
    Carries f more g (nextPos >>= k) (nextPos >>= k') ts := by
  intro a rest ha
  have hq := @h a rest ha
  have hpos : posOf (moved f more ts) = f (posOf ts) := posOf_moved hts.ne_nil
  rw [← hpos] at hq
  exact hq

theorem carries_advance (hts : Ended ts)
    (hn : kindOf ts ≠ .mark .newline ∧ kindOf ts ≠ .mark .endOfInput) {k k' : Unit → Parser α}
    (h : Ended ts.tail → ts.tail.length < ts.length → Carries f more g (k ()) (k' ()) ts.tail) :
    Carries f more g (advance >>= k) (advance >>= k') ts := by
  intro a rest ha
  obtain ⟨htail, hlen⟩ := hts.tail hn.1
  obtain ⟨hrest, hless, hq⟩ := h htail hlen ((bind_of_ok (advance_apply hn.2) k).symm.trans ha)
  rw [← tail_moved hts.ne_nil] at hq
  refine ⟨hrest, hless.trans hlen.le, (bind_of_ok (advance_apply ?_) k').trans hq⟩
  rw [kindOf_moved hts.ne_nil]
  exact hn.2

theorem carries_expect (hts : Ended ts) {kind : Kind}
    (hn : kind ≠ .mark .newline ∧ kind ≠ .mark .endOfInput) {k k' : Unit → Parser α}
    (h : Ended ts.tail → ts.tail.length < ts.length → Carries f more g (k ()) (k' ()) ts.tail) :
    Carries f more g (expect kind >>= k) (expect kind >>= k') ts := by
  intro a rest ha
  obtain ⟨_, mid, hmid, hk⟩ := bind_ok.mp ha
  obtain ⟨hkind, rfl⟩ := (expect_ok hn.2).mp hmid
  obtain ⟨htail, hlen⟩ := hts.tail (hkind ▸ hn.1)
  obtain ⟨hrest, hless, hq⟩ := h htail hlen hk
  refine ⟨hrest, hless.trans hlen.le, (bind_of_ok ((expect_ok hn.2).mpr ⟨?_, ?_⟩) k').trans hq⟩
  · rw [kindOf_moved hts.ne_nil, hkind]
  · exact tail_moved hts.ne_nil

theorem carries_expectName (hts : Ended ts) (expected : Expected) :
    Carries f more id (expectName expected) (expectName expected) ts := by
  intro name rest h
  obtain ⟨pos, rfl⟩ := expectName_ok.mp h
  obtain ⟨htail, hlen⟩ := hts.tail (by simp [kindOf, Token.kind, Lexeme.kind])
  exact ⟨htail, hlen.le, expectName_ok.mpr ⟨f pos, rfl⟩⟩

/-- Nothing is carried on if only line ends are left. -/
theorem carries_skipNewlines (hts : Ended ts) {k k' : Unit → Parser α}
    (hnil : ts.dropWhile isNewline = [] → ∀ x, k () [] ≠ .ok x)
    (h : Ended (ts.dropWhile isNewline) → (ts.dropWhile isNewline).length ≤ ts.length →
      Carries f more g (k ()) (k' ()) (ts.dropWhile isNewline)) :
    Carries f more g (skipNewlines >>= k) (skipNewlines >>= k') ts := by
  intro a rest ha
  have hsuffix := List.dropWhile_suffix (l := ts) isNewline
  have hk : k () (ts.dropWhile isNewline) = .ok (a, rest) := ha
  by_cases hne : ts.dropWhile isNewline = []
  · exact absurd (hne ▸ hk) (hnil hne _)
  · obtain ⟨hrest, hless, hq⟩ := h (hts.suffix hsuffix hne) hsuffix.length_le hk
    rw [← dropWhile_moved hne] at hq
    exact ⟨hrest, hless.trans hsuffix.length_le, hq⟩

end Steps

/-! ## Repetitions -/

/-- The second parser carries on all tokens that are fewer than the rounds of a repetition. -/
def Carried (f : Pos → Pos) (more : List Token) (rounds : Nat) (g : α → α) (p q : Parser α) :
    Prop :=
  ∀ ⦃ts⦄, Ended ts → ts.length < rounds → Carries f more g p q ts

section Repetitions

variable {rounds rounds' : Nat}

theorem carries_commaSeparated {g : α → α} {p q : Parser α} (h : Carried f more rounds g p q)
    (fuel : Nat) : ∀ {fuel' ts} items, fuel ≤ rounds → fuel ≤ fuel' → Ended ts →
      ts.length < fuel → Carries f more (List.map g) (commaSeparated p fuel items)
        (commaSeparated q fuel' (items.map g)) ts := by
  induction fuel with
  | zero => exact fun _ _ _ _ hlen => absurd hlen (Nat.not_lt_zero _)
  | succ fuel ih =>
    intro fuel' ts items hr hf hts hlen
    obtain ⟨fuel', rfl⟩ := Nat.exists_eq_succ_of_ne_zero (Nat.ne_zero_of_lt hf)
    refine carries_nextKind hts ?_
    split
    case isTrue hk =>
      refine carries_advance hts (by rw [hk]; decide) fun htail hless => ?_
      refine (h htail (by omega)).bind fun a mid hmid hle => ?_
      exact ih (a :: items) (by omega) (by omega) hmid (by omega)
    case isFalse => exact carries_pure hts (by simp)

theorem carried_listOf {g : α → α} {p q : Parser α} (h : Carried f more rounds g p q)
    (hr : rounds ≤ rounds') :
    Carried f more rounds (List.map g) (listOf rounds p) (listOf rounds' q) := by
  intro ts hts hlen
  refine carries_nextKind hts ?_
  split
  · exact carries_pure hts rfl
  · refine (h hts hlen).bind fun a mid hmid hle => ?_
    exact carries_commaSeparated h rounds [a] (Nat.le_refl _) hr hmid (by omega)

theorem carries_operatorsOf (tier : Tier) {p q : Parser Node}
    (h : Carried f more rounds (mapPos f) p q) (fuel : Nat) :
    ∀ {fuel' ts} left, fuel ≤ rounds → fuel ≤ fuel' → Ended ts → ts.length < fuel →
      Carries f more (mapPos f) (operatorsOf tier.operator? p fuel left)
        (operatorsOf tier.operator? q fuel' (left.mapPos f)) ts := by
  induction fuel with
  | zero => exact fun _ _ _ _ hlen => absurd hlen (Nat.not_lt_zero _)
  | succ fuel ih =>
    intro fuel' ts left hr hf hts hlen
    obtain ⟨fuel', rfl⟩ := Nat.exists_eq_succ_of_ne_zero (Nat.ne_zero_of_lt hf)
    refine carries_nextKind hts ?_
    split
    next op hop =>
      obtain ⟨s, _, hk⟩ := operators_of_operator? hop
      refine carries_advance hts (hk ▸ ⟨nofun, nofun⟩) fun htail hless => ?_
      refine (h htail (by omega)).bind fun right mid hmid hle => ?_
      rw [Node.pos_mapPos]
      exact ih (.binary left.pos op left right) (by omega) (by omega) hmid (by omega)
    next => exact carries_pure hts rfl

theorem methodOn_mapPos (bare : Bool) (receiver : Node) (method : String) (args : List Node) :
    methodOn bare (receiver.mapPos f) method (args.map (mapPos f)) =
      (methodOn bare receiver method args).mapPos f := by
  rw [← Node.mapPosAll_eq_map]
  cases bare with
  | false => exact congrArg (Node.exprMethodCall · _ _ _) (Node.pos_mapPos f receiver)
  | true => cases receiver <;> rfl

theorem carries_methodsOf {p q : Parser (List Node)}
    (h : Carried f more rounds (List.map (mapPos f)) p q) (fuel : Nat) :
    ∀ {fuel' ts} bare receiver, fuel ≤ rounds → fuel ≤ fuel' → Ended ts → ts.length < fuel →
      Carries f more (mapPos f) (methodsOf p fuel bare receiver)
        (methodsOf q fuel' bare (receiver.mapPos f)) ts := by
  induction fuel with
  | zero => exact fun _ _ _ _ _ hlen => absurd hlen (Nat.not_lt_zero _)
  | succ fuel ih =>
    intro fuel' ts bare receiver hr hf hts hlen
    obtain ⟨fuel', rfl⟩ := Nat.exists_eq_succ_of_ne_zero (Nat.ne_zero_of_lt hf)
    refine carries_nextKind hts ?_
    split
    case isTrue hk =>
      refine carries_advance hts (by rw [hk]; decide) fun htail hless => ?_
      refine (carries_expectName htail _).bind fun method _ hname hle => ?_
      refine carries_expect hname (by decide) fun hopen hle' => ?_
      refine (h hopen (by omega)).bind fun args _ hargs hle'' => ?_
      refine carries_expect hargs (by decide) fun hclose hle''' => ?_
      rw [methodOn_mapPos]
      exact ih false _ (by omega) (by omega) hclose (by omega)
    case isFalse => exact carries_pure hts rfl

theorem statementsOf_nil (item : Parser Node) (fuel : Nat) (items : List Node)
    (x : List Node × List Token) : statementsOf item fuel items [] ≠ .ok x := by
  cases fuel <;> exact nofun

theorem carries_statementsOf {p q : Parser Node} (h : Carried f more rounds (mapPos f) p q)
    (hp : Recognises p Grammar.Statement) (fuel : Nat) :
    ∀ {fuel' ts} items, fuel ≤ rounds → fuel ≤ fuel' → Ended ts → ts.length < fuel →
      Carries f more (List.map (mapPos f)) (statementsOf p fuel items)
        (statementsOf q fuel' (items.map (mapPos f))) ts := by
  induction fuel with
  | zero => exact fun _ _ _ _ hlen => absurd hlen (Nat.not_lt_zero _)
  | succ fuel ih =>
    intro fuel' ts items hr hf hts hlen
    obtain ⟨fuel', rfl⟩ := Nat.exists_eq_succ_of_ne_zero (Nat.ne_zero_of_lt hf)
    refine carries_nextKind hts ?_
    split
    next hk =>
      refine carries_advance hts (by rw [hk]; decide) fun htail _ => ?_
      exact carries_pure htail (by simp)
    next => exact carries_stop _
    next =>
      intro body rest hb
      obtain ⟨n, mid, hn, hrest⟩ := bind_ok.mp hb
      have hshort := (hp ts hn).past.shorter
      obtain ⟨hmid, -, hq⟩ := h hts (by omega) hn
      have hskip : Carries f more (List.map (mapPos f))
          (skipNewlines >>= fun _ => statementsOf p fuel (n :: items))
          (skipNewlines >>= fun _ => statementsOf q fuel' ((n :: items).map (mapPos f)))
          mid := by
        refine carries_skipNewlines hmid (fun _ => statementsOf_nil p fuel _) fun hdrop hle => ?_
        exact ih (n :: items) (by omega) (by omega) hdrop (by omega)
      obtain ⟨hend, hle, hq'⟩ := hskip hrest
      exact ⟨hend, by omega, (bind_of_ok hq _).trans hq'⟩

end Repetitions

/-! ## Rules -/

/-- The rules at a budget, with fewer and with more rounds for their repetitions. -/
structure CarriesRules (f : Pos → Pos) (more : List Token) (rounds rounds' d : Nat) : Prop where
  statement : Carried f more rounds (mapPos f) (statement rounds d) (statement rounds' d)
  assignment : Carried f more rounds (mapPos f) (assignment rounds d) (assignment rounds' d)
  fnDecl : Carried f more rounds (mapPos f) (fnDecl rounds d) (fnDecl rounds' d)
  whileLoop : Carried f more rounds (mapPos f) (whileLoop rounds d) (whileLoop rounds' d)
  forLoop : Carried f more rounds (mapPos f) (forLoop rounds d) (forLoop rounds' d)
  cond : Carried f more rounds (mapPos f) (cond rounds d) (cond rounds' d)
  ret : Carried f more rounds (mapPos f) (ret rounds d) (ret rounds' d)
  block : Carried f more rounds (List.map (mapPos f)) (block rounds d) (block rounds' d)
  expression : Carried f more rounds (mapPos f) (expression rounds d) (expression rounds' d)
  tiered : ∀ tier, Carried f more rounds (mapPos f) (tiered rounds d tier) (tiered rounds' d tier)
  unary : Carried f more rounds (mapPos f) (unary rounds d) (unary rounds' d)
  postfixed : Carried f more rounds (mapPos f) (postfixed rounds d) (postfixed rounds' d)
  arguments : Carried f more rounds (List.map (mapPos f)) (arguments rounds d)
    (arguments rounds' d)
  argument : Carried f more rounds (mapPos f) (argument rounds d) (argument rounds' d)
  primary : Carried f more rounds (mapPos f) (primary rounds d) (primary rounds' d)

variable {rounds rounds' d : Nat}

theorem statement_carried (ih : CarriesRules f more rounds rounds' d) :
    Carried f more rounds (mapPos f) (statement rounds (d + 1)) (statement rounds' (d + 1)) := by
  intro ts hts hlen
  refine carries_nextKind hts (carries_secondKind hts (fun hk second => ?_) ?_)
  · rw [hk]
  split
  · exact ih.assignment hts hlen
  · exact ih.fnDecl hts hlen
  · exact ih.whileLoop hts hlen
  · exact ih.forLoop hts hlen
  · exact ih.cond hts hlen
  · exact ih.ret hts hlen
  · exact carries_stop _
  · exact ih.expression hts hlen

theorem assignment_carried (ih : CarriesRules f more rounds rounds' d) :
    Carried f more rounds (mapPos f) (assignment rounds (d + 1)) (assignment rounds' (d + 1)) := by
  intro ts hts hlen
  refine carries_nextPos hts ((carries_expectName hts _).bind fun name _ hname hle => ?_)
  refine carries_expect hname (by decide) fun hvalue hless => ?_
  exact (ih.statement hvalue (by omega)).bind fun n _ hrest _ => carries_pure hrest rfl

theorem fnDecl_carried (ih : CarriesRules f more rounds rounds' d) (hr : rounds ≤ rounds') :
    Carried f more rounds (mapPos f) (fnDecl rounds (d + 1)) (fnDecl rounds' (d + 1)) := by
  intro ts hts hlen
  refine carries_nextPos hts (carries_expect hts (by decide) fun hword hless => ?_)
  refine (carries_expectName hword _).bind fun name _ hname hle => ?_
  refine carries_expect hname (by decide) fun hopen hless' => ?_
  have hparams : Carried f more rounds (List.map id) (listOf rounds (expectName .parameterName))
      (listOf rounds' (expectName .parameterName)) :=
    carried_listOf (fun _ hts _ => carries_expectName hts _) hr
  refine (hparams hopen (by omega)).bind fun params _ hclose hle' => ?_
  refine carries_expect hclose (by decide) fun hblock hless'' => ?_
  refine (ih.block hblock (by omega)).bind fun body _ hrest _ => carries_pure hrest ?_
  rw [List.map_id, ← Node.mapPosAll_eq_map]
  rfl

theorem whileLoop_carried (ih : CarriesRules f more rounds rounds' d) :
    Carried f more rounds (mapPos f) (whileLoop rounds (d + 1)) (whileLoop rounds' (d + 1)) := by
  intro ts hts hlen
  refine carries_nextPos hts (carries_expect hts (by decide) fun hword hless => ?_)
  refine (ih.expression hword (by omega)).bind fun test _ hblock hle => ?_
  refine (ih.block hblock (by omega)).bind fun body _ hrest _ => carries_pure hrest ?_
  rw [← Node.mapPosAll_eq_map]
  rfl

theorem forLoop_carried (ih : CarriesRules f more rounds rounds' d) :
    Carried f more rounds (mapPos f) (forLoop rounds (d + 1)) (forLoop rounds' (d + 1)) := by
  intro ts hts hlen
  refine carries_nextPos hts (carries_expect hts (by decide) fun hword hless => ?_)
  refine (carries_expectName hword _).bind fun name _ hname hle => ?_
  refine carries_expect hname (by decide) fun hin hless₁ => ?_
  refine carries_expect hin (by decide) fun hopen hless₂ => ?_
  refine (ih.expression hopen (by omega)).bind fun low _ hlow hle₁ => ?_
  refine carries_expect hlow (by decide) fun hcomma hless₃ => ?_
  refine (ih.expression hcomma (by omega)).bind fun high _ hhigh hle₂ => ?_
  refine carries_expect hhigh (by decide) fun hblock hless₄ => ?_
  refine (ih.block hblock (by omega)).bind fun body _ hrest _ => carries_pure hrest ?_
  rw [← Node.mapPosAll_eq_map]
  rfl

theorem ret_carried (ih : CarriesRules f more rounds rounds' d) :
    Carried f more rounds (mapPos f) (ret rounds (d + 1)) (ret rounds' (d + 1)) := by
  intro ts hts hlen
  refine carries_nextPos hts (carries_expect hts (by decide) fun hword hless => ?_)
  exact (ih.expression hword (by omega)).bind fun n _ hrest _ => carries_pure hrest rfl

/-- A conditional goes on behind its first block if an `else` follows. -/
theorem cond_carried (ih : CarriesRules f more rounds rounds' d) (hm : elseFollows more = false) :
    Carried f more rounds (mapPos f) (cond rounds (d + 1)) (cond rounds' (d + 1)) := by
  intro ts hts hlen
  refine carries_nextPos hts (carries_expect hts (by decide) fun hword hless => ?_)
  refine (ih.expression hword (by omega)).bind fun test _ hblock hle => ?_
  refine (ih.block hblock (by omega)).bind fun body after hafter hle' => carries_get ?_
  rw [elseFollows_moved hm, ← Node.mapPosAll_eq_map]
  split
  case isTrue helse =>
    have hkind : kindOf (after.dropWhile isNewline) = keywordKind .elseWord :=
      of_decide_eq_true helse
    refine carries_skipNewlines hafter (fun hnil => ?_) fun hskip hle₁ => ?_
    · rw [hnil] at hkind
      cases hkind
    refine carries_advance hskip (by rw [hkind]; decide) fun hother hless' => ?_
    refine carries_nextKind hother ?_
    split
    · exact (ih.cond hother (by omega)).bind fun n _ hrest _ => carries_pure hrest rfl
    · refine (ih.block hother (by omega)).bind fun other _ hrest _ => carries_pure hrest ?_
      rw [← Node.mapPosAll_eq_map]
      rfl
  case isFalse => exact carries_pure hafter rfl

theorem block_carried (ih : CarriesRules f more rounds rounds' d) (hr : rounds ≤ rounds') :
    Carried f more rounds (List.map (mapPos f)) (block rounds (d + 1)) (block rounds' (d + 1)) := by
  intro ts hts hlen
  refine carries_expect hts (by decide) fun hopen hless => ?_
  refine carries_skipNewlines hopen (fun _ => statementsOf_nil _ _ _) fun hskip hle => ?_
  have hs := (sound rounds d).statement
  exact carries_statementsOf ih.statement hs rounds [] (Nat.le_refl _) hr hskip (by omega)

theorem tiered_carried (ih : CarriesRules f more rounds rounds' d) (hr : rounds ≤ rounds')
    (tier : Tier) : Carried f more rounds (mapPos f) (tiered rounds (d + 1) tier)
      (tiered rounds' (d + 1) tier) := by
  have rule {p q : Parser Node} (h : Carried f more rounds (mapPos f) p q) :
      Carried f more rounds (mapPos f)
        (do let first ← p; operatorsOf tier.operator? p rounds first)
        (do let first ← q; operatorsOf tier.operator? q rounds' first) := by
    intro ts hts hlen
    refine (h hts hlen).bind fun first _ hmid hle => ?_
    exact carries_operatorsOf tier h rounds first (Nat.le_refl _) hr hmid (by omega)
  cases tier with
  | equality => exact rule (ih.tiered .comparison)
  | comparison => exact rule (ih.tiered .sum)
  | sum => exact rule (ih.tiered .product)
  | product => exact rule ih.unary

theorem unary_carried (ih : CarriesRules f more rounds rounds' d) :
    Carried f more rounds (mapPos f) (unary rounds (d + 1)) (unary rounds' (d + 1)) := by
  intro ts hts hlen
  refine carries_nextKind hts ?_
  split
  next op hop =>
    obtain ⟨s, _, hk⟩ := signs_of_sign? hop
    have hn : kindOf ts ≠ .mark .newline ∧ kindOf ts ≠ .mark .endOfInput := hk ▸ ⟨nofun, nofun⟩
    refine carries_nextPos hts (carries_advance hts hn fun htail hless => ?_)
    exact (ih.unary htail (by omega)).bind fun n _ hrest _ => carries_pure hrest rfl
  next => exact ih.postfixed hts hlen

theorem postfixed_carried (ih : CarriesRules f more rounds rounds' d) (hr : rounds ≤ rounds') :
    Carried f more rounds (mapPos f) (postfixed rounds (d + 1)) (postfixed rounds' (d + 1)) := by
  intro ts hts hlen
  refine carries_nextKind hts (carries_secondKind hts (fun hk second => ?_) ?_)
  · rw [hk]
    rfl
  refine (ih.primary hts hlen).bind fun receiver _ hmid hle => ?_
  exact carries_methodsOf ih.arguments rounds _ receiver (Nat.le_refl _) hr hmid (by omega)

theorem argument_carried (ih : CarriesRules f more rounds rounds' d) :
    Carried f more rounds (mapPos f) (argument rounds (d + 1)) (argument rounds' (d + 1)) := by
  intro ts hts hlen
  refine carries_nextKind hts ?_
  split
  · exact carries_stop _
  · exact ih.expression hts hlen

theorem primary_carried (ih : CarriesRules f more rounds rounds' d) :
    Carried f more rounds (mapPos f) (primary rounds (d + 1)) (primary rounds' (d + 1)) := by
  intro ts hts hlen
  refine carries_get ?_
  split
  case h_8 => exact carries_stop _
  all_goals
    obtain ⟨hrest, hless⟩ := hts.tail (by simp [kindOf, Token.kind, Lexeme.kind])
    refine carries_set hless.le ?_
  case h_6 name pos rest =>
    have hkind : kindOf ((rest.map (Token.mapPos f)).append more) = kindOf rest :=
      kindOf_moved hrest.ne_nil
    rw [hkind]
    split
    next hk =>
      have hn : kindOf rest ≠ .mark .newline ∧ kindOf rest ≠ .mark .endOfInput := by
        rw [hk]
        decide
      refine carries_advance hrest hn fun hopen hless' => ?_
      simp only [List.length_cons, List.tail_cons] at *
      refine (ih.arguments hopen (by omega)).bind fun args _ hargs hle => ?_
      refine carries_expect hargs (by decide) fun hclose _ => carries_pure hclose ?_
      rw [← Node.mapPosAll_eq_map]
      rfl
    next => exact carries_pure hrest rfl
  case h_7 =>
    simp only [List.length_cons, List.tail_cons] at *
    refine (ih.expression hrest (by omega)).bind fun inner _ hinner hle => ?_
    exact carries_expect hinner (by decide) fun hclose _ => carries_pure hclose rfl
  all_goals exact carries_pure hrest rfl

theorem carriesRules (hm : elseFollows more = false) (hr : rounds ≤ rounds') (d : Nat) :
    CarriesRules f more rounds rounds' d := by
  induction d with
  | zero =>
    constructor
    case tiered => exact fun _ _ _ _ => carries_tooDeep
    all_goals exact fun _ _ _ => carries_tooDeep
  | succ d ih =>
    exact ⟨statement_carried ih, assignment_carried ih, fnDecl_carried ih hr, whileLoop_carried ih,
      forLoop_carried ih, cond_carried ih hm, ret_carried ih, block_carried ih hr,
      ih.tiered .equality, tiered_carried ih hr, unary_carried ih, postfixed_carried ih hr,
      carried_listOf ih.argument hr, argument_carried ih, primary_carried ih⟩

/-! ## Programs -/

/-- Once the statements of the tokens are read, the program goes on with the tokens behind. -/
theorem programFrom_moved {p q : Parser Node} (h : Carried f more rounds (mapPos f) p q)
    (hp : Recognises p Grammar.Statement) (fuel : Nat) :
    ∀ {fuel' ts body rest} items, fuel ≤ rounds → fuel ≤ fuel' → (ts = [] ∨ Ended ts) →
      (∀ t ∈ ts, t.kind ≠ .mark .endOfInput) → ts.length < fuel →
      programFrom p fuel items ts = .ok (body, rest) →
      ∃ left new, fuel' ≤ left + ts.length ∧ 0 < left ∧ body = items.reverse ++ new ∧
        ∀ before, programFrom q fuel' before (moved f more ts) =
          programFrom q left ((new.map (mapPos f)).reverse ++ before) more := by
  induction fuel with
  | zero => exact fun _ _ _ _ _ hlen => absurd hlen (Nat.not_lt_zero _)
  | succ fuel ih =>
    intro fuel' ts body rest items hr hf hts hkinds hlen hrun
    obtain ⟨fuel', rfl⟩ := Nat.exists_eq_succ_of_ne_zero (Nat.ne_zero_of_lt hf)
    have hsuffix := List.dropWhile_suffix (l := ts) isNewline
    have hdropped := hsuffix.length_le
    obtain ⟨_, _, ⟨⟩, hrun⟩ := bind_ok.mp hrun
    obtain ⟨_, _, ⟨⟩, hrun⟩ := bind_ok.mp hrun
    by_cases hdrop : ts.dropWhile isNewline = []
    · rw [hdrop] at hrun
      cases hrun
      refine ⟨fuel' + 1, [], by omega, by omega, (List.append_nil _).symm, fun before => ?_⟩
      rw [Grammar.programFrom_skip, dropWhile_moved_nil hdrop, ← Grammar.programFrom_skip]
      rfl
    · have hend : kindOf (ts.dropWhile isNewline) ≠ .mark .endOfInput := by
        obtain ⟨t, tail, ht⟩ := List.exists_cons_of_ne_nil hdrop
        rw [ht]
        exact hkinds t (hsuffix.subset (ht ▸ List.mem_cons_self))
      rw [if_neg hend] at hrun
      obtain ⟨n, mid, hn, hrun⟩ := bind_ok.mp hrun
      have hstatement := hp _ hn
      have hshort := hstatement.past.shorter
      have hended : Ended (ts.dropWhile isNewline) := by
        rcases hts with rfl | hts
        · exact absurd rfl hdrop
        · exact hts.suffix hsuffix hdrop
      obtain ⟨hmid, -, hq⟩ := h hended (by omega) hn
      have hkinds' : ∀ t ∈ mid, t.kind ≠ .mark .endOfInput := fun t ht =>
        hkinds t (hsuffix.subset (hstatement.past.suffix.subset ht))
      obtain ⟨left, new, hleft, hpos, hbody, hrest⟩ :=
        ih (n :: items) (by omega) (Nat.le_of_succ_le_succ hf) (.inr hmid) hkinds' (by omega) hrun
      refine ⟨left, n :: new, by omega, hpos, by simp [hbody], fun before => ?_⟩
      have hbegins : (kindOf (moved f more (ts.dropWhile isNewline))).beginsStmt = true := by
        rw [kindOf_moved hdrop]
        exact hstatement.begins
      rw [Grammar.programFrom_skip, dropWhile_moved hdrop, programFrom_next _ _ _ hbegins]
      refine (bind_of_ok hq _).trans ((hrest _).trans ?_)
      rw [List.map_cons, List.reverse_cons, List.append_assoc]
      rfl

/-- Tokens of a text: the last one ends a line, and none of them ends the input. -/
structure Whole (ts : List Token) : Prop where
  ended : Ended ts
  kinds : ∀ t ∈ ts, t.kind ≠ .mark .endOfInput

theorem programFrom_of_program {limit : Nat} {body : List Node} (h : program limit ts = .ok body) :
    ∃ rest, programFrom (statement (ts.length + 1) limit) (ts.length + 1) [] ts =
      .ok (body, rest) := by
  rw [program, StateT.run'] at h
  cases hp : programFrom (statement (ts.length + 1) limit) (ts.length + 1) [] ts with
  | error s =>
    rw [hp] at h
    cases h
  | ok result =>
    rw [hp] at h
    cases h
    exact ⟨result.2, rfl⟩

/-- A program may come behind any other, since it does not begin with `else`. -/
theorem noElse_of_program {limit : Nat} {body : List Node}
    (hkinds : ∀ t ∈ ts, t.kind ≠ .mark .endOfInput) (h : program limit ts = .ok body) :
    elseFollows ts = false := by
  obtain ⟨mid, hn, hs⟩ := Grammar.Program.of_read hkinds h
  exact Grammar.Follows.noElse ⟨mid, hn, hs.nextLine (.inr (.inr rfl))⟩

/-- The statements of a program are read in front of other tokens as well, with at most one round
for each of its tokens. -/
theorem statements_moved (f : Pos → Pos) {rounds fuel limit : Nat} {body : List Node}
    (hm : elseFollows more = false) (hts : Whole ts) (h : program limit ts = .ok body)
    (hr : ts.length < rounds) (hf : ts.length < fuel) :
    ∃ left, fuel ≤ left + ts.length ∧ 0 < left ∧
      ∀ before, programFrom (statement rounds limit) fuel before (moved f more ts) =
        programFrom (statement rounds limit) left ((body.map (mapPos f)).reverse ++ before) more := by
  obtain ⟨rest, hrun⟩ := programFrom_of_program h
  have hcarried := (carriesRules (f := f) hm (Nat.succ_le_of_lt hr) limit).statement
  have hsound := (sound (ts.length + 1) limit).statement
  obtain ⟨left, new, hleft, hpos, rfl, hq⟩ := programFrom_moved hcarried hsound _ []
    (Nat.le_refl _) (Nat.succ_le_of_lt hf) (.inr hts.ended) hts.kinds (Nat.lt_succ_self _) hrun
  exact ⟨left, hleft, hpos, hq⟩

theorem moved_id (more ts : List Token) : moved id more ts = ts ++ more := by
  have hid : Token.mapPos id = id := rfl
  rw [moved, hid, List.map_id]

theorem moved_nil (f : Pos → Pos) (ts : List Token) : moved f [] ts = ts.map (Token.mapPos f) :=
  List.append_nil _

theorem elseFollows_nil : elseFollows [] = false := rfl

/-- Two programs, one behind the other, have the statements of both. -/
theorem program_append {limit : Nat} {us : List Token} {body body' : List Node}
    (hts : Whole ts) (hus : Whole us) (ht : program limit ts = .ok body)
    (hu : program limit us = .ok body') :
    program limit (ts ++ us.map (Token.mapPos f)) = .ok (body ++ body'.map (mapPos f)) := by
  have helse : elseFollows (us.map (Token.mapPos f)) = false := by
    rw [← moved_nil, elseFollows_moved elseFollows_nil]
    exact noElse_of_program hus.kinds hu
  have hlen : (ts ++ us.map (Token.mapPos f)).length = ts.length + us.length := by simp
  have hbody : body.map (mapPos id) = body := by
    rw [← Node.mapPosAll_eq_map, Node.mapPosAll_id]
  have hround (k : Nat) : k < k + us.length + 1 := by omega
  obtain ⟨left, hleft, -, hfirst⟩ := statements_moved id helse hts ht (hround _) (hround _)
  obtain ⟨left', -, hpos, hsecond⟩ := statements_moved f elseFollows_nil hus hu
    (Nat.lt_succ_of_le (Nat.le_add_left us.length ts.length)) (by omega : us.length < left)
  obtain ⟨left', rfl⟩ := Nat.exists_eq_succ_of_ne_zero hpos.ne'
  have hend (items : List Node) : programFrom (statement (ts.length + us.length + 1) limit)
      (left' + 1) items [] = .ok (items.reverse, []) := rfl
  have hall : programFrom (statement (ts.length + us.length + 1) limit)
      (ts.length + us.length + 1) [] (ts ++ us.map (Token.mapPos f)) =
        .ok (body ++ body'.map (mapPos f), []) := by
    rw [← moved_id, hfirst, ← moved_nil, hsecond, hend, hbody]
    simp
  rw [program, StateT.run', hlen, hall]
  rfl

end Parser

end ExScript
