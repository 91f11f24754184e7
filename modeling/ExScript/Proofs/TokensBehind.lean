import ExScript.Proofs.ViablePrefix

/-!
# Tokens behind the place where a parser ends

A parser that ends in front of a token, whether it returns or stops, ends there in the same way if
other tokens come behind this one (`Unaffected`).  Only whether the budget is used up there may
depend on them, unless the token ends the input (`Ending.SettledAt`).  This is closed under the steps
of parsers and under repetitions, whose rounds are limited by the number of all tokens
(`unaffected_rounds`).

Behind the block of an `if` the parser looks past the line ends for an `else`; so what may end there
is considered together with the line ends behind it (`skipping`).
-/

namespace ExScript.Parser

open Grammar

variable {α β : Type} {p q : Parser α} {f g : α → Parser β} {ts rest : List Token}

/-! ## Where a parser ends -/

/-- How a parser ends, apart from the tokens that are left. -/
inductive Ending (α : Type) where
  | returns (a : α)
  | stops (reason : Reason)

/-- The result of a parser that ends in front of the tokens. -/
def Ending.before (x : Ending α) (rest : List Token) : Except Stop (α × List Token) :=
  match x with
  | .returns a => .ok (a, rest)
  | .stops reason => .error ⟨reason, rest⟩

theorem exists_ending (r : Except Stop (α × List Token)) :
    ∃ (x : Ending α) (rest : List Token), r = x.before rest := by
  cases r with
  | ok result => exact ⟨.returns result.1, result.2, rfl⟩
  | error s => exact ⟨.stops s.reason, s.rest, rfl⟩

theorem bind_before {x : Ending β} (h : (p >>= f) ts = x.before rest) :
    (∃ a mid, p ts = .ok (a, mid) ∧ f a mid = x.before rest) ∨
      ∃ e, x = .stops e ∧ p ts = .error ⟨e, rest⟩ := by
  cases hp : p ts with
  | ok r => exact .inl ⟨r.1, r.2, rfl, (bind_of_ok hp f).symm.trans h⟩
  | error s =>
    have hs : .error s = x.before rest := (bind_of_error hp f).symm.trans h
    cases x with
    | returns b => cases hs
    | stops e =>
      cases hs
      exact .inr ⟨e, rfl, rfl⟩

/-- A parser ends in front of some of the last tokens, also when it stops. -/
def Within (p : Parser α) : Prop :=
  ∀ ⦃ts⦄ ⦃x : Ending α⦄ ⦃rest⦄, p ts = x.before rest → rest <:+ ts

theorem within_of_traces {A : Language Token} (h : ∀ ts, Traces p ts A) : Within p := by
  intro ts x rest hx
  cases x with
  | returns a =>
    obtain ⟨w, _, rfl⟩ := (h ts).ok hx
    exact List.suffix_append w rest
  | stops e =>
    obtain ⟨w, _, _, _, htaken⟩ := (h ts).error hx
    exact htaken ▸ List.suffix_append w rest

theorem Within.bind (h : Within p) (hf : ∀ a, Within (f a)) : Within (p >>= f) := by
  intro ts x rest hx
  rcases bind_before hx with ⟨a, mid, ha, hfa⟩ | ⟨e, rfl, he⟩
  · exact (hf a hfa).trans (h (x := .returns a) ha)
  · exact h (x := .stops e) he

/-- A parser that never stops. -/
theorem within_returns (read : List Token → α) (next : List Token → List Token)
    (hp : ∀ ts, p ts = .ok (read ts, next ts)) (hnext : ∀ ts, next ts <:+ ts) : Within p := by
  intro ts x rest hx
  rw [hp] at hx
  cases x with
  | returns a =>
    cases hx
    exact hnext ts
  | stops e => cases hx

theorem within_pure (a : α) : Within (pure a) :=
  within_returns (fun _ => a) id (fun _ => rfl) fun _ => List.suffix_rfl

theorem within_read (read : List Token → α) : Within (do return read (← get)) :=
  within_returns read id (fun _ => rfl) fun _ => List.suffix_rfl

theorem within_advance : Within advance :=
  within_returns (fun _ => ()) behindNext (fun _ => rfl) behindNext_suffix

theorem within_skipNewlines : Within skipNewlines :=
  within_returns (fun _ => ()) _ (fun _ => rfl) fun _ => List.dropWhile_suffix isNewline

theorem within_expectSymbol (s : Symbol) : Within (expectSymbol s) :=
  within_of_traces fun _ => traces_expectSymbol s

theorem within_stop (expected : Expected) : Within (stop expected : Parser α) :=
  within_of_traces fun _ => traces_stop expected (inhabited_symbol .dot)

theorem within_tooDeep : Within (tooDeep : Parser α) :=
  within_of_traces fun _ => traces_tooDeep (inhabited_symbol .dot)

/-- What comes behind the token has no part in this ending.  In front of a name the second token
decides between rules that need different budgets, so that one of them may use up the budget and the
other one may not. -/
def Ending.SettledAt : Ending α → Token → Prop
  | .stops .tooDeep, t => t.kind = .mark .endOfInput
  | _, _ => True

theorem Ending.SettledAt.stops {reason : Reason} {t : Token}
    (h : (Ending.stops reason : Ending β).SettledAt t) :
    (Ending.stops reason : Ending α).SettledAt t := by
  cases reason <;> exact h

theorem Ending.settledAt_end {x : Ending α} {t : Token} (h : t.kind = .mark .endOfInput) :
    x.SettledAt t := by
  cases x with
  | returns a => trivial
  | stops reason =>
    cases reason with
    | unexpected e => trivial
    | tooDeep => exact h

/-! ## Other tokens behind a token -/

/-- A token, what comes behind it, and what may come there instead. -/
structure Change where
  token : Token
  old : List Token
  new : List Token

namespace Change

variable (c : Change) {pre mid : List Token}

def source (pre : List Token) : List Token := pre ++ c.token :: c.old

def target (pre : List Token) : List Token := pre ++ c.token :: c.new

theorem kindOf_target (pre : List Token) : kindOf (c.target pre) = kindOf (c.source pre) := by
  cases pre <;> rfl

theorem posOf_target (pre : List Token) : posOf (c.target pre) = posOf (c.source pre) := by
  cases pre <;> rfl

theorem length_source (pre : List Token) :
    (c.source pre).length = pre.length + (c.old.length + 1) := by
  rw [source, List.length_append, List.length_cons]

theorem source_injective (h : c.source pre = c.source mid) : pre = mid :=
  List.append_cancel_right h

theorem not_suffix_old : ¬ c.source mid <:+ c.old := by
  intro h
  have hlen := h.length_le
  rw [length_source] at hlen
  omega

theorem exists_source (h : c.source mid <:+ ts) : ∃ pre, ts = c.source pre := by
  obtain ⟨taken, rfl⟩ := h
  exact ⟨taken ++ mid, (List.append_assoc ..).symm⟩

theorem dropWhile_source (h : (c.source pre).dropWhile isNewline = c.source mid) :
    (c.target pre).dropWhile isNewline = c.target mid := by
  induction pre with
  | nil =>
    by_cases ht : isNewline c.token = true
    · have hold : c.old.dropWhile isNewline = c.source mid :=
        (List.dropWhile_cons_of_pos ht).symm.trans h
      exact absurd (hold ▸ List.dropWhile_suffix isNewline) c.not_suffix_old
    · have hnil : c.source [] = c.source mid := (List.dropWhile_cons_of_neg ht).symm.trans h
      rw [← c.source_injective hnil]
      exact List.dropWhile_cons_of_neg ht
  | cons t pre ih =>
    by_cases ht : isNewline t = true
    · have htail : (c.source pre).dropWhile isNewline = c.source mid :=
        (List.dropWhile_cons_of_pos ht).symm.trans h
      exact (List.dropWhile_cons_of_pos ht).trans (ih htail)
    · have hcons : c.source (t :: pre) = c.source mid :=
        (List.dropWhile_cons_of_neg ht).symm.trans h
      rw [← c.source_injective hcons]
      exact List.dropWhile_cons_of_neg ht

end Change

/-- Where the first parser ends in front of the token, so does the second one with the other tokens
behind it.  This is for fewer tokens in front than some number, since repetitions are limited. -/
structure Unaffected (c : Change) (N : Nat) (p q : Parser α) : Prop where
  within : Within p
  same : ∀ ⦃pre⦄ ⦃x : Ending α⦄ ⦃mid⦄, pre.length < N → x.SettledAt c.token →
    p (c.source pre) = x.before (c.source mid) → q (c.target pre) = x.before (c.target mid)

variable {c : Change} {M N : Nat}

theorem unaffected_zero (h : Within p) : Unaffected c 0 p q :=
  ⟨h, fun _ _ _ hlen => absurd hlen (Nat.not_lt_zero _)⟩

theorem Unaffected.mono (h : Unaffected c N p q) (hle : M ≤ N) : Unaffected c M p q :=
  ⟨h.within, fun _ _ _ hlen => h.same (Nat.lt_of_lt_of_le hlen hle)⟩

theorem Unaffected.chain (h : Unaffected c N p q) (hf : ∀ a, Unaffected c M (f a) (g a))
    (hlen : ∀ {pre a mid}, pre.length < N → p (c.source pre) = .ok (a, c.source mid) →
      mid.length < M) : Unaffected c N (p >>= f) (q >>= g) where
  within := h.within.bind fun a => (hf a).within
  same pre x mid hpre hs hx := by
    rcases bind_before hx with ⟨a, between, ha, hfa⟩ | ⟨e, rfl, he⟩
    · -- the second step ends in front of the token, so that the first one has not taken it
      obtain ⟨inner, rfl⟩ := c.exists_source ((hf a).within hfa)
      have hq : q (c.target pre) = .ok (a, c.target inner) :=
        h.same (x := .returns a) hpre trivial ha
      exact (bind_of_ok hq g).trans ((hf a).same (hlen hpre ha) hs hfa)
    · have hq : q (c.target pre) = .error ⟨e, c.target mid⟩ :=
        @Unaffected.same _ _ _ _ _ h pre (.stops e) mid hpre hs.stops he
      exact bind_of_error hq g

theorem Unaffected.bind (h : Unaffected c N p q) (hf : ∀ a, Unaffected c N (f a) (g a)) :
    Unaffected c N (p >>= f) (q >>= g) := by
  apply h.chain hf
  intro pre a mid hpre ha
  have hle := (h.within (x := .returns a) ha).length_le
  simp only [Change.length_source] at hle
  omega

/-- A step that takes a token. -/
theorem Unaffected.step (h : Unaffected c (N + 1) p q) (hf : ∀ a, Unaffected c N (f a) (g a))
    (hlen : ∀ {pre a mid}, p (c.source pre) = .ok (a, c.source mid) → mid.length < pre.length) :
    Unaffected c (N + 1) (p >>= f) (q >>= g) := by
  apply h.chain hf
  intro pre a mid hpre ha
  have hless := hlen ha
  omega

/-! ## Steps -/

/-- A parser that never stops, and that finds the same with the other tokens. -/
theorem unaffected_returns (read : List Token → α) (next : List Token → List Token)
    (hp : ∀ ts, p ts = .ok (read ts, next ts)) (hwithin : Within p)
    (hread : ∀ pre, read (c.target pre) = read (c.source pre))
    (hnext : ∀ {pre mid}, next (c.source pre) = c.source mid → next (c.target pre) = c.target mid) :
    Unaffected c N p p where
  within := hwithin
  same pre x mid _ _ hx := by
    rw [hp] at hx ⊢
    cases x with
    | returns a =>
      obtain ⟨rfl, hrest⟩ := Prod.mk.inj (Except.ok.inj hx)
      rw [hread, hnext hrest]
      rfl
    | stops e => cases hx

theorem unaffected_pure (a : α) : Unaffected c N (pure a) (pure a) :=
  unaffected_returns (fun _ => a) id (fun _ => rfl) (within_pure a) (fun _ => rfl) fun h =>
    congrArg c.target (c.source_injective h)

/-- A parser that stops at once. -/
theorem unaffected_stops (reason : Reason) (hp : ∀ ts, p ts = .error ⟨reason, ts⟩)
    (hwithin : Within p) : Unaffected c N p p where
  within := hwithin
  same pre x mid _ _ hx := by
    rw [hp] at hx ⊢
    cases x with
    | returns b => cases hx
    | stops e =>
      obtain ⟨rfl, hrest⟩ := Stop.mk.inj (Except.error.inj hx)
      rw [← c.source_injective hrest]
      rfl

theorem unaffected_stop (expected : Expected) :
    Unaffected c N (stop expected : Parser α) (stop expected) :=
  unaffected_stops (.unexpected expected) (fun _ => rfl) (within_stop expected)

theorem unaffected_tooDeep : Unaffected c N (tooDeep : Parser α) tooDeep :=
  unaffected_stops .tooDeep (fun _ => rfl) within_tooDeep

/-- Looking at the next token is looking at the token itself or at one in front of it. -/
theorem unaffected_read {read : List Token → α}
    (hread : ∀ pre, read (c.target pre) = read (c.source pre)) :
    Unaffected c N (do return read (← get)) (do return read (← get)) :=
  unaffected_returns read id (fun _ => rfl) (within_read read) hread fun h =>
    congrArg c.target (c.source_injective h)

theorem unaffected_nextKind : Unaffected c N nextKind nextKind := unaffected_read c.kindOf_target

theorem unaffected_nextPos : Unaffected c N nextPos nextPos := unaffected_read c.posOf_target

theorem tail_source {pre mid : List Token} (h : (c.source pre).tail = c.source mid) :
    ∃ t, pre = t :: mid := by
  cases pre with
  | nil =>
    have hold : c.source mid <:+ c.old := h ▸ List.suffix_rfl
    exact absurd hold c.not_suffix_old
  | cons t pre => exact ⟨t, congrArg _ (c.source_injective h)⟩

theorem behindNext_source {pre mid : List Token} (h : behindNext (c.source pre) = c.source mid) :
    behindNext (c.target pre) = c.target mid := by
  have hk := c.kindOf_target pre
  by_cases hend : kindOf (c.source pre) = .mark .endOfInput
  · rw [behindNext, if_pos hend] at h
    rw [behindNext, if_pos (hk.trans hend), c.source_injective h]
  · rw [behindNext, if_neg hend] at h
    rw [behindNext, if_neg (hk ▸ hend)]
    obtain ⟨t, rfl⟩ := tail_source h
    rfl

theorem unaffected_advance : Unaffected c N advance advance :=
  unaffected_returns (fun _ => ()) behindNext (fun _ => rfl) within_advance (fun _ => rfl)
    behindNext_source

/-- What a look at the next token leads to: nothing yet, or the token is taken. -/
inductive AfterLook (c : Change) (N : Nat) (k : Kind) : Parser α → Parser α → Prop
  | stay {p q : Parser α} (h : Unaffected c (N + 1) p q) : AfterLook c N k p q
  | take {f g : Unit → Parser α} (hk : k ≠ .mark .endOfInput)
    (hf : ∀ a, Unaffected c N (f a) (g a)) : AfterLook c N k (advance >>= f) (advance >>= g)

theorem AfterLook.within {k : Kind} (h : AfterLook c N k p q) : Within p := by
  cases h with
  | stay h => exact h.within
  | take _ hf => exact within_advance.bind fun a => (hf a).within

theorem unaffected_look {f g : Kind → Parser α} (h : ∀ k, AfterLook c N k (f k) (g k)) :
    Unaffected c (N + 1) (nextKind >>= f) (nextKind >>= g) where
  within := (within_read kindOf).bind fun k => (h k).within
  same pre x mid hpre hs hx := by
    have hx : f (kindOf (c.source pre)) (c.source pre) = x.before (c.source mid) := hx
    change g (kindOf (c.target pre)) (c.target pre) = _
    rw [c.kindOf_target]
    have hk := h (kindOf (c.source pre))
    generalize f (kindOf (c.source pre)) = p at hk hx
    generalize g (kindOf (c.source pre)) = q at hk ⊢
    cases hk with
    | stay h => exact h.same hpre hs hx
    | take hne hf =>
      rw [bind_of_ok (advance_apply hne)] at hx
      rw [bind_of_ok (advance_apply (c.kindOf_target pre ▸ hne))]
      obtain ⟨inner, hinner⟩ := c.exists_source ((hf ()).within hx)
      obtain ⟨t, rfl⟩ := tail_source hinner
      exact (hf ()).same (Nat.lt_of_succ_lt_succ hpre) hs hx

theorem unaffected_skipNewlines : Unaffected c N skipNewlines skipNewlines :=
  unaffected_returns (fun _ => ()) _ (fun _ => rfl) within_skipNewlines (fun _ => rfl)
    c.dropWhile_source

theorem unaffected_expect (kind : Kind) : Unaffected c N (expect kind) (expect kind) := by
  apply unaffected_nextKind.bind
  intro k
  split
  · exact unaffected_advance
  · exact unaffected_stop _

/-! ## Decisions by the first token -/

/-- A parser that goes on behind the first token, if it is one that is asked for. -/
def behindFirst (first : Token → Option (Parser α)) (expected : Expected) : Parser α := fun ts =>
  match ts with
  | [] => stop expected []
  | t :: rest =>
    match first t with
    | some p => p rest
    | none => stop expected (t :: rest)

section First

variable {first first' : Token → Option (Parser α)} {expected : Expected} {t : Token}

theorem behindFirst_some (h : first t = some p) :
    behindFirst first expected (t :: rest) = p rest := by
  simp only [behindFirst, h]

theorem behindFirst_none (h : first t = none) :
    behindFirst first expected (t :: rest) = stop expected (t :: rest) := by
  simp only [behindFirst, h]

theorem within_behindFirst (h : ∀ t p, first t = some p → Within p) :
    Within (behindFirst first expected) := by
  intro ts x rest hx
  cases ts with
  | nil => exact within_stop expected hx
  | cons t ts =>
    cases ht : first t with
    | none =>
      rw [behindFirst_none ht] at hx
      exact within_stop expected hx
    | some p =>
      rw [behindFirst_some ht] at hx
      exact (h t p ht hx).trans (List.suffix_cons t ts)

theorem unaffected_behindFirst (h : ∀ t, Option.Rel (Unaffected c N) (first t) (first' t)) :
    Unaffected c N (behindFirst first expected) (behindFirst first' expected) where
  within := by
    apply within_behindFirst
    intro t p ht
    have hrel := h t
    rw [ht] at hrel
    generalize first' t = o at hrel
    cases hrel with
    | some hp => exact hp.within
  same pre x mid hpre hs hx := by
    have htoken {t : Token} {rest rest' : List Token} (hsource : c.source pre = t :: rest)
        (htarget : c.target pre = t :: rest')
        (hrest : ∀ {p q : Parser α}, Unaffected c N p q → p rest = x.before (c.source mid) →
          q rest' = x.before (c.target mid)) :
        behindFirst first' expected (c.target pre) = x.before (c.target mid) := by
      have hrel := h t
      rw [hsource] at hx
      rw [htarget]
      simp only [behindFirst] at hx ⊢
      generalize first t = o at hrel hx
      generalize first' t = o' at hrel ⊢
      cases hrel with
      | some hp => exact hrest hp hx
      | none =>
        rw [← hsource] at hx
        rw [← htarget]
        exact (unaffected_stop expected).same hpre hs hx
    -- what the token itself leads to does not end in front of it
    cases pre with
    | nil => exact htoken rfl rfl fun hp hold => absurd (hp.within hold) c.not_suffix_old
    | cons t pre => exact htoken rfl rfl fun hp hmid => hp.same (Nat.lt_of_succ_lt hpre) hs hmid

end First

theorem expectName_eq (expected : Expected) :
    expectName expected = behindFirst (fun t => match t.lexeme with
      | .name name => some (pure name)
      | _ => none) expected := by
  funext ts
  rcases ts with _ | ⟨⟨lexeme, pos⟩, rest⟩
  · rfl
  · cases lexeme <;> rfl

theorem unaffected_expectName (expected : Expected) :
    Unaffected c N (expectName expected) (expectName expected) := by
  rw [expectName_eq]
  apply unaffected_behindFirst
  intro t
  split
  · exact .some (unaffected_pure _)
  · exact .none

/-! ## Repetitions -/

/-- A repetition, whose rounds each take a token.  The two may have different numbers of rounds, as
long as both have one for each token in front. -/
theorem unaffected_rounds {ι : Type} {P Q : Nat → ι → Parser α} (hzero : ∀ i, Within (P 0 i))
    (hstep : ∀ {n m N}, N ≤ M → (∀ i, Unaffected c N (P n i) (Q m i)) →
      ∀ i, Unaffected c (N + 1) (P (n + 1) i) (Q (m + 1) i)) :
    ∀ n m N i, N ≤ n → N ≤ m → N ≤ M + 1 → Unaffected c N (P n i) (Q m i) := by
  intro n
  induction n with
  | zero =>
    intro m N i hn _ _
    rw [Nat.le_zero.mp hn]
    exact unaffected_zero (hzero i)
  | succ n ih =>
    intro m N i hn hm hM
    cases N with
    | zero =>
      -- only the first parser matters here, so that any rounds of the second one will do
      have hnext := hstep (Nat.zero_le M) (fun i => ih 0 0 i (by omega) le_rfl (by omega)) i
      exact unaffected_zero hnext.within
    | succ N =>
      cases m with
      | zero => cases hm
      | succ m => exact hstep (by omega) (fun i => ih m N i (by omega) (by omega) (by omega)) i

section Repetitions

variable {rounds rounds' : Nat} (hr : M < rounds) (hr' : M < rounds')

include hr hr'

theorem unaffected_commaSeparated (h : Unaffected c (M + 1) p q) (items : List α) :
    Unaffected c (M + 1) (commaSeparated p rounds items) (commaSeparated q rounds' items) := by
  apply unaffected_rounds _ _ rounds rounds' (M + 1) items hr hr' le_rfl
  · exact fun items => within_pure _
  · intro n m N hN ih items
    apply unaffected_look
    intro k
    split
    next hk =>
      apply AfterLook.take (by rw [hk]; exact nofun)
      intro _
      exact (h.mono (by omega)).bind fun a => ih (a :: items)
    next => exact .stay (unaffected_pure _)

theorem unaffected_listOf (h : Unaffected c (M + 1) p q) :
    Unaffected c (M + 1) (listOf rounds p) (listOf rounds' q) := by
  apply unaffected_nextKind.bind
  intro k
  split
  · exact unaffected_pure _
  · exact h.bind fun first => unaffected_commaSeparated hr hr' h [first]

theorem unaffected_operatorsOf (tier : Tier) {p q : Parser Node}
    (h : Unaffected c (M + 1) p q) (left : Node) :
    Unaffected c (M + 1) (operatorsOf tier.operator? p rounds left)
      (operatorsOf tier.operator? q rounds' left) := by
  apply unaffected_rounds _ _ rounds rounds' (M + 1) left hr hr' le_rfl
  · exact fun left => within_pure _
  · intro n m N hN ih left
    apply unaffected_look
    intro k
    split
    next op hop =>
      apply AfterLook.take (Tier.operator?_ne_end hop)
      intro _
      exact (h.mono (by omega)).bind fun right => ih _
    next => exact .stay (unaffected_pure _)

theorem unaffected_methodsOf {p q : Parser (List Node)} (h : Unaffected c (M + 1) p q)
    (bare : Bool) (receiver : Node) :
    Unaffected c (M + 1) (methodsOf p rounds bare receiver)
      (methodsOf q rounds' bare receiver) := by
  apply unaffected_rounds (P := fun n (i : Bool × Node) => methodsOf p n i.1 i.2)
    (Q := fun n i => methodsOf q n i.1 i.2) _ _ _ _ _ (bare, receiver) hr hr' le_rfl
  · exact fun i => within_pure _
  · intro n m N hN ih i
    apply unaffected_look
    intro k
    split
    next hk =>
      apply AfterLook.take (by rw [hk]; exact nofun)
      intro _
      apply (unaffected_expectName _).bind
      intro method
      apply (unaffected_expect _).bind
      intro _
      apply (h.mono (by omega)).bind
      intro args
      apply (unaffected_expect _).bind
      exact fun _ => ih (false, methodOn i.1 i.2 method args)
    next => exact .stay (unaffected_pure _)

end Repetitions

/-! ## Line ends behind a phrase -/

/-- The line ends behind what the parser reads are taken too. -/
def skipping (p : Parser α) : Parser α := do
  let a ← p
  skipNewlines
  return a

theorem skipping_bind (p : Parser α) (f : α → Parser β) :
    skipping (p >>= f) = p >>= fun a => skipping (f a) := by
  simp only [skipping, bind_assoc]

theorem bind_skipping (p : Parser α) (f : α → Parser β) :
    skipping p >>= f = p >>= fun a => skipNewlines >>= fun _ => f a := by
  simp only [skipping, bind_assoc, pure_bind]

theorem skipping_shorter (h : ∀ {ts a rest}, p ts = .ok (a, rest) → rest.length < ts.length)
    {a : α} (ha : skipping p ts = .ok (a, rest)) : rest.length < ts.length := by
  obtain ⟨_, mid, hmid, hrest⟩ := bind_ok.mp ha
  obtain ⟨_, _, ⟨⟩, ⟨⟩⟩ := bind_ok.mp hrest
  exact Nat.lt_of_le_of_lt (List.dropWhile_suffix _).length_le (h hmid)

theorem unaffected_skipping (h : Unaffected c N p q) :
    Unaffected c N (skipping p) (skipping q) := by
  apply h.bind
  exact fun a => unaffected_skipNewlines.bind fun _ => unaffected_pure a

theorem unaffected_skipping_bind (h : Unaffected c N p q)
    (hf : ∀ a, Unaffected c N (skipping (f a)) (skipping (g a))) :
    Unaffected c N (skipping (p >>= f)) (skipping (q >>= g)) := by
  rw [skipping_bind, skipping_bind]
  exact h.bind hf

theorem unaffected_skipping_map (h : Unaffected c N (skipping p) (skipping q)) (build : α → β) :
    Unaffected c N (skipping (p >>= fun a => pure (build a)))
      (skipping (q >>= fun a => pure (build a))) := by
  have hmap (p : Parser α) : skipping (p >>= fun a => pure (build a)) =
      skipping p >>= fun a => pure (build a) := by
    simp only [skipping, bind_assoc, pure_bind]
  rw [hmap, hmap]
  exact h.bind fun a => unaffected_pure (build a)

/-- Whether an `else` follows is decided behind the line ends. -/
theorem skipping_else (p : Parser α) (a : α) :
    skipping (do if elseFollows (← get) then skipNewlines; p else return a) = (do
      skipNewlines
      if (← nextKind) = keywordKind .elseWord then skipping p else return a) := by
  funext ts
  change skipping (if elseFollows ts then do skipNewlines; p else pure a) ts =
    (if kindOf (ts.dropWhile isNewline) = keywordKind .elseWord then skipping p else pure a)
      (ts.dropWhile isNewline)
  by_cases h : kindOf (ts.dropWhile isNewline) = keywordKind .elseWord
  · have helse : elseFollows ts = true := decide_eq_true h
    rw [if_pos helse, if_pos h]
    rfl
  · have helse : ¬ elseFollows ts = true := fun he => h (of_decide_eq_true he)
    rw [if_neg helse, if_neg h]
    rfl

/-- The line ends behind a statement are taken before the next one is read. -/
theorem bind_programFrom (p : Parser Node) (n : Nat) (items : List Node) :
    (p >>= fun a => programFrom p (n + 1) (a :: items)) =
      skipping p >>= fun a => programFrom p (n + 1) (a :: items) := by
  have hskip (items : List Node) : programFrom p (n + 1) items =
      skipNewlines >>= fun _ => programFrom p (n + 1) items := by
    funext ts
    rw [Grammar.programFrom_skip]
    rfl
  rw [bind_skipping]
  exact congrArg (p >>= ·) (funext fun a => hskip (a :: items))

section Statements

variable {rounds rounds' : Nat} (hr : M < rounds) (hr' : M < rounds') {p q : Parser Node}
  (h : Unaffected c (M + 1) (skipping p) (skipping q))
  (hshort : ∀ {ts a rest}, p ts = .ok (a, rest) → rest.length < ts.length)

include h hshort

/-- A statement takes at least one token. -/
theorem unaffected_item_bind {f g : Node → Parser α} (hN : N ≤ M)
    (hf : ∀ a, Unaffected c N (f a) (g a)) :
    Unaffected c (N + 1) (skipping p >>= f) (skipping q >>= g) := by
  apply (h.mono (Nat.succ_le_succ hN)).step hf
  intro pre a mid ha
  have hlen := skipping_shorter hshort ha
  simp only [Change.length_source] at hlen
  omega

include hr hr'

theorem unaffected_statementsOf (items : List Node) :
    Unaffected c (M + 1) (statementsOf p rounds items) (statementsOf q rounds' items) := by
  apply unaffected_rounds _ _ rounds rounds' (M + 1) items hr hr' le_rfl
  · exact fun items => within_stop _
  · intro n m N hN ih items
    apply unaffected_nextKind.bind
    intro k
    split
    · exact unaffected_advance.bind fun _ => unaffected_pure _
    · exact unaffected_stop _
    · rw [← bind_skipping, ← bind_skipping]
      exact unaffected_item_bind h hshort hN fun n => ih (n :: items)

omit hr hr'

theorem unaffected_programFrom (hi : ∀ ts, Traces p ts (words Statement)) {n m : Nat}
    (hn : M < n) (hm : M < m) (items : List Node) :
    Unaffected c (M + 1) (programFrom p (n + 1) items) (programFrom q (m + 1) items) := by
  apply unaffected_rounds (P := fun n => programFrom p (n + 1))
    (Q := fun n => programFrom q (n + 1)) _ _ n m (M + 1) items hn hm le_rfl
  · exact fun items => within_of_traces (programFrom_traces hi 1 items)
  · intro n m N hN ih items
    apply unaffected_skipNewlines.bind
    intro _
    apply unaffected_nextKind.bind
    intro k
    split
    · exact unaffected_pure _
    · rw [bind_programFrom, bind_programFrom]
      exact unaffected_item_bind h hshort hN fun n => ih (n :: items)

end Statements

end ExScript.Parser
