import ExScript.Node.Parser

/-!
# Running a parser step by step

What each step of a rule does to the tokens, in both directions: `bind_ok` takes a run that
succeeded apart, `bind_of_ok` goes on after a step that is known to succeed.
-/

namespace ExScript

namespace Parser

variable {α β : Type} {ts rest : List Token}

theorem bind_ok {p : Parser α} {f : α → Parser β} {r : β × List Token} :
    (p >>= f) ts = .ok r ↔ ∃ a mid, p ts = .ok (a, mid) ∧ f a mid = .ok r := by
  change (p ts >>= fun x => f x.1 x.2) = .ok r ↔ _
  cases p ts with
  | error s => simp [bind, Except.bind]
  | ok x =>
    obtain ⟨a, mid⟩ := x
    constructor
    · exact fun h => ⟨a, mid, rfl, h⟩
    · rintro ⟨_, _, ⟨⟩, h⟩
      exact h

theorem bind_of_ok {p : Parser α} {a : α} {mid : List Token} (h : p ts = .ok (a, mid))
    (f : α → Parser β) : (p >>= f) ts = f a mid := by
  change (p ts >>= fun x => f x.1 x.2) = _
  rw [h]
  rfl

theorem bind_of_error {p : Parser α} {s : Stop} (h : p ts = .error s) (f : α → Parser β) :
    (p >>= f) ts = .error s := by
  change (p ts >>= fun x => f x.1 x.2) = _
  rw [h]
  rfl

@[simp] theorem nextKind_apply : nextKind ts = .ok (kindOf ts, ts) := rfl

@[simp] theorem secondKind_apply : secondKind ts = .ok (kindOf ts.tail, ts) := rfl

@[simp] theorem nextPos_apply : nextPos ts = .ok (posOf ts, ts) := rfl

theorem get_apply : (get : Parser (List Token)) ts = .ok (ts, ts) := rfl

theorem behindNext_suffix (ts : List Token) : behindNext ts <:+ ts := by
  rw [behindNext]
  split
  · exact List.suffix_rfl
  · exact ts.tail_suffix

theorem advance_apply (h : kindOf ts ≠ .mark .endOfInput) : advance ts = .ok ((), ts.tail) :=
  congrArg (fun rest => Except.ok ((), rest)) (if_neg h)

theorem kindOf_ne_end {kind : Kind} (h : kindOf ts = kind) (hk : kind ≠ .mark .endOfInput) :
    kindOf ts ≠ .mark .endOfInput := h ▸ hk

theorem symbol_ne_end {s : Symbol} (h : kindOf ts = symbolKind s) :
    kindOf ts ≠ .mark .endOfInput := kindOf_ne_end h nofun

theorem keyword_ne_end {k : Keyword} (h : kindOf ts = keywordKind k) :
    kindOf ts ≠ .mark .endOfInput := kindOf_ne_end h nofun

@[simp] theorem skipNewlines_apply : skipNewlines ts = .ok ((), ts.dropWhile isNewline) := rfl

theorem expect_apply {kind : Kind} (hk : kind ≠ .mark .endOfInput) :
    expect kind ts =
      if kindOf ts = kind then .ok ((), ts.tail) else .error ⟨.unexpected (.kind kind), ts⟩ := by
  change (if kindOf ts = kind then advance else stop (.kind kind)) ts = _
  split
  case isTrue h => exact advance_apply (kindOf_ne_end h hk)
  case isFalse => rfl

theorem expect_ok {kind : Kind} (hk : kind ≠ .mark .endOfInput) :
    expect kind ts = .ok ((), rest) ↔ kindOf ts = kind ∧ ts.tail = rest := by
  rw [expect_apply hk]
  split <;> simp_all

theorem expectSymbol_ok {s : Symbol} :
    expectSymbol s ts = .ok ((), rest) ↔ kindOf ts = symbolKind s ∧ ts.tail = rest :=
  expect_ok nofun

theorem expectKeyword_ok {k : Keyword} :
    expectKeyword k ts = .ok ((), rest) ↔ kindOf ts = keywordKind k ∧ ts.tail = rest :=
  expect_ok nofun

theorem expectName_ok {expected : Expected} {name : String} :
    expectName expected ts = .ok (name, rest) ↔ ∃ pos, ts = ⟨.name name, pos⟩ :: rest := by
  constructor
  · intro h
    obtain ⟨_, _, ⟨⟩, h⟩ := bind_ok.mp h
    split at h
    · obtain ⟨_, _, ⟨⟩, ⟨⟩⟩ := bind_ok.mp h
      exact ⟨_, rfl⟩
    · cases h
  · rintro ⟨pos, rfl⟩
    rfl

theorem Tier.operator?_ne_end {tier : Tier} {k : Kind} {op : BinaryOp}
    (h : tier.operator? k = some op) : k ≠ .mark .endOfInput := by
  rintro rfl
  cases tier <;> cases h

theorem sign?_ne_end {k : Kind} {op : UnaryOp} (h : sign? k = some op) :
    k ≠ .mark .endOfInput := by
  rintro rfl
  cases h

/-! ## Levels of rules -/

/-- The tiers are the rules of the four loosest levels. -/
def Tier.level : Tier → Nat
  | .equality => 1
  | .comparison => 2
  | .sum => 3
  | .product => 4

end Parser

theorem parseTokens_ok {ts : List Token} {p : Program} :
    parseTokens ts = .ok p ↔ Parser.program Parser.nestingLimit ts = .ok p.body ∧
      p.pos = (ts.head?.map Token.pos).getD ⟨1, 1⟩ := by
  rw [parseTokens]
  cases Parser.program Parser.nestingLimit ts with
  | error s => simp
  | ok body =>
    obtain ⟨pos, body'⟩ := p
    simp [and_comm, eq_comm]

end ExScript
