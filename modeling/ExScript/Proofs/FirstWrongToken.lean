import ExScript.Proofs.LargerBudget
import ExScript.Proofs.Lookahead

/-!
# Errors point at the first wrong token

The tokens in front of the one that is reported can be completed to a program (`Completable`), and
together with it they cannot: the same error is reported at the same token, whatever comes behind.
-/

open ExScript.Parser

namespace ExScript

/-- With more tokens behind them the tokens are read as a program, if that is not too deep. -/
def Completable (ts : List Token) : Prop :=
  ∃ more, (∀ t ∈ more, t.kind ≠ .mark .endOfInput) ∧
    (∃ limit, ∀ larger ≥ limit, ∃ body, program larger (ts ++ more) = .ok body) ∧
    ((∃ pos, parseTokens (ts ++ more) = .error (.tooDeep pos)) ∨
      ∃ p, parseTokens (ts ++ more) = .ok p)

/-- What is read under all large limits is read under the limit of the parser, or is too deep. -/
theorem parseTokens_of_larger {ts : List Token}
    (h : ∃ limit, ∀ larger ≥ limit, ∃ body, program larger ts = .ok body) :
    (∃ pos, parseTokens ts = .error (.tooDeep pos)) ∨ ∃ p, parseTokens ts = .ok p := by
  obtain ⟨limit, hlimit⟩ := h
  obtain ⟨body, hbody⟩ := hlimit (max limit nestingLimit) (Nat.le_max_left ..)
  rcases program_agrees ts (Nat.le_max_right limit nestingLimit) with ⟨rest, hdeep⟩ | hagrees
  · refine .inl ⟨ParseError.stopPos ts rest, ?_⟩
    rw [parseTokens, hdeep]
    rfl
  · obtain ⟨pos, hp⟩ := parseTokens_of_program (hagrees.trans hbody)
    exact .inr ⟨_, hp⟩

theorem exists_completable {ts : List Token} {limit : Nat} {s : Parser.Stop}
    (h : program limit ts = .error s) : ∃ pre, ts = pre ++ s.rest ∧ Completable pre := by
  obtain ⟨pre, more, hts, hmore, body, hbody⟩ := viable_prefix h
  exact ⟨pre, hts, more, hmore, hbody.read, parseTokens_of_larger hbody.read⟩

/-- A larger limit does not change what is unexpected. -/
theorem program_error_of_le {ts rest : List Token} {limit larger : Nat} {e : Expected}
    (h : program limit ts = .error ⟨.unexpected e, rest⟩) (hle : limit ≤ larger) :
    program larger ts = .error ⟨.unexpected e, rest⟩ := by
  rcases program_agrees ts hle with ⟨rest, hdeep⟩ | hagrees
  · rw [h] at hdeep
    cases hdeep
  · exact hagrees.symm.trans h

theorem parseTokens_error {ts : List Token} {e : Expected} {found : Kind} {pos : Pos}
    (h : parseTokens ts = .error (.unexpected e found pos)) :
    ∃ rest, program nestingLimit ts = .error ⟨.unexpected e, rest⟩ ∧
      ParseError.ofStop ts ⟨.unexpected e, rest⟩ = .unexpected e found pos := by
  rw [parseTokens] at h
  cases hp : program nestingLimit ts with
  | ok body =>
    rw [hp] at h
    cases h
  | error s =>
    rw [hp] at h
    replace h : ParseError.ofStop ts s = .unexpected e found pos := Except.error.inj h
    obtain ⟨reason, rest⟩ := s
    cases reason with
    | tooDeep => cases h
    | unexpected e' =>
      have he : e' = e := (ParseError.unexpected.inj h).1
      subst he
      exact ⟨rest, rfl, h⟩

/-- The parser reports the first token that cannot be right: what is in front of it can be completed
to a program, and whatever comes behind it, the same is reported at the same token.  If it reports
the end of the input, all tokens can be completed.  The limit on nesting is left aside: a program is
read under all large limits, and a larger limit reports the same. -/
theorem reports_first_wrong_token (ts : List Token) :
    (∀ limit e rest, program limit ts = .error ⟨.unexpected e, rest⟩ →
      ∃ pre, ts = pre ++ rest ∧ Completable pre ∧
        ∀ t tail, rest = t :: tail → ∀ other, ∀ larger ≥ limit,
          program larger (pre ++ t :: other) = .error ⟨.unexpected e, t :: other⟩) ∧
    (∀ e found pos, parseTokens ts = .error (.unexpected e found pos) →
      ∃ pre rest, ts = pre ++ rest ∧ program nestingLimit ts = .error ⟨.unexpected e, rest⟩ ∧
        Completable pre ∧
        (rest = [] → found = .mark .endOfInput ∧ pos = ParseError.endPos ts) ∧
        ∀ t tail, rest = t :: tail → found = t.kind ∧ pos = t.pos ∧
          ∀ other, parseTokens (pre ++ t :: other) = .error (.unexpected e found pos)) := by
  constructor
  · intro limit e rest h
    obtain ⟨pre, rfl, hpre⟩ := exists_completable h
    refine ⟨pre, rfl, hpre, ?_⟩
    rintro t tail rfl other larger hle
    exact program_error_of_le (program_unaffected h other) hle
  · intro e found pos h
    obtain ⟨rest, hstop, hreport⟩ := parseTokens_error h
    obtain ⟨pre, rfl, hpre⟩ := exists_completable hstop
    refine ⟨pre, rest, rfl, hstop, hpre, ?_, ?_⟩
    · rintro rfl
      cases hreport
      exact ⟨rfl, rfl⟩
    · rintro t tail rfl
      cases hreport
      refine ⟨rfl, rfl, fun other => ?_⟩
      rw [parseTokens, program_unaffected hstop other]
      rfl

/-- The tokens of `x = ) 1`. -/
theorem reports_first_wrong_token_parenthesis :
    let ts : List Token := [⟨.name "x", ⟨1, 1⟩⟩, ⟨.mark (.symbol .assign) "=", ⟨1, 3⟩⟩,
      ⟨.mark (.symbol .closeParen) ")", ⟨1, 5⟩⟩, ⟨.int 1, ⟨1, 7⟩⟩]
    program nestingLimit ts = .error ⟨.unexpected .expression, ts.drop 2⟩ ∧
    parseTokens ts = .error (.unexpected .expression (symbolKind .closeParen) ⟨1, 5⟩) ∧
    (∃ pre, ts = pre ++ ts.drop 2 ∧ Completable pre ∧
      ∀ t tail, ts.drop 2 = t :: tail → ∀ other, ∀ larger ≥ nestingLimit,
        program larger (pre ++ t :: other) = .error ⟨.unexpected .expression, t :: other⟩) ∧
    ∃ pre rest, ts = pre ++ rest ∧
      program nestingLimit ts = .error ⟨.unexpected .expression, rest⟩ ∧ Completable pre ∧
      (rest = [] → symbolKind .closeParen = .mark .endOfInput ∧
        (⟨1, 5⟩ : Pos) = ParseError.endPos ts) ∧
      ∀ t tail, rest = t :: tail → symbolKind .closeParen = t.kind ∧ ⟨1, 5⟩ = t.pos ∧
        ∀ other, parseTokens (pre ++ t :: other) =
          .error (.unexpected .expression (symbolKind .closeParen) ⟨1, 5⟩) := by
  intro ts
  have hstop : program nestingLimit ts = .error ⟨.unexpected .expression, ts.drop 2⟩ := by rfl
  have herror : parseTokens ts =
      .error (.unexpected .expression (symbolKind .closeParen) ⟨1, 5⟩) := by rfl
  exact ⟨hstop, herror, (reports_first_wrong_token ts).1 _ _ _ hstop,
    (reports_first_wrong_token ts).2 _ _ _ herror⟩

end ExScript
