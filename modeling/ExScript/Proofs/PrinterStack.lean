import ExScript.Proofs.PrintedText

/-!
# How large a stack the printer takes

The rules that are active at a time are those on the way from the program to one of its parts, so
that a number that depends on the tree alone says how many there are at most (`Program.frames`).  A
stack with room for that many makes no difference to the printer, and on a smaller one it fails, for
this reason if for no other (`Takes`, `Program.takes_print`).
-/

namespace ExScript

namespace Node

/-- The rule for a value before a method is not used for a bare name. -/
def receiverFrames (receiver : Node) (frames : Nat) : Nat :=
  match receiver with
  | var .. => 0
  | _ => frames + 2

mutual

/-- How many rules become active on top of the one for an expression. -/
def exprFrames : Node → Nat
  | float .. => 1
  | unary _ _ operand => exprFrames operand + 2
  | binary _ _ left right => max (exprFrames left + 2) (exprFrames right + 2)
  | call _ _ args | methodCall _ _ _ args => argFrames args + 1
  | exprMethodCall _ receiver _ args =>
    max (receiverFrames receiver (exprFrames receiver)) (argFrames args + 1)
  | _ => 0

def argFrames : List Node → Nat
  | [] => 0
  | arg :: rest => max (exprFrames arg + 2) (argFrames rest)

end

mutual

/-- How many rules become active on top of the one for a statement. -/
def stmtFrames : Node → Nat
  | assign _ _ value => stmtFrames value + 1
  | ret _ value => exprFrames value + 2
  | fnDecl _ _ _ body => bodyFrames body + 1
  | cond _ test thenBody elseBody =>
    max (exprFrames test + 2) (max (bodyFrames thenBody + 1) (elseFrames elseBody)) + 1
  | whileLoop _ test body => max (exprFrames test + 2) (bodyFrames body + 1)
  | forLoop _ _ low high body =>
    max (exprFrames low + 2) (max (exprFrames high + 2) (bodyFrames body + 1))
  | block _ body => bodyFrames body
  | unknown _ _ false => 0
  | n => exprFrames n + 2

def bodyFrames : List Node → Nat
  | [] => 0
  | n :: rest => max (stmtFrames n + 1) (bodyFrames rest)

def elseFrames : Option (List Node) → Nat
  | none => 0
  | some [cond _ test thenBody elseBody] =>
    max (exprFrames test + 2) (max (bodyFrames thenBody + 1) (elseFrames elseBody))
  | some body => bodyFrames body + 1

end

theorem stmtFrames_of_isExpr {n : Node} (h : n.isExpr = true) :
    n.stmtFrames = n.exprFrames + 2 := by
  cases n with
  | assign | fnDecl | ret | cond | whileLoop | forLoop | block => cases h
  | unknown => cases h; simp only [stmtFrames]
  | _ => simp only [stmtFrames]

theorem elseFrames_block {body : List Node}
    (h : ∀ pos test thenBody elseBody, body ≠ [cond pos test thenBody elseBody]) :
    elseFrames (some body) = bodyFrames body + 1 := by
  rw [elseFrames.eq_def]
  split
  · next heq => cases heq
  · next heq => exact absurd (Option.some.inj heq) (h _ _ _ _)
  · next heq => cases heq; rfl

end Node

/-- How many rules of the printer are active at a time. -/
def Program.frames (p : Program) : Nat := Node.bodyFrames p.body

namespace Printer

open Node

/-- A stack has room for so many rules. -/
def Fits (frames : Nat) : Option Nat → Prop
  | none => True
  | some limit => frames ≤ limit

@[simp]
theorem fits_none (frames : Nat) : Fits frames none := trivial

@[simp]
theorem fits_some {frames limit : Nat} : Fits frames (some limit) ↔ frames ≤ limit := Iff.rfl

/-- A rule needs room for exactly so many rules on top of it, unless it fails anyway. -/
structure Takes {α : Type} (rule : Printing α) (frames : Nat) : Prop where
  enough : ∀ limit, frames ≤ limit → rule (some limit) = rule none
  short : ∀ limit, limit < frames → rule (some limit) = .error .tooDeep ∨
    ∃ e, rule none = .error e ∧ rule (some limit) = .error e

section Takes

variable {α β : Type} {rule : Printing α} {f : α → Printing β} {k l : Nat}

theorem takes_lift (r : Except PrintError α) : Takes (liftM r) 0 :=
  ⟨fun _ _ => rfl, fun _ h => absurd h (Nat.not_lt_zero _)⟩

theorem takes_pure (a : α) : Takes (pure a) 0 :=
  ⟨fun _ _ => rfl, fun _ h => absurd h (Nat.not_lt_zero _)⟩

theorem takes_throw (e : PrintError) : Takes (throw e : Printing α) 0 :=
  ⟨fun _ _ => rfl, fun _ h => absurd h (Nat.not_lt_zero _)⟩

theorem Takes.nested (h : Takes rule k) : Takes (nested rule) (k + 1) where
  enough limit hk := by
    cases limit with
    | zero => omega
    | succ more => exact h.enough more (Nat.le_of_succ_le_succ hk)
  short limit hk := by
    cases limit with
    | zero => exact .inl rfl
    | succ more => exact h.short more (Nat.lt_of_succ_lt_succ hk)

theorem bind_apply (limit : Option Nat) : (rule >>= f) limit = rule limit >>= fun a => f a limit :=
  rfl

theorem Takes.bind (h : Takes rule k) (hf : ∀ a, Takes (f a) l) :
    Takes (rule >>= f) (max k l) where
  enough limit hk := by
    rw [bind_apply, bind_apply, h.enough limit ((max_le_iff.mp hk).1)]
    cases rule none with
    | error e => rfl
    | ok a => exact (hf a).enough limit ((max_le_iff.mp hk).2)
  short limit hlt := by
    rw [bind_apply, bind_apply]
    by_cases hk : k ≤ limit
    · rw [h.enough limit hk]
      cases rule none with
      | error e => exact .inr ⟨e, rfl, rfl⟩
      | ok a => exact (hf a).short limit (by omega)
    · rcases h.short limit (Nat.lt_of_not_le hk) with hs | ⟨e, hn, hs⟩
      · exact .inl (by rw [hs]; rfl)
      · exact .inr ⟨e, by rw [hn]; rfl, by rw [hs]; rfl⟩

/-- What comes last does not become active on top of anything. -/
theorem Takes.bind_pure (h : Takes rule k) (g : α → β) :
    Takes (rule >>= fun a => pure (g a)) k := by
  simpa using h.bind fun a => takes_pure (g a)

/-! ### What a stack gives -/

theorem Takes.eq_none (h : Takes rule k) {limit : Option Nat} (hl : Fits k limit) :
    rule limit = rule none := by
  cases limit with
  | none => rfl
  | some limit => exact h.enough limit hl

/-- What would be printed is not, on a stack that is too small. -/
theorem Takes.tooDeep (h : Takes rule k) {a : α} (ha : rule none = .ok a) {limit : Option Nat}
    (hl : ¬ Fits k limit) : rule limit = .error .tooDeep := by
  cases limit with
  | none => exact absurd (fits_none k) hl
  | some limit =>
    rcases h.short limit (Nat.lt_of_not_le hl) with hs | ⟨e, he, _⟩
    · exact hs
    · cases ha.symm.trans he

theorem Takes.ok_iff (h : Takes rule k) {a : α} {limit : Option Nat} :
    rule limit = .ok a ↔ rule none = .ok a ∧ Fits k limit := by
  by_cases hl : Fits k limit
  · simp [h.eq_none hl, hl]
  · cases limit with
    | none => exact absurd (fits_none k) hl
    | some limit =>
      rcases h.short limit (Nat.lt_of_not_le hl) with hs | ⟨e, _, hs⟩ <;> simp [hs, hl]

end Takes

/-! ## Expressions -/

theorem takes_enclose {text : Printing String} {k : Nat} (n : Node) (outer : Nat) (onRight : Bool)
    (h : Takes text k) : Takes (enclose n outer onRight text) (k + 2) := by
  have hinner (own : Nat) : Takes (do
      let inner ← nested text
      return if needsParens own outer onRight then "(" ++ inner ++ ")" else inner) (k + 1) :=
    h.nested.bind_pure _
  have hall := ((takes_lift (level n)).nested.bind hinner).nested
  rwa [Nat.max_eq_right (by omega)] at hall

theorem takes_receiverText {text : Printing String} {k : Nat} (n : Node) (h : Takes text k) :
    Takes (receiverText n text) (n.receiverFrames k) := by
  cases n with
  | var => exact takes_pure _
  | _ => exact takes_enclose _ methodLevel false h

mutual

theorem takes_exprText : ∀ n : Node, Takes (exprText n) n.exprFrames
  | .int .. | .bool .. | .var .. => takes_pure _
  | .float _ value => (takes_lift (floatText value)).nested
  | .string _ text => takes_lift (stringText text)
  | .unary _ op operand => by
    rw [exprText, exprFrames]
    exact (takes_enclose operand unaryLevel true (takes_exprText operand)).bind_pure _
  | .binary _ op left right => by
    have hleft (own : Nat) := takes_enclose left own false (takes_exprText left)
    have hright (own : Nat) := takes_enclose right own true (takes_exprText right)
    rw [exprText, exprFrames]
    simpa using (takes_lift (operatorLevel op)).bind fun own =>
      (hleft own).bind fun leftText => (hright own).bind_pure fun rightText =>
        leftText ++ " " ++ op.text ++ " " ++ rightText
  | .call _ name args => by
    rw [exprText, exprFrames]
    exact (takes_argTexts args).nested.bind_pure _
  | .methodCall _ receiver method args => by
    rw [exprText, exprFrames]
    exact (takes_argTexts args).nested.bind_pure _
  | .exprMethodCall _ receiver method args => by
    have hreceiver := takes_receiverText receiver (takes_exprText receiver)
    rw [exprText, exprFrames]
    exact hreceiver.bind fun own => (takes_argTexts args).nested.bind_pure _
  | .assign .. | .fnDecl .. | .ret .. | .cond .. | .whileLoop .. | .forLoop .. => takes_throw _
  | .block .. | .unknown .. => takes_throw _

theorem takes_argTexts : ∀ args : List Node, Takes (argTexts args) (argFrames args)
  | [] => takes_pure _
  | arg :: rest => by
    rw [argTexts, argFrames]
    exact (takes_enclose arg lowestLevel false (takes_exprText arg)).bind fun text =>
      (takes_argTexts rest).bind_pure _

end

theorem takes_render (n : Node) : Takes (render n) (n.exprFrames + 2) :=
  takes_enclose n lowestLevel false (takes_exprText n)

/-! ## Statements -/

theorem takes_stmtLines_of_isExpr (indent : Nat) {n : Node} (h : n.isExpr = true) :
    Takes (stmtLines indent n) n.stmtFrames := by
  rw [stmtLines_of_isExpr indent h, stmtFrames_of_isExpr h]
  exact (takes_render n).bind_pure _

mutual

theorem takes_stmtLines (indent : Nat) : ∀ n : Node, Takes (stmtLines indent n) n.stmtFrames
  | .assign _ name value => by
    rw [stmtLines, stmtFrames]
    simpa using (takes_stmtLines indent value).nested.bind fun lines =>
      takes_lift (assignTo name lines)
  | .ret _ value => by
    rw [stmtLines, stmtFrames]
    exact (takes_render value).bind_pure _
  | .fnDecl _ name params body => by
    rw [stmtLines, stmtFrames]
    exact (takes_bodyLines (indent + 1) body).nested.bind_pure _
  | .cond _ test thenBody elseBody => by
    rw [stmtLines, stmtFrames]
    exact ((takes_render test).bind fun _ =>
      (takes_bodyLines (indent + 1) thenBody).nested.bind fun _ =>
        (takes_elseLines indent elseBody).bind_pure _).nested
  | .whileLoop _ test body => by
    rw [stmtLines, stmtFrames]
    exact (takes_render test).bind fun _ => (takes_bodyLines (indent + 1) body).nested.bind_pure _
  | .forLoop _ x low high body => by
    rw [stmtLines, stmtFrames]
    exact (takes_render low).bind fun _ => (takes_render high).bind fun _ =>
      (takes_bodyLines (indent + 1) body).nested.bind_pure _
  | .block _ body => by
    rw [stmtLines, stmtFrames]
    exact takes_bodyLines indent body
  | .unknown _ _ false => takes_throw _
  | .unknown _ _ true => takes_stmtLines_of_isExpr indent rfl
  | .int .. | .float .. | .string .. | .bool .. | .var .. => takes_stmtLines_of_isExpr indent rfl
  | .unary .. | .binary .. => takes_stmtLines_of_isExpr indent rfl
  | .call .. | .methodCall .. | .exprMethodCall .. => takes_stmtLines_of_isExpr indent rfl

theorem takes_bodyLines (indent : Nat) :
    ∀ body : List Node, Takes (bodyLines indent body) (bodyFrames body)
  | [] => takes_pure _
  | n :: rest => by
    rw [bodyLines, bodyFrames]
    exact (takes_stmtLines indent n).nested.bind fun _ => (takes_bodyLines indent rest).bind_pure _

theorem takes_elseLines (indent : Nat) :
    ∀ elseBody : Option (List Node), Takes (elseLines indent elseBody) (elseFrames elseBody)
  | none => takes_pure _
  | some body => by
    by_cases hcond : ∃ pos test thenBody elseBody, body = [.cond pos test thenBody elseBody]
    · obtain ⟨pos, test, thenBody, elseBody, rfl⟩ := hcond
      rw [elseLines, elseFrames]
      exact (takes_render test).bind fun _ =>
        (takes_bodyLines (indent + 1) thenBody).nested.bind fun _ =>
          (takes_elseLines indent elseBody).bind_pure _
    · have hne (pos : Pos) (test : Node) (thenBody : List Node) (elseBody : Option (List Node)) :
          body ≠ [.cond pos test thenBody elseBody] := fun h => hcond ⟨_, _, _, _, h⟩
      rw [elseLines_block indent hne, elseFrames_block hne]
      exact (takes_bodyLines (indent + 1) body).nested.bind_pure _

end

end Printer

namespace Program

theorem takes_print (p : Program) : Printer.Takes p.print p.frames :=
  (Printer.takes_bodyLines 0 p.body).bind_pure _

/-- The program is printed as this text wherever the stack has room for it, and nowhere else. -/
structure PrintedAs (p : Program) (text : String) : Prop where
  fits : ∀ limit, Printer.Fits p.frames limit → p.print limit = .ok text
  tooDeep : ∀ limit, ¬ Printer.Fits p.frames limit → p.print limit = .error .tooDeep

theorem printedAs_of_prints {p : Program} {text : String} (h : Printer.Prints p.print text) :
    p.PrintedAs text where
  fits _ hl := (p.takes_print.eq_none hl).trans h
  tooDeep _ hl := p.takes_print.tooDeep h hl

theorem PrintedAs.prints {p : Program} {text : String} (h : p.PrintedAs text) :
    Printer.Prints p.print text :=
  h.fits none trivial

end Program

end ExScript
