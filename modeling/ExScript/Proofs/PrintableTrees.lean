import ExScript.Proofs.LongSums

/-!
# Which trees are printed

Any tree can be handed to the printer.  It is printed if and only if the stack has room for its rules
and nothing in the tree is unprintable (`Program.print_succeeds_iff`): a literal or an operator
without spelling, a node of unknown sort, a statement where an expression has to stand, or an
assignment of blocks that have no line.
-/

namespace ExScript

namespace Node

/-- Blocks within blocks and no other statement. -/
inductive Lineless : Node → Prop
  | block {pos : Pos} {body : List Node} (h : ∀ n ∈ body, Lineless n) : Lineless (block pos body)

/-- The parts that stand where an expression has to. -/
def operands : Node → List Node
  | unary _ _ operand => [operand]
  | binary _ _ left right => [left, right]
  | call _ _ args | methodCall _ _ _ args => args
  | exprMethodCall _ receiver _ args => receiver :: args
  | ret _ value => [value]
  | cond _ test _ _ | whileLoop _ test _ => [test]
  | forLoop _ _ low high _ => [low, high]
  | _ => []

/-- No text stands for a node like this, whatever its operands are. -/
def Unspellable : Node → Prop
  | float _ value => Number.isFinite value = false
  | string _ text => '\x22' ∈ text.toList ∨ '\n' ∈ text.toList
  | binary _ op _ _ => ¬ op.Known
  | assign _ _ value => value.Lineless
  | unknown _ _ _ => True
  | _ => False

def Unprintable (n : Node) : Prop := n.Unspellable ∨ ∃ m ∈ n.operands, m.isExpr = false

/-- Nothing in the tree is unprintable. -/
def Printable (n : Node) : Prop := ∀ m, Inside n m → ¬ m.Unprintable

/-- All parts of an expression are operands. -/
theorem operands_of_isExpr {n : Node} (h : n.isExpr = true) : n.operands = n.children := by
  cases n with
  | assign | fnDecl | ret | cond | whileLoop | forLoop | block => cases h
  | _ => rfl

theorem printable_iff {n : Node} : n.Printable ↔
    ¬ n.Unspellable ∧ (∀ m ∈ n.operands, m.isExpr = true) ∧ ∀ m ∈ n.children, m.Printable := by
  have hself : ¬ n.Unprintable ↔ ¬ n.Unspellable ∧ ∀ m ∈ n.operands, m.isExpr = true := by
    simp [Unprintable]
  rw [← and_assoc, ← hself]
  constructor
  · intro h
    exact ⟨h n .root, fun m hm k hk => h k (hk.of_child hm)⟩
  · rintro ⟨hn, hc⟩ m hm
    rcases hm.root_or_below with rfl | ⟨c, hmem, hm⟩
    · exact hn
    · exact hc c hmem m hm

end Node

namespace Printer

open Node

/-- A rule of the printer gives a text or lines, if only the stack is large enough. -/
def Succeeds {α : Type} (rule : Printing α) : Prop := ∃ a, Prints rule a

section Succeeds

variable {α β : Type} {rule : Printing α} {f : α → Printing β}

@[simp]
theorem succeeds_pure (a : α) : Succeeds (pure a) := ⟨a, .pure a⟩

@[simp]
theorem not_succeeds_throw (e : PrintError) : ¬ Succeeds (throw e : Printing α) :=
  fun ⟨a, h⟩ => not_prints_throw e a h

theorem succeeds_lift {r : Except PrintError α} : Succeeds (liftM r) ↔ ∃ a, r = .ok a := Iff.rfl

@[simp]
theorem succeeds_nested : Succeeds (nested rule) ↔ Succeeds rule := Iff.rfl

theorem succeeds_bind : Succeeds (rule >>= f) ↔ ∃ a, Prints rule a ∧ Succeeds (f a) := by
  simp only [Succeeds, Prints.bind_iff]
  exact exists_comm.trans (by simp)

@[simp]
theorem succeeds_map (g : α → β) : Succeeds (g <$> rule) ↔ Succeeds rule := by
  rw [map_eq_pure_bind, succeeds_bind]
  simp only [succeeds_pure, and_true]
  rfl

theorem exists_prints : (∃ a, Prints rule a) ↔ Succeeds rule := Iff.rfl

end Succeeds

/-! ## Expressions -/

theorem succeeds_operatorLevel (op : BinaryOp) :
    Succeeds (liftM (operatorLevel op)) ↔ op.Known := by
  cases op <;> simp [succeeds_lift, operatorLevel, BinaryOp.Known]

/-- The operator is looked up for the level and once more for the text. -/
theorem succeeds_level {n : Node} (h : Succeeds (exprText n)) : Succeeds (liftM (level n)) := by
  cases n with
  | binary _ op _ _ =>
    rw [exprText, succeeds_bind] at h
    obtain ⟨own, hown, _⟩ := h
    exact ⟨own, hown⟩
  | _ => simp [succeeds_lift, level]

theorem succeeds_enclose (n : Node) (outer : Nat) (onRight : Bool) :
    Succeeds (enclose n outer onRight (exprText n)) ↔ Succeeds (exprText n) := by
  simpa [enclose, succeeds_bind, exists_prints] using succeeds_level

theorem succeeds_render (n : Node) : Succeeds (render n) ↔ Succeeds (exprText n) :=
  succeeds_enclose n lowestLevel false

/-- The name of a variable is printed without the rules for expressions. -/
theorem succeeds_receiverText (n : Node) :
    Succeeds (receiverText n (exprText n)) ↔ Succeeds (exprText n) := by
  unfold receiverText
  split
  · simp [exprText]
  · exact succeeds_enclose _ methodLevel false

theorem succeeds_argTexts (args : List Node) :
    Succeeds (argTexts args) ↔ ∀ arg ∈ args, Succeeds (exprText arg) := by
  induction args with
  | nil => simp [argTexts]
  | cons arg rest ih => simp [argTexts, succeeds_bind, exists_prints, succeeds_enclose, ih]

theorem succeeds_floatText (value : Float) :
    Succeeds (liftM (floatText value)) ↔ Number.isFinite value = true := by
  unfold floatText Number.literalText?
  cases Number.isFinite value <;> simp [succeeds_lift]

theorem succeeds_stringText (text : String) :
    Succeeds (liftM (stringText text)) ↔ '\x22' ∉ text.toList ∧ '\n' ∉ text.toList := by
  rw [succeeds_lift]
  unfold stringText
  split
  next h =>
    refine iff_of_false (by simp) ?_
    simp only [List.any_eq_true, Bool.or_eq_true, decide_eq_true_eq] at h
    rintro ⟨hquote, hbreak⟩
    obtain ⟨c, hc, rfl | rfl⟩ := h
    · exact hquote hc
    · exact hbreak hc
  next h =>
    refine iff_of_true ⟨_, rfl⟩ ?_
    simp only [List.any_eq_true, Bool.or_eq_true, decide_eq_true_eq, not_exists, not_and] at h
    exact ⟨fun hquote => h _ hquote (.inl rfl), fun hbreak => h _ hbreak (.inr rfl)⟩

/-- An expression is rendered if it has a spelling and all its parts are rendered. -/
theorem succeeds_exprText_iff {n : Node} (h : n.isExpr = true) :
    Succeeds (exprText n) ↔ ¬ n.Unspellable ∧ ∀ m ∈ n.children, Succeeds (exprText m) := by
  cases n with
  | assign | fnDecl | ret | cond | whileLoop | forLoop | block => cases h
  | float => simp [exprText, succeeds_floatText, Unspellable, children]
  | string => simp [exprText, succeeds_stringText, Unspellable, children]
  | unary => simp [exprText, succeeds_enclose, Unspellable, children]
  | binary =>
    simp [exprText, succeeds_bind, exists_prints, succeeds_operatorLevel, succeeds_enclose,
      Unspellable, children]
  | call | methodCall => simp [exprText, succeeds_argTexts, Unspellable, children]
  | exprMethodCall =>
    simp [exprText, succeeds_bind, exists_prints, succeeds_receiverText, succeeds_argTexts,
      Unspellable, children]
  | int | bool | var | unknown => simp [exprText, Unspellable, children]

theorem not_succeeds_exprText {n : Node} (h : n.isExpr = false) : ¬ Succeeds (exprText n) := by
  cases n with
  | int | float | string | bool | var | unary | binary | call | methodCall | exprMethodCall =>
    cases h
  | _ => simp [exprText]

theorem succeeds_exprText (n : Node) :
    Succeeds (exprText n) ↔ n.isExpr = true ∧ n.Printable := by
  induction n using childInduction with
  | step n ih =>
    cases h : n.isExpr with
    | false => simpa using not_succeeds_exprText h
    | true =>
      have hparts : (∀ m ∈ n.children, Succeeds (exprText m)) ↔
          (∀ m ∈ n.operands, m.isExpr = true) ∧ ∀ m ∈ n.children, m.Printable := by
        rw [operands_of_isExpr h, ← forall₂_and]
        exact forall₂_congr ih
      rw [succeeds_exprText_iff h, hparts, printable_iff]
      simp

/-! ## Statements -/

theorem succeeds_bodyLines (indent : Nat) (body : List Node) :
    Succeeds (bodyLines indent body) ↔ ∀ n ∈ body, Succeeds (stmtLines indent n) := by
  induction body with
  | nil => simp [bodyLines]
  | cons n rest ih => simp [bodyLines, succeeds_bind, exists_prints, ih]

/-! ### Statements without a line -/

theorem not_prints_bind {α β : Type} {rule : Printing α} {f : α → Printing β} {b : β}
    (h : ∀ a, ¬ Prints (f a) b) : ¬ Prints (rule >>= f) b := by
  simp [Prints.bind_iff, h]

theorem bodyLines_nil_iff (indent : Nat) (body : List Node) :
    Prints (bodyLines indent body) [] ↔ ∀ n ∈ body, Prints (stmtLines indent n) [] := by
  induction body with
  | nil => simp [bodyLines]
  | cons n rest ih =>
    rw [bodyLines, List.forall_mem_cons, ← ih]
    simp only [Prints.bind_iff, prints_nested, prints_pure, List.append_eq_nil_iff]
    constructor
    · rintro ⟨_, hlines, _, hmore, rfl, rfl⟩
      exact ⟨hlines, hmore⟩
    · rintro ⟨hlines, hmore⟩
      exact ⟨_, hlines, _, hmore, rfl, rfl⟩

/-- Everything but a block takes a line of its own. -/
theorem stmtLines_not_nil (indent : Nat) {n : Node} (h : ∀ pos body, n ≠ .block pos body) :
    ¬ Prints (stmtLines indent n) [] := by
  cases he : n.isExpr with
  | true =>
    rw [stmtLines_of_isExpr indent he]
    exact not_prints_bind fun _ => by simp
  | false =>
    cases n with
    | int | float | string | bool | var | unary | binary | call | methodCall | exprMethodCall =>
      cases he
    | block pos body => exact absurd rfl (h pos body)
    | assign _ name _ =>
      rw [stmtLines]
      refine not_prints_bind fun lines => ?_
      cases lines <;> simp [prints_lift, assignTo]
    | fnDecl =>
      rw [stmtLines]
      exact not_prints_bind fun _ => by simp [braced]
    | ret =>
      rw [stmtLines]
      exact not_prints_bind fun _ => by simp
    | whileLoop =>
      rw [stmtLines]
      exact not_prints_bind fun _ => not_prints_bind fun _ => by simp [braced]
    | forLoop =>
      rw [stmtLines]
      exact not_prints_bind fun _ => not_prints_bind fun _ => not_prints_bind fun _ => by
        simp [braced]
    | cond =>
      rw [stmtLines, prints_nested]
      exact not_prints_bind fun _ => not_prints_bind fun _ => not_prints_bind fun _ => by simp
    | unknown _ _ expr =>
      cases he
      rw [stmtLines]
      exact not_prints_throw _ _

theorem stmtLines_nil_iff (indent : Nat) (n : Node) :
    Prints (stmtLines indent n) [] ↔ n.Lineless := by
  induction n using childInduction with
  | step n ih =>
    by_cases hblock : ∃ pos body, n = .block pos body
    · obtain ⟨pos, body, rfl⟩ := hblock
      rw [stmtLines, bodyLines_nil_iff]
      constructor
      · exact fun h => .block fun m hm => (ih m hm).mp (h m hm)
      · rintro ⟨h⟩ m hm
        exact (ih m hm).mpr (h m hm)
    · have hne : ∀ pos body, n ≠ .block pos body := fun pos body h => hblock ⟨pos, body, h⟩
      refine iff_of_false (stmtLines_not_nil indent hne) ?_
      rintro ⟨_⟩
      exact hne _ _ rfl

/-! ### All statements -/

theorem succeeds_assign (indent : Nat) (pos : Pos) (name : String) (value : Node) :
    Succeeds (stmtLines indent (.assign pos name value)) ↔
      ¬ value.Lineless ∧ Succeeds (stmtLines indent value) := by
  rw [stmtLines, ← stmtLines_nil_iff indent, succeeds_bind]
  constructor
  · rintro ⟨lines, hlines, hfirst⟩
    refine ⟨fun hnil => ?_, lines, hlines⟩
    cases hnil.unique hlines
    simp [succeeds_lift, assignTo] at hfirst
  · rintro ⟨hnil, lines, hlines⟩
    refine ⟨lines, hlines, ?_⟩
    cases lines with
    | nil => exact absurd hlines hnil
    | cons first rest => exact ⟨_, .lift rfl⟩

/-- An `if` behind an `else` has the parts that it has alone. -/
theorem succeeds_elseLines_cond (indent : Nat) (pos : Pos) (test : Node) (thenBody : List Node)
    (elseBody : Option (List Node)) :
    Succeeds (elseLines indent (some [.cond pos test thenBody elseBody])) ↔
      Succeeds (stmtLines indent (.cond pos test thenBody elseBody)) := by
  simp [elseLines, stmtLines, succeeds_bind]

theorem succeeds_elseLines (body : Option (List Node))
    (h : ∀ n ∈ body.getD [], ∀ indent, Succeeds (stmtLines indent n) ↔ n.Printable)
    (indent : Nat) : Succeeds (elseLines indent body) ↔ ∀ n ∈ body.getD [], n.Printable := by
  cases body with
  | none => simp [elseLines]
  | some body =>
    by_cases hcond : ∃ pos test thenBody elseBody, body = [.cond pos test thenBody elseBody]
    · obtain ⟨pos, test, thenBody, elseBody, rfl⟩ := hcond
      simpa [succeeds_elseLines_cond] using h _ (List.mem_singleton.mpr rfl) indent
    · have hne : ∀ pos test thenBody elseBody, body ≠ [.cond pos test thenBody elseBody] :=
        fun pos test thenBody elseBody h => hcond ⟨pos, test, thenBody, elseBody, h⟩
      rw [elseLines_block indent hne]
      simpa [succeeds_bodyLines] using forall₂_congr fun n hn => h n hn (indent + 1)

theorem succeeds_stmtLines (n : Node) (indent : Nat) :
    Succeeds (stmtLines indent n) ↔ n.Printable := by
  induction n using childInduction generalizing indent with
  | step n ih =>
    -- bodies stand deeper than their statement, so the induction is for every indentation
    have hbody (body : List Node) (h : ∀ m ∈ body, m ∈ n.children) (indent : Nat) :
        Succeeds (bodyLines indent body) ↔ ∀ m ∈ body, m.Printable := by
      rw [succeeds_bodyLines]
      exact forall₂_congr fun m hm => ih m (h m hm) indent
    cases he : n.isExpr with
    | true => simp [stmtLines_of_isExpr indent he, succeeds_render, succeeds_exprText, he]
    | false =>
      rw [printable_iff]
      cases n with
      | int | float | string | bool | var | unary | binary | call | methodCall | exprMethodCall =>
        cases he
      | assign _ _ value =>
        have hvalue := ih value (List.mem_singleton.mpr rfl) indent
        simp [succeeds_assign, hvalue, Unspellable, operands, children]
      | ret _ value =>
        simp [stmtLines, succeeds_render, succeeds_exprText, Unspellable, operands, children]
      | fnDecl _ _ _ body =>
        have hlines := hbody body (fun m hm => hm) (indent + 1)
        simp [stmtLines, hlines, Unspellable, operands, children]
      | block _ body =>
        have hlines := hbody body (fun m hm => hm) indent
        simp [stmtLines, hlines, Unspellable, operands, children]
      | whileLoop _ test body =>
        have hlines := hbody body (fun m hm => List.mem_cons_of_mem test hm) (indent + 1)
        simp [stmtLines, succeeds_bind, exists_prints, succeeds_render, succeeds_exprText, hlines,
          Unspellable, operands, children, and_assoc]
      | forLoop _ _ low high body =>
        have hlines := hbody body (fun m hm => by simp [children, hm]) (indent + 1)
        simp [stmtLines, succeeds_bind, exists_prints, succeeds_render, succeeds_exprText, hlines,
          Unspellable, operands, children, and_assoc, and_left_comm]
      | cond _ test thenBody elseBody =>
        have hthen := hbody thenBody (fun m hm => by simp [children, hm]) (indent + 1)
        have helse := succeeds_elseLines elseBody (fun m hm => ih m (by simp [children, hm])) indent
        simp [stmtLines, succeeds_bind, exists_prints, succeeds_render, succeeds_exprText, hthen,
          helse, Unspellable, operands, children, and_assoc, or_imp, forall_and]
      | unknown =>
        cases he
        simp [stmtLines, Unspellable]

end Printer

namespace Program

open Printer

theorem print_succeeds (p : Program) : Succeeds p.print ↔ p.toNode.Printable := by
  rw [← succeeds_stmtLines p.toNode 0, toNode, stmtLines]
  simp [print]

/-- The text is made of whole lines. -/
theorem print_eq_empty_or_line {p : Program} {text : String} (h : Prints p.print text) :
    text = "" ∨ ∃ front, text = front ++ "\n" := by
  obtain ⟨lines, -, htext⟩ := Prints.bind_iff.mp h
  rw [← prints_pure.mp htext]
  split
  · exact .inl rfl
  · exact .inr ⟨_, rfl⟩

/-- A tree is printed if and only if nothing in it is unprintable and the stack has room for it, and
then as whole lines.  If only the room is missing, this is what the printer fails for. -/
theorem print_succeeds_iff (p : Program) (limit : Option Nat) :
    ((∃ text, p.print limit = .ok text) ↔
      (∀ n, Node.Inside p.toNode n → ¬ n.Unprintable) ∧ Fits p.frames limit) ∧
    (∀ text, p.print limit = .ok text → text = "" ∨ ∃ front, text = front ++ "\n") ∧
    ((∀ n, Node.Inside p.toNode n → ¬ n.Unprintable) → ¬ Fits p.frames limit →
      p.print limit = .error .tooDeep) := by
  have hok (text : String) : p.print limit = .ok text ↔ Prints p.print text ∧ Fits p.frames limit :=
    p.takes_print.ok_iff
  refine ⟨?_, fun text h => print_eq_empty_or_line ((hok text).mp h).1, fun h hl => ?_⟩
  · rw [show (∀ n, Node.Inside p.toNode n → ¬ n.Unprintable) ↔ Succeeds p.print from
      p.print_succeeds.symm]
    simp [hok, Succeeds]
  · obtain ⟨text, htext⟩ := p.print_succeeds.mpr h
    exact p.takes_print.tooDeep htext hl

/-- Nothing in a sum of 3000 ones is unprintable, but the stack of the host has no room for it. -/
theorem print_fails_three_thousand_ones :
    let p := sumOfOnes 2999
    (∀ n, Node.Inside p.toNode n → ¬ n.Unprintable) ∧
      ¬ ∃ text, p.print (some nestingLimit) = .ok text := by
  intro p
  refine ⟨p.print_succeeds.mp ⟨_, (printedAs_sumOfOnes 2999).prints⟩, ?_⟩
  rw [print_sumOfOnes 2999 nestingLimit, if_neg (by decide)]
  rintro ⟨text, h⟩
  cases h

end Program

end ExScript
