import ExScript.Proofs.PrintedText

/-!
# Trees that differ in positions only

The printed text does not depend on positions (`print_eq_of_erase_eq`), and well-formed trees that
are alike once their positions are erased are the same (`Program.same_of_erase_eq`).
-/

namespace ExScript

namespace Printer

open Node (erase eraseAll eraseElse)

theorem level_erase (n : Node) : level n.erase = level n := by
  cases n <;> rfl

theorem enclose_erase (n : Node) (outer : Nat) (onRight : Bool) (text : Printing String) :
    enclose n.erase outer onRight text = enclose n outer onRight text := by
  rw [enclose, enclose, level_erase]

theorem receiverText_erase (n : Node) (text : Printing String) :
    receiverText n.erase text = receiverText n text := by
  cases n <;> rfl

mutual

theorem exprText_erase : ∀ n : Node, exprText n.erase = exprText n
  | .int .. | .float .. | .string .. | .bool .. | .var .. => rfl
  | .unary _ op operand => by
    rw [erase, exprText, exprText, enclose_erase, exprText_erase operand]
  | .binary _ op left right => by
    rw [erase, exprText, exprText]
    simp only [enclose_erase, exprText_erase left, exprText_erase right]
  | .call _ name args => by rw [erase, exprText, exprText, argTexts_erase args]
  | .methodCall _ receiver method args => by rw [erase, exprText, exprText, argTexts_erase args]
  | .exprMethodCall _ receiver method args => by
    rw [erase, exprText, exprText, receiverText_erase, exprText_erase receiver, argTexts_erase args]
  | .assign .. | .fnDecl .. | .ret .. | .cond .. | .whileLoop .. | .forLoop .. => rfl
  | .block .. | .unknown .. => rfl

theorem argTexts_erase : ∀ args : List Node, argTexts (eraseAll args) = argTexts args
  | [] => rfl
  | arg :: rest => by
    rw [eraseAll, argTexts, argTexts, enclose_erase, exprText_erase arg, argTexts_erase rest]

end

theorem render_erase (n : Node) : render n.erase = render n := by
  rw [render, render, enclose_erase, exprText_erase]

theorem stmtLines_erase_of_isExpr (indent : Nat) {n : Node} (h : n.isExpr = true) :
    stmtLines indent n.erase = stmtLines indent n := by
  have he : n.erase.isExpr = true := by cases n <;> exact h
  rw [stmtLines_of_isExpr indent he, stmtLines_of_isExpr indent h, render_erase]

theorem not_cond_erase {body : List Node}
    (h : ∀ pos test thenBody elseBody, body ≠ [.cond pos test thenBody elseBody]) :
    ∀ pos test thenBody elseBody, eraseAll body ≠ [.cond pos test thenBody elseBody] := by
  intro pos test thenBody elseBody heq
  cases body with
  | nil => cases heq
  | cons n rest =>
    cases rest with
    | cons => simp [eraseAll] at heq
    | nil =>
      cases n with
      | cond => exact h _ _ _ _ rfl
      | _ => simp [eraseAll, erase] at heq

mutual

theorem stmtLines_erase (indent : Nat) : ∀ n : Node, stmtLines indent n.erase = stmtLines indent n
  | .assign _ name value => by rw [erase, stmtLines, stmtLines, stmtLines_erase indent value]
  | .ret _ value => by rw [erase, stmtLines, stmtLines, render_erase]
  | .fnDecl _ name params body => by
    rw [erase, stmtLines, stmtLines, bodyLines_erase (indent + 1) body]
  | .cond _ test thenBody elseBody => by
    rw [erase, stmtLines, stmtLines, render_erase, bodyLines_erase (indent + 1) thenBody,
      elseLines_erase indent elseBody]
  | .whileLoop _ test body => by
    rw [erase, stmtLines, stmtLines, render_erase, bodyLines_erase (indent + 1) body]
  | .forLoop _ x low high body => by
    rw [erase, stmtLines, stmtLines, render_erase, render_erase, bodyLines_erase (indent + 1) body]
  | .block _ body => by rw [erase, stmtLines, stmtLines, bodyLines_erase indent body]
  | .unknown _ _ expr => by cases expr <;> rfl
  | .int .. | .float .. | .string .. | .bool .. | .var .. => stmtLines_erase_of_isExpr indent rfl
  | .unary .. | .binary .. => stmtLines_erase_of_isExpr indent rfl
  | .call .. | .methodCall .. | .exprMethodCall .. => stmtLines_erase_of_isExpr indent rfl

theorem bodyLines_erase (indent : Nat) :
    ∀ body : List Node, bodyLines indent (eraseAll body) = bodyLines indent body
  | [] => rfl
  | n :: rest => by
    rw [eraseAll, bodyLines, bodyLines, stmtLines_erase indent n, bodyLines_erase indent rest]

theorem elseLines_erase (indent : Nat) :
    ∀ elseBody : Option (List Node),
      elseLines indent (eraseElse elseBody) = elseLines indent elseBody
  | none => rfl
  | some body => by
    by_cases hcond : ∃ pos test thenBody elseBody, body = [.cond pos test thenBody elseBody]
    · obtain ⟨pos, test, thenBody, elseBody, rfl⟩ := hcond
      simp only [eraseElse, eraseAll, erase, elseLines, render_erase,
        bodyLines_erase (indent + 1) thenBody, elseLines_erase indent elseBody]
    · have hne (pos : Pos) (test : Node) (thenBody : List Node) (elseBody : Option (List Node)) :
          body ≠ [.cond pos test thenBody elseBody] := fun h => hcond ⟨_, _, _, _, h⟩
      rw [eraseElse, elseLines_block indent (not_cond_erase hne), elseLines_block indent hne,
        bodyLines_erase (indent + 1) body]

end

end Printer

/-- The printed text of a program depends on its tree only. -/
theorem Program.print_eq_of_erase_eq {p q : Program}
    (h : Node.eraseAll p.body = Node.eraseAll q.body) : p.print = q.print := by
  have hlines : Printer.bodyLines 0 p.body = Printer.bodyLines 0 q.body := by
    rw [← Printer.bodyLines_erase, h, Printer.bodyLines_erase]
  rw [Program.print, Program.print, hlines]

/-! ## Equality that ignores positions -/

namespace Node

theorem sameAll_of_erase_eq {ns ms : List Node} (he : eraseAll ns = eraseAll ms)
    (h : ∀ n ∈ ns, ∀ m : Node, n.erase = m.erase → n.same m = true) : sameAll ns ms = true := by
  induction ns generalizing ms with
  | nil =>
    cases ms with
    | nil => rfl
    | cons m ms => cases he
  | cons n ns ih =>
    cases ms with
    | nil => cases he
    | cons m ms =>
      obtain ⟨hn, hns⟩ := List.forall_mem_cons.mp h
      simp only [eraseAll, List.cons.injEq] at he
      rw [sameAll, hn m he.1, ih he.2 hns, Bool.and_self]

theorem sameElse_of_erase_eq {a b : Option (List Node)} (he : eraseElse a = eraseElse b)
    (h : ∀ n ∈ a.getD [], ∀ m : Node, n.erase = m.erase → n.same m = true) :
    sameElse a b = true := by
  cases a <;> cases b <;> simp only [eraseElse, Option.some.injEq, reduceCtorEq] at he
  · rfl
  · exact sameAll_of_erase_eq he h

theorem same_of_erase_eq {n m : Node} (hw : n.WellFormed) (he : n.erase = m.erase) :
    n.same m = true := by
  induction n using childInduction generalizing m with
  | step n ih =>
  have child {k : Node} (hk : k ∈ n.children) (m : Node) (he : k.erase = m.erase) :
      k.same m = true := ih k hk (hw.child hk) he
  cases n <;> cases m <;> simp only [erase, reduceCtorEq] at he
  case int.int | string.string | bool.bool | var.var | unknown.unknown => cases he; simp [same]
  case float.float =>
    cases he
    exact Number.beq_self_of_not_isNaN (Number.isNaN_of_isFinite hw.proper.1)
  case unary.unary =>
    injection he with _ hop ho
    simp [same, hop, child (List.mem_cons_self ..) _ ho]
  case binary.binary =>
    injection he with _ hop hl hr
    have hright := child (List.mem_cons_of_mem _ (List.mem_cons_self ..)) _ hr
    simp [same, hop, child (List.mem_cons_self ..) _ hl, hright]
  case call.call =>
    injection he with _ hname hargs
    simp [same, hname, sameAll_of_erase_eq hargs fun a ha => child ha]
  case methodCall.methodCall =>
    injection he with _ hreceiver hmethod hargs
    simp [same, hreceiver, hmethod, sameAll_of_erase_eq hargs fun a ha => child ha]
  case exprMethodCall.exprMethodCall =>
    injection he with _ hreceiver hmethod hargs
    have hsame := sameAll_of_erase_eq hargs fun a ha => child (List.mem_cons_of_mem _ ha)
    simp [same, hmethod, child (List.mem_cons_self ..) _ hreceiver, hsame]
  case assign.assign =>
    injection he with _ hname hvalue
    simp [same, hname, child (List.mem_cons_self ..) _ hvalue]
  case fnDecl.fnDecl =>
    injection he with _ hname hparams hbody
    simp [same, hname, hparams, sameAll_of_erase_eq hbody fun n hn => child hn]
  case ret.ret =>
    injection he with _ hvalue
    simp [same, child (List.mem_cons_self ..) _ hvalue]
  case cond.cond =>
    injection he with _ htest hthen helse
    have hbody := sameAll_of_erase_eq hthen
      fun n hn => child (List.mem_cons_of_mem _ (List.mem_append_left _ hn))
    have hother := sameElse_of_erase_eq helse
      fun n hn => child (List.mem_cons_of_mem _ (List.mem_append_right _ hn))
    simp [same, child (List.mem_cons_self ..) _ htest, hbody, hother]
  case whileLoop.whileLoop =>
    injection he with _ htest hbody
    have hsame := sameAll_of_erase_eq hbody fun n hn => child (List.mem_cons_of_mem _ hn)
    simp [same, child (List.mem_cons_self ..) _ htest, hsame]
  case forLoop.forLoop =>
    injection he with _ hx hlow hhigh hbody
    have hsame := sameAll_of_erase_eq hbody
      fun n hn => child (List.mem_cons_of_mem _ (List.mem_cons_of_mem _ hn))
    have hsecond := child (List.mem_cons_of_mem _ (List.mem_cons_self ..)) _ hhigh
    simp [same, hx, child (List.mem_cons_self ..) _ hlow, hsecond, hsame]
  case block.block => exact hw.proper.elim

end Node

theorem Program.same_of_erase_eq {p q : Program} (hw : p.WellFormed)
    (h : Node.eraseAll p.body = Node.eraseAll q.body) : p.same q = true :=
  Node.sameAll_of_erase_eq h fun n hn _ he => Node.same_of_erase_eq (hw n hn) he

end ExScript
