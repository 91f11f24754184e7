import ExScript.Proofs.ChannelHeight
import ExScript.Proofs.Nesting
import ExScript.Proofs.PrinterStack
import ExScript.Session

/-!
# Sums of many ones

Operators group to the left, so that a long sum is a deep tree.  The parser takes its terms in a loop
and never nests any deeper, but the printer goes down to the first term: however large the stack of
the printer is, some sum is too long for it (`Program.print_sumOfOnes`), although it is parsed and
run like any other (`Program.nesting_sumOfOnes`, `Session.runMachine_sumOfOnes`).
-/

namespace ExScript

namespace Node

/-- One, and so many further ones added to it. -/
def sumOfOnes : Nat → Node
  | 0 => .int ⟨1, 1⟩ 1
  | n + 1 => .binary ⟨1, 1⟩ .add (sumOfOnes n) (.int ⟨1, 1⟩ 1)

theorem isExpr_sumOfOnes (n : Nat) : (sumOfOnes n).isExpr = true := by cases n <;> rfl

theorem wellFormed_one : (Node.int ⟨1, 1⟩ 1).WellFormed :=
  .intro ⟨by decide, by decide⟩ fun _ h => absurd h List.not_mem_nil

theorem wellFormed_sumOfOnes (n : Nat) : (sumOfOnes n).WellFormed := by
  induction n with
  | zero => exact wellFormed_one
  | succ n ih =>
    refine .intro ⟨trivial, isExpr_sumOfOnes n, rfl⟩ fun m hm => ?_
    rcases List.mem_pair.mp hm with rfl | rfl
    · exact ih
    · exact wellFormed_one

theorem exprFrames_sumOfOnes (n : Nat) : (sumOfOnes n).exprFrames = 2 * n := by
  induction n with
  | zero => rfl
  | succ n ih =>
    simp only [sumOfOnes, exprFrames, ih]
    omega

theorem level_add_nesting_sumOfOnes (n : Nat) :
    (sumOfOnes n).level + (sumOfOnes n).nesting = 8 := by
  cases n with
  | zero => rfl
  | succ n =>
    have hnesting : (sumOfOnes (n + 1)).nesting = 5 := by
      induction n with
      | zero => rfl
      | succ n ih =>
        rw [sumOfOnes, nesting, ih]
        rfl
    rw [hnesting]
    rfl

end Node

namespace Printer

def sumText : Nat → String
  | 0 => "1"
  | n + 1 => sumText n ++ " + 1"

/-- On the left of a sum, and on its own, a sum stands without parentheses. -/
theorem prints_enclose_sumOfOnes {n outer : Nat} (ho : outer ≤ 3)
    (h : Prints (exprText (.sumOfOnes n)) (sumText n)) :
    Prints (enclose (.sumOfOnes n) outer false (exprText (.sumOfOnes n))) (sumText n) := by
  have hlevel : 3 ≤ (Node.sumOfOnes n).level := by
    cases n <;> simp [Node.sumOfOnes, Node.level, BinaryOp.level]
  have hprints := h.enclose (level_eq (Node.wellFormed_sumOfOnes n)) outer false
  rwa [needsParens_left, decide_eq_false (Nat.not_lt.mpr (Nat.le_trans ho hlevel))] at hprints

theorem prints_sumOfOnes (n : Nat) : Prints (exprText (.sumOfOnes n)) (sumText n) := by
  have hone : Prints (exprText (.int ⟨1, 1⟩ 1)) "1" := .pure "1"
  induction n with
  | zero => exact hone
  | succ n ih =>
    have hleft := prints_enclose_sumOfOnes (Nat.le_refl 3) ih
    have hright := hone.enclose (n := .int ⟨1, 1⟩ 1) rfl 3 true
    have hsum : sumText n ++ " " ++ "+" ++ " " ++ "1" = sumText (n + 1) := by
      simp only [sumText, String.append_assoc]
      rfl
    rw [Node.sumOfOnes, exprText]
    exact .bind (.lift rfl) (hleft.bind (hright.bind (hsum ▸ .pure _)))

end Printer

namespace Program

def sumOfOnes (n : Nat) : Program := ⟨⟨1, 1⟩, [.sumOfOnes n]⟩

theorem wellFormed_sumOfOnes (n : Nat) : (sumOfOnes n).WellFormed := by
  intro m hm
  rw [List.mem_singleton.mp hm]
  exact Node.wellFormed_sumOfOnes n

theorem nesting_sumOfOnes (n : Nat) : (sumOfOnes n).nesting = 9 := by
  simp [nesting, sumOfOnes, Node.bodyNesting, Node.statementBudget, Node.isExpr_sumOfOnes,
    Node.level_add_nesting_sumOfOnes]

theorem frames_sumOfOnes (n : Nat) : (sumOfOnes n).frames = 2 * n + 3 := by
  simp [frames, sumOfOnes, Node.bodyFrames, Node.stmtFrames_of_isExpr (Node.isExpr_sumOfOnes n),
    Node.exprFrames_sumOfOnes]

theorem printedAs_sumOfOnes (n : Nat) : (sumOfOnes n).PrintedAs (Printer.sumText n ++ "\n") := by
  have htext : Printer.Prints (Printer.render (.sumOfOnes n)) (Printer.sumText n) :=
    Printer.prints_enclose_sumOfOnes (by decide) (Printer.prints_sumOfOnes n)
  have hline : Printer.Prints (Printer.stmtLines 0 (.sumOfOnes n)) [⟨0, Printer.sumText n⟩] := by
    rw [Printer.stmtLines_of_isExpr 0 (Node.isExpr_sumOfOnes n)]
    exact htext.bind (.pure _)
  have hlines : Printer.Prints (Printer.bodyLines 0 [.sumOfOnes n]) [⟨0, Printer.sumText n⟩] := by
    rw [Printer.bodyLines, Printer.bodyLines]
    exact hline.nested.bind (.bind (.pure []) (.pure _))
  have hne : Printer.sumText n ≠ "" := by
    cases n with
    | zero => decide
    | succ n => simp [Printer.sumText]
  refine printedAs_of_prints (hlines.bind ?_)
  simp [Printer.Line.toText, hne]

/-- No stack has room for all sums. -/
theorem print_sumOfOnes (n limit : Nat) : (sumOfOnes n).print (some limit) =
    if 2 * n + 3 ≤ limit then .ok (Printer.sumText n ++ "\n") else .error .tooDeep := by
  have hfits : Printer.Fits (sumOfOnes n).frames (some limit) ↔ 2 * n + 3 ≤ limit := by
    rw [frames_sumOfOnes, Printer.fits_some]
  split
  next h => exact (printedAs_sumOfOnes n).fits _ (hfits.mpr h)
  next h => exact (printedAs_sumOfOnes n).tooDeep _ (mt hfits.mp h)

end Program

/-! ## Running a sum -/

namespace Eval

theorem exec_sumOfOnes (env : Env) {n : Nat} (hn : n < maxInt) (frames : Nat) (m : Machine) :
    exec env (frames + n + 1) (.sumOfOnes n) m =
      .ok () { m with channel := .int (n + 1) :: m.channel } := by
  induction n with
  | zero => rfl
  | succ n ih =>
    rw [maxInt] at hn
    have hsum : inIntRange (n + 1 + 1) = true := by
      rw [inIntRange_iff, minInt, maxInt]
      omega
    have hleft := ih (by rw [maxInt]; omega)
    refine bind_ok_iff.mpr ⟨(), _, hleft, bind_ok_iff.mpr ⟨(), _, rfl, ?_⟩⟩
    refine bind_ok_iff.mpr ⟨_, _, pop_of_cons rfl _ _, ?_⟩
    refine bind_ok_iff.mpr ⟨_, _, pop_of_cons rfl _ _, ?_⟩
    change pushInt (n + 1 + 1) ⟨1, 1⟩ _ = _
    rw [pushInt_apply, if_pos hsum]
    simp

end Eval

namespace Session

theorem runMachine_sumOfOnes {env : Env} (h : Hosted env.maxDepth) {n : Nat}
    (hn : n + 3 ≤ frameLimit env.maxDepth) (m : Machine) :
    (runMachine env (Program.sumOfOnes n).toNode m).1 = .ok (some (.int (n + 1))) := by
  obtain ⟨frames, hframes⟩ := Nat.exists_eq_add_of_le' hn
  have hrange : (n : Int) < maxInt := by
    rw [Hosted, maxFrames] at h
    rw [frameLimit] at hn
    rw [maxInt]
    omega
  have hexec : Eval.exec env (frames + n + 3) (Program.sumOfOnes n).toNode m = _ :=
    (congrFun (Eval.exec_single env (frames + n + 1) ⟨1, 1⟩ (.sumOfOnes n)) m).trans
      (Eval.exec_sumOfOnes env hrange frames m)
  rw [runMachine_of_hosted h, runHosted, hframes, ← Nat.add_assoc, hexec]
  rfl

end Session

end ExScript
