import ExScript.Proofs.DoubleRange
import ExScript.Proofs.RoundTrip
import ExScript.Proofs.StandardLimits

/-!
# What may leave a run

Whatever the text, a run with the standard library ends with a value or none, with an error of the
text or of the language, or with the crash of the host on a text that it is asked to convert
(`runSource_ends`).  All other crashes are out of the question.  Parsed trees have no nodes of
unknown sorts; the methods are found by the kind of their receiver; a call leaves a scope that it
has entered; and the integers of a run, counters of loops included, do not get past the largest
double, since they are in range or cut from a double, or lie between such.
-/

namespace ExScript

open Eval

/-- The crashes of the host on the conversion of a text. -/
inductive Crash.OfConversion : Crash → Prop
  | tooManyDigits (count : Nat) : OfConversion (.tooManyDigits count)
  | unreadableFloat (quoted : String) : OfConversion (.unreadableFloat quoted)

/-- During the run, a text is to be converted on which the host crashes. -/
def Unconverted (env : Env) (program : Node) (m : Machine) (c : Crash) : Prop :=
  ∃ k f method text pos m₁, During env (Session.frameLimit env.maxDepth) (.node program) m k
    (.operation f method (.string text) [] pos) m₁ ∧ Library.Unconvertible method text c

/-- During the run, a text is measured that has more characters than the largest double.  No host
holds such a text. -/
def Immeasurable (env : Env) (program : Node) (m : Machine) : Prop :=
  ∃ k f text pos m₁, During env (Session.frameLimit env.maxDepth) (.node program) m k
    (.operation f "len" (.string text) [] pos) m₁ ∧ Number.largestDouble < text.length

/-- How the run of a text may end. -/
inductive RunEnds (env : Env) (streams : Streams) (text : String) :
    Except RunFailure (Option Value) → Prop
  | value (result : Option Value) : RunEnds env streams text (.ok result)
  | source (e : SourceError) : RunEnds env streams text (.error (.source e))
  | failed (e : RunError) : RunEnds env streams text (.error (.abort (.failed e)))
  /-- A loop is given up, which otherwise might not end. -/
  | outOfRounds : RunEnds env streams text (.error (.abort .outOfRounds))
  /-- The host crashes inside the conversion of a text to a number. -/
  | conversion {p : Program} {c : Crash} (hp : parse text = .ok p) (hc : c.OfConversion)
    (h : Unconverted env p.toNode (Machine.initial streams) c) :
    RunEnds env streams text (.error (.abort (.crashed c)))
  /-- The length of a text is used as a double that is larger than all of them. -/
  | overlong {p : Program} (hp : parse text = .ok p)
    (h : Immeasurable env p.toNode (Machine.initial streams)) :
    RunEnds env streams text (.error (.abort (.crashed .floatOverflow)))
  /-- The limit on calls asks for more frames than the host can give. -/
  | tooManyFrames (h : ¬ Session.Hosted env.maxDepth) :
    RunEnds env streams text (.error (.abort (.crashed .tooManyFrames)))

theorem Library.Unconvertible.ofConversion {method text : String} {c : Crash}
    (h : Library.Unconvertible method text c) : c.OfConversion := by
  rcases h with ⟨_, h⟩ | ⟨_, h⟩
  · rcases Library.readInt_cases text with ⟨e, he⟩ | ⟨count, he⟩ | ⟨n, _, he⟩
    all_goals cases he.symm.trans h
    exact .tooManyDigits count
  · rcases Library.readFloat_cases text with ⟨e, he⟩ | ⟨quoted, he⟩ | ⟨x, he⟩
    all_goals cases he.symm.trans h
    exact .unreadableFloat quoted

/-! ## Limits -/

theorem natAbs_le_largestDouble {n : Int} (h : inIntRange n = true) :
    n.natAbs ≤ Number.largestDouble := by
  have hlarge : 9223372036854775808 ≤ Number.largestDouble := by decide +kernel
  have hrange := inIntRange_iff.mp h
  simp only [minInt, maxInt] at hrange
  omega

/-- Integers up to the largest double. -/
def doubleLimits (Allowed : Crash → Prop) : Limits where
  Fit n := n.natAbs ≤ Number.largestDouble
  Allowed := Allowed
  fit_of_inIntRange := natAbs_le_largestDouble
  nearest h := .inl (Number.isFinite_ofInt h)

/-- All integers.  Then some have no double. -/
def noLimits (Allowed : Crash → Prop) : Limits where
  Fit _ := True
  Allowed c := Allowed c ∨ c = .floatOverflow
  fit_of_inIntRange _ := trivial
  nearest _ := .inr (.inr rfl)

theorem doubleLimits_bound {Allowed : Crash → Prop} {n : Int} (h : (doubleLimits Allowed).Bound n) :
    n.natAbs ≤ Number.largestDouble := by
  rcases h with h | ⟨x, hx, rfl⟩
  · exact h
  · exact Number.natAbs_truncate_le hx

variable {env : Env} {streams : Streams} {text : String} {p : Program}

/-- A crash that leaves a run comes from a text.  As long as all lengths stay below the largest
double, no integer of the run gets past it, since counters lie between their bounds. -/
theorem crash_of_runMachine (henv : env.library = Library.standard) (hp : parse text = .ok p)
    {c : Crash} (hc : (Session.runMachine env p.toNode (Machine.initial streams)).1
      = .error (.crashed c)) :
    Unconverted env p.toNode (Machine.initial streams) c ∨
      c = .floatOverflow ∧ Immeasurable env p.toNode (Machine.initial streams) ∨
        c = .tooManyFrames ∧ ¬ Session.Hosted env.maxDepth := by
  have hknown := (Program.WellFormed.of_parse hp).1.known
  have hm (L : Limits) := Machine.fits_initial L streams
  by_cases himm : Immeasurable env p.toNode (Machine.initial streams)
  · have hall : Throughout (noLimits (Unconverted env p.toNode (Machine.initial streams))) env
        (Session.frameLimit env.maxDepth) (.node p.toNode) (Machine.initial streams) :=
      throughout_standard henv (fun _ _ _ _ _ _ _ _ _ _ _ => trivial)
        (fun _ _ _ _ _ _ => trivial)
        fun _ _ _ _ _ _ _ hd hu => .inl ⟨_, _, _, _, _, _, hd, hu⟩
    have hrun := task_confined (t := .node p.toNode) hknown (hm _) hall
    rcases (Contained.runMachine (hm _) hrun).2.1 c hc with (h | h) | h
    · exact .inl h
    · exact .inr (.inl ⟨h, himm⟩)
    · exact .inr (.inr h)
  · have hall : Throughout (doubleLimits (Unconverted env p.toNode (Machine.initial streams))) env
        (Session.frameLimit env.maxDepth) (.node p.toNode) (Machine.initial streams) := by
      refine throughout_standard henv ?_ ?_ ?_
      · intro k u m₁ first last rounds m₂ _ hcount hfirst hlast
        have hf := doubleLimits_bound hfirst
        have hl := doubleLimits_bound hlast
        have hbetween := hcount.between
        change (first + rounds).natAbs ≤ Number.largestDouble
        omega
      · intro k f text pos m₁ hd
        by_contra hlt
        exact himm ⟨_, _, _, _, _, hd, Nat.lt_of_not_le hlt⟩
      · exact fun _ _ _ _ _ _ _ hd hu => ⟨_, _, _, _, _, _, hd, hu⟩
    have hrun := task_confined (t := .node p.toNode) hknown (hm _) hall
    rcases (Contained.runMachine (hm _) hrun).2.1 c hc with h | h
    · exact .inl h
    · exact .inr (.inr h)

/-- Every run of a text with the standard library ends in one of these ways. -/
theorem runSource_ends (source : String) (streams : Streams) (maxDepth : Int) (rounds : Nat) :
    let env : Env := ⟨Library.standard, maxDepth, rounds⟩
    RunEnds env streams source (runSource env streams source).1 := by
  intro env
  rw [runSource, Session.runSource]
  cases hp : parse source with
  | error e => exact .source e
  | ok p =>
    change RunEnds env streams source
      ((Session.runMachine env p.toNode (Machine.initial streams)).1.mapError .abort)
    cases hr : (Session.runMachine env p.toNode (Machine.initial streams)).1 with
    | ok result => exact .value result
    | error a =>
      cases a with
      | failed e => exact .failed e
      | outOfRounds => exact .outOfRounds
      | crashed c =>
        rcases crash_of_runMachine rfl hp hr with h | ⟨rfl, h⟩ | ⟨rfl, h⟩
        · obtain ⟨_, _, _, _, _, _, _, hu⟩ := id h
          exact .conversion hp hu.ofConversion h
        · exact .overlong hp h
        · exact .tooManyFrames h

end ExScript
