import ExScript.Proofs.RoundTrip
import ExScript.Proofs.StandardLimits
import ExScript.Session

/-!
# The range of integers in a run

Integers are to lie between `minInt` and `maxInt` wherever they show: on the channel, in the scopes,
among the arguments and results of the library and as the result of a run (`IntegersInRange`).  All
operators and methods check this but for two places.  The bounds of a loop, and with them its
counter, are taken as they are, and the length of a text is not looked at.  A run keeps to the range
if and only if the counters of its loops and the lengths that it measures do
(`integersInRange_iff`).
-/

namespace ExScript

open Eval

/-- A 64-bit integer. -/
def InRange (n : Int) : Prop := minInt ≤ n ∧ n ≤ maxInt

/-- The integers that a callable of the library is given and gives are in range. -/
def Eval.Task.InRange (m : Machine) : Task → Prop
  | function f _ given _ => (∀ v ∈ given, v.Meets ExScript.InRange) ∧
    ∀ v s, f given m.streams = .ok (some v) s → v.Meets ExScript.InRange
  | operation f _ this given _ => this.Meets ExScript.InRange ∧
    (∀ v ∈ given, v.Meets ExScript.InRange) ∧
      ∀ v, f this given = .ok (some v) → v.Meets ExScript.InRange
  | _ => True

/-- At every moment of a run, all integers are in range. -/
structure IntegersInRange (env : Env) (program : Node) (m : Machine) : Prop where
  throughout : ∀ k t m₁,
    During env (Session.frameLimit env.maxDepth) (.node program) m k t m₁ →
      m₁.Meets InRange ∧ t.InRange m₁ ∧ (t.ending env k m₁).Meets InRange
  result : ∀ v, (Session.runMachine env program m).1 = .ok (some v) → v.Meets InRange
  final : (Session.runMachine env program m).2.Meets InRange

/-- However far a loop has counted, its counter is in range. -/
def CountersInRange (env : Env) (program : Node) (m : Machine) : Prop :=
  ∀ k t m₁ first last rounds m₂,
    During env (Session.frameLimit env.maxDepth) (.node program) m (k + 1) t m₁ →
      Counts env k t m₁ first last rounds m₂ → InRange (first + rounds)

/-- The length of every text whose length is asked for is in range. -/
def LengthsInRange (env : Env) (program : Node) (m : Machine) : Prop :=
  ∀ k f text pos m₁, During env (Session.frameLimit env.maxDepth) (.node program) m k
    (.operation f "len" (.string text) [] pos) m₁ → InRange text.length

/-- The range as a limit.  Crashes do not matter here. -/
def rangeLimits : Limits where
  Fit := InRange
  Allowed _ := True
  fit_of_inIntRange := inIntRange_iff.mp
  nearest _ := .inr trivial

variable {env : Env} {program : Node} {m : Machine}

theorem Eval.Task.Fits.inRange {t : Task} (h : t.Fits rangeLimits) (m : Machine) :
    t.InRange m := by
  cases t with
  | function f name given pos =>
    refine ⟨h.1, fun v s hr => ?_⟩
    have hy := h.2 m.streams
    rw [hr] at hy
    exact hy v rfl
  | operation f method this given pos =>
    refine ⟨h.1, h.2.1, fun v hr => ?_⟩
    have hy := h.2.2
    rw [hr] at hy
    exact hy v rfl
  | _ => trivial

/-! ## Counters and lengths show -/

/-- Wherever a loop has counted to, its counter is bound in the current scope. -/
theorem Eval.find?_of_loopRounds {frames : Nat} {name : String} {body : List Node} {first : Int}
    {rounds : Nat} {m m' : Machine}
    (h : loopRounds env frames name body first rounds m = .ok () m') :
    m'.scopes.current.find? name = some (.int (first + rounds)) := by
  cases rounds with
  | zero =>
    cases h
    rw [Int.natCast_zero, Int.add_zero]
    exact (Table.find?_insert _ _ _ _).trans (if_pos rfl)
  | succ rounds =>
    rw [loopRounds_succ] at h
    obtain ⟨_, m₁, _, h⟩ := bind_ok_iff.mp h
    obtain ⟨_, m₂, _, h⟩ := bind_ok_iff.mp h
    cases h
    exact (Table.find?_insert _ _ _ _).trans (if_pos rfl)

theorem IntegersInRange.counters (h : IntegersInRange env program m) :
    CountersInRange env program m := by
  rintro k t m₁ first last rounds m₂ hd hc
  cases hc with
  | @intro pos name low high body first last rounds _ m₃ _ hb hr hl =>
    have hm₂ : m₂.Meets InRange := by
      rcases Nat.lt_or_eq_of_le hr with hlt | rfl
      · exact (h.throughout _ _ _ (hd.started (.round hb hlt hl))).1
      · have hend : (Task.loop pos name low high body).ending env (k + 1) m₁ = m₂ := by
          rw [Task.ending, execFor_succ, bind_ok_iff.mpr ⟨_, _, hb, hl⟩]
          rfl
        exact hend ▸ (h.throughout _ _ _ hd).2.2
    exact hm₂.scopes _ List.mem_cons_self _ _ (find?_of_loopRounds hl)

theorem IntegersInRange.lengths (henv : env.library = Library.standard)
    (h : IntegersInRange env program m) : LengthsInRange env program m := by
  rintro k f text pos m₁ hd
  have hgiven := (h.throughout _ _ _ hd).2.1
  cases hd with
  | started _ hs =>
    cases hs with
    | operation ht hf _ =>
      rw [henv] at ht
      cases (show some Library.stringTable = some _ from ht)
      cases (show some Library.stringLength = some f from hf)
      exact hgiven.2.2 _ rfl

/-! ## Runs -/

/-- In a run of a parsed program from the start, with the standard library, all integers are in
range at every moment if and only if the counters of the loops are and the lengths of the texts that
are measured. -/
theorem integersInRange_iff {source : String} {p : Program} (hp : parse source = .ok p)
    (maxDepth : Int) (rounds : Nat) (streams : Streams) :
    let env : Env := ⟨Library.standard, maxDepth, rounds⟩
    let m := Machine.initial streams
    IntegersInRange env p.toNode m ↔
      CountersInRange env p.toNode m ∧ LengthsInRange env p.toNode m := by
  intro env m
  refine ⟨fun h => ⟨h.counters, h.lengths rfl⟩, fun ⟨hcounters, hlengths⟩ => ?_⟩
  have hnode : (Task.node p.toNode).Fits rangeLimits := (Program.WellFormed.of_parse hp).1.known
  have hm : m.Fits rangeLimits := Machine.fits_initial _ streams
  have hall : Throughout rangeLimits env (Session.frameLimit env.maxDepth) (.node p.toNode) m :=
    throughout_standard rfl (fun _ _ _ _ _ _ _ hd hc _ _ => hcounters _ _ _ _ _ _ _ hd hc)
      hlengths fun _ _ _ _ _ _ _ _ _ => trivial
  obtain ⟨hresult, _, hfinal⟩ := Contained.runMachine hm (task_confined hnode hm hall)
  constructor
  case throughout =>
    intro k t m₁ hd
    obtain ⟨ht, hm₁⟩ := during_fits hnode hm hall hd
    have hend := (task_confined ht hm₁ (hall.later hd)).ending
    exact ⟨hm₁.toMeets, ht.inRange m₁, hend.toMeets⟩
  case result => exact hresult
  case final => exact hfinal.toMeets

/-- A loop without rounds whose counter starts from a double beyond the range. -/
def beyondRange : String := "for i in [9223372036854775808.0, 0] \x7b\n\x7d\ni"

theorem runMachine_beyondRange : ∃ p, parse beyondRange = .ok p ∧
    (Session.runMachine (Env.standard 256) p.toNode (Machine.initial ⟨[], ""⟩)).1
      = .ok (some (.int 9223372036854775808)) := by
  have htest : ((parse beyondRange).toOption.any fun p =>
      decide ((Session.runMachine (Env.standard 256) p.toNode (Machine.initial ⟨[], ""⟩)).1
        = .ok (some (.int 9223372036854775808)))) = true := by decide +kernel
  obtain ⟨p, hp, hresult⟩ := parsed_of_any htest
  exact ⟨p, hp, of_decide_eq_true hresult⟩

/-- The counter of this loop is the reason. -/
theorem integersInRange_iff_loop :
    let m := Machine.initial ⟨[], ""⟩
    ∃ p, parse beyondRange = .ok p ∧
      ¬ (CountersInRange (Env.standard 256) p.toNode m ∧
        LengthsInRange (Env.standard 256) p.toNode m) := by
  obtain ⟨p, hp, hresult⟩ := runMachine_beyondRange
  refine ⟨p, hp, fun h => ?_⟩
  have hrange := ((integersInRange_iff hp 256 Env.manyRounds ⟨[], ""⟩).mpr h).result _ hresult
  exact absurd hrange.2 (by decide)

/-- The run ends with an integer that has none of 64 bits. -/
theorem result_beyond_range :
    ∃ p, parse "for i in [9223372036854775808.0, 0] \x7b\n\x7d\ni" = .ok p ∧
      (Session.runMachine (Env.standard 256) p.toNode (Machine.initial ⟨[], ""⟩)).1
        = .ok (some (.int 9223372036854775808)) ∧
      ¬ IntegersInRange (Env.standard 256) p.toNode (Machine.initial ⟨[], ""⟩) := by
  obtain ⟨p, hp, hresult⟩ := runMachine_beyondRange
  exact ⟨p, hp, hresult, fun h => absurd (h.result _ hresult).2 (by decide)⟩

end ExScript
