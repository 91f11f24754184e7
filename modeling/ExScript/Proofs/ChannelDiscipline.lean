import ExScript.Proofs.ChannelHeight
import ExScript.Proofs.RoundTrip
import ExScript.Session

/-!
# Values taken and values left

A node that finds its values among those that its own parts leave takes nothing that was on the
channel before, and an expression, a loop or a declaration then leaves as much as it should
(`Disciplined`).  This fails exactly when the same node would fail for want of a value on an empty
channel (`disciplined_iff`): a step takes what lies topmost, and does not ask who left it there.
-/

namespace ExScript

open Eval

namespace Machine

/-- The same machine with other values on the channel. -/
def on (m : Machine) (c : List Value) : Machine := { m with channel := c }

theorem over_on_nil (m : Machine) (c : List Value) : (m.on []).over c = m.on c := rfl

end Machine

/-- With an empty channel the node fails for want of a value. -/
def Starves (env : Env) (frames : Nat) (n : Node) (m : Machine) : Prop :=
  ∃ e m', exec env frames n (m.on []) = .error e m' ∧ Starved e

/-- The values of an outcome are put over others. -/
def Eval.liftOutcome {α : Type} (c : List Value) : Outcome α → Outcome α
  | .ok a m => .ok a (m.over c)
  | .error e m => .error e (m.over c)

structure Disciplined (env : Env) (frames : Nat) (n : Node) (m : Machine) (c : List Value) :
    Prop where
  /-- Everything happens as on an empty channel, over the values that wait there. -/
  untouched : exec env frames n (m.on c) = liftOutcome c (exec env frames n (m.on []))
  /-- What is left is put over them, and is no more than it may be. -/
  left : ∀ m', exec env frames n (m.on c) = .ok () m' →
    ∃ w, m'.channel = w ++ c ∧ (n.isExpr = true → w.length ≤ 1) ∧ (Silent n → w = [])

theorem Eval.liftOutcome_nil {α : Type} (r : Outcome α) : liftOutcome [] r = r := by
  have hm (m : Machine) : m.over [] = m := by rw [Machine.over, List.append_nil]
  cases r with
  | ok a m => rw [liftOutcome, hm]
  | error e m => rw [liftOutcome, hm]

def Eval.completes {α : Type} : Outcome α → Bool
  | .ok _ _ => true
  | .error _ _ => false

theorem Eval.completes_iff {r : Outcome Unit} : completes r = true ↔ ∃ m, r = .ok () m := by
  cases r with
  | ok a m => exact ⟨fun _ => ⟨m, rfl⟩, fun _ => rfl⟩
  | error e m => exact ⟨nofun, nofun⟩

theorem exec_untouched {env : Env} {frames : Nat} {n : Node} {m : Machine} (c : List Value)
    (h : ¬ Starves env frames n m) :
    exec env frames n (m.on c) = liftOutcome c (exec env frames n (m.on [])) := by
  have hl := (liftsAt env c frames).exec n (m.on [])
  rw [Machine.over_on_nil] at hl
  generalize hr : exec env frames n (m.on []) = r at hl
  generalize exec env frames n (m.on c) = r' at hl
  cases hl with
  | ok ho => rfl
  | error ho hs => rfl
  | starved ho hs he => exact absurd ⟨_, _, hr, hs⟩ h

/-- What a node of a parsed program leaves on an empty channel. -/
theorem left_of_inside {source : String} {p : Program} {n : Node} {env : Env} {frames : Nat}
    {m m' : Machine} (hp : parse source = .ok p) (hn : Node.Inside p.toNode n)
    (h : exec env frames n (m.on []) = .ok () m') :
    (n.isExpr = true → m'.channel.length ≤ 1) ∧ (Silent n → m'.channel = []) := by
  rcases (Program.WellFormed.of_parse hp).1.of_inside hn with rfl | hw
  · exact ⟨nofun, nofun⟩
  · constructor
    · intro hx
      have hg := (growsAt env frames).expr n hw hx _ _ _ h
      simp only [Machine.on, List.length_nil] at hg
      omega
    · intro hs
      have hg := grows_silent hw hs _ _ _ h
      simp only [Machine.on, List.length_nil] at hg
      exact List.eq_nil_of_length_eq_zero (by omega)

/-- A run that fails for want of a value has emptied the channel. -/
theorem channel_of_starved {n : Node} {env : Env} {frames : Nat} {m m' : Machine} {e : Interrupt}
    (h : exec env frames n m = .error e m') (hs : Starved e) : m'.channel = [] := by
  have hl := (liftsAt env [] frames).exec n m
  rw [h] at hl
  generalize exec env frames n (m.over []) = r at hl
  cases hl with
  | error ho hn => exact absurd hs hn
  | starved ho hs he => exact he

/-- Over a channel that is not empty, a node that would starve takes what it should not. -/
theorem touched_of_starves {n : Node} {env : Env} {frames : Nat} {m : Machine} {c : List Value}
    (hc : c ≠ []) (h : Starves env frames n m) :
    exec env frames n (m.on c) ≠ liftOutcome c (exec env frames n (m.on [])) := by
  obtain ⟨e, m', hr, hs⟩ := h
  intro he
  rw [hr] at he
  -- the run over `c` would fail with `c` still there, but whoever starves has taken everything
  have hempty : m'.channel ++ c = [] := channel_of_starved he hs
  exact hc (List.append_eq_nil_iff.mp hempty).2

/-- A node of a parsed program keeps its hands off what was on the channel before, and leaves what
it should, if and only if it does not starve; on an empty channel there is nothing to take. -/
theorem disciplined_iff {source : String} {p : Program} {n : Node} (hp : parse source = .ok p)
    (hn : Node.Inside p.toNode n) (env : Env) (frames : Nat) (m : Machine) (c : List Value) :
    Disciplined env frames n m c ↔ c = [] ∨ ¬ Starves env frames n m := by
  constructor
  · intro h
    rcases Classical.em (c = []) with hc | hc
    · exact .inl hc
    · exact .inr fun hs => touched_of_starves hc hs h.untouched
  · intro h
    have hu : exec env frames n (m.on c) = liftOutcome c (exec env frames n (m.on [])) := by
      rcases h with rfl | h
      · exact (liftOutcome_nil _).symm
      · exact exec_untouched c h
    refine ⟨hu, fun m' hm => ?_⟩
    rw [hu] at hm
    cases hr : exec env frames n (m.on []) with
    | error e m₁ =>
      rw [hr] at hm
      cases hm
    | ok a m₁ =>
      rw [hr] at hm
      cases hm
      exact ⟨m₁.channel, rfl, left_of_inside hp hn hr⟩

theorem disciplined_sum :
    ∃ p n, parse "1 + 2" = .ok p ∧ Node.Inside p.toNode n ∧ n.isExpr = true ∧
      Disciplined (Env.standard 256) (Session.frameLimit 256) n (Machine.initial ⟨[], ""⟩)
        [.int 5] := by
  have htest : ((parse "1 + 2").toOption.any fun p => p.body.any fun n => n.isExpr &&
      completes (exec (Env.standard 256) (Session.frameLimit 256) n (Machine.initial ⟨[], ""⟩)))
        = true := by decide +kernel
  obtain ⟨p, hparse, htest⟩ := parsed_of_any htest
  obtain ⟨n, hn, htest⟩ := List.any_eq_true.mp htest
  obtain ⟨hx, hc⟩ := Bool.and_eq_true_iff.mp htest
  obtain ⟨m', hm⟩ := completes_iff.mp hc
  have hs : ¬ Starves (Env.standard 256) (Session.frameLimit 256) n (Machine.initial ⟨[], ""⟩) := by
    rintro ⟨e, m₁, h, _⟩
    have heq := hm.symm.trans h
    cases heq
  have hin : Node.Inside p.toNode n := .child .root hn
  exact ⟨p, n, hparse, hin, hx, (disciplined_iff hparse hin _ _ _ _).mpr (.inr hs)⟩

/-- A function that returns nothing, declared by one run that also leaves a number behind, and a
later run that negates what the function does not return. -/
theorem exec_negates_earlier_value :
    ∃ p q n m m', parse "fn f() \x7b\n\x7d\n5" = .ok p ∧ parse "-f()" = .ok q ∧
      Node.Inside q.toNode n ∧ n.isExpr = true ∧
      m = (Session.runMachine (Env.standard 256) p.toNode (Machine.initial ⟨[], ""⟩)).2 ∧
      exec (Env.standard 256) (Session.frameLimit 256) n m = .ok () m' ∧
      ¬ ∃ w, m'.channel = w ++ m.channel := by
  let after (p : Program) : Machine :=
    (Session.runMachine (Env.standard 256) p.toNode (Machine.initial ⟨[], ""⟩)).2
  let negated (p : Program) (n : Node) : Outcome Unit :=
    exec (Env.standard 256) (Session.frameLimit 256) n (after p)
  have htest : ((parse "fn f() \x7b\n\x7d\n5").toOption.any fun p =>
      (parse "-f()").toOption.any fun q => q.body.any fun n =>
        n.isExpr && (completes (negated p n) &&
          decide ((reached (negated p n)).channel = [.int (-5)] ∧ (after p).channel = [.int 5])))
            = true := by decide +kernel
  obtain ⟨p, hp, htest⟩ := parsed_of_any htest
  obtain ⟨q, hq, htest⟩ := parsed_of_any htest
  obtain ⟨n, hn, htest⟩ := List.any_eq_true.mp htest
  obtain ⟨hx, htest⟩ := Bool.and_eq_true_iff.mp htest
  obtain ⟨hc, hch⟩ := Bool.and_eq_true_iff.mp htest
  obtain ⟨m', hm⟩ := completes_iff.mp hc
  obtain ⟨hafter, hbefore⟩ := of_decide_eq_true hch
  rw [hm] at hafter
  refine ⟨p, q, n, after p, m', hp, hq, .child .root hn, hx, rfl, hm, ?_⟩
  rintro ⟨w, hw⟩
  rw [hbefore, show m'.channel = _ from hafter] at hw
  cases w with
  | nil => cases hw
  | cons v w => simp at hw

end ExScript
