import ExScript.Proofs.Alignment
import ExScript.Proofs.MoreTokens
import ExScript.Proofs.SourceLines

/-!
# Texts one after the other

Two texts that are parsed are also parsed with a line end between them, as the statements of the
first one and behind them those of the second one, further down by the lines of the first
(`parse_append`).  Statements are run one after the other, so that the whole text is run like its two
parts on the same session (`Session.run_followedBy_of_completes`), unless the first part fails or
returns and thereby ends the run (`Session.run_followedBy_of_not_completes`).
-/

namespace ExScript

/-! ## Reading -/

/-- The statements of two programs, those of the second one some lines further down. -/
def Program.followedBy (p : Program) (lines : Nat) (q : Program) : Program :=
  ⟨p.pos, p.body ++ q.body.map (Node.mapPos (Pos.down lines))⟩

namespace Lexer

open ExScript.Parser (Whole Ended)

theorem whole_of_scanLines {line : Nat} {xs : List (List Char)} {ts : List Token} (hne : xs ≠ [])
    (h : scanLines line xs = .ok ts) : Whole ts := by
  induction xs generalizing line ts with
  | nil => exact absurd rfl hne
  | cons cs xs ih =>
    obtain ⟨first, second, hcs, hxs, rfl⟩ := scanLines_cons_ok.mp h
    obtain ⟨before, rfl, hbefore⟩ := scanLine_ends hcs
    have hfirst : ∀ t ∈ before ++ [⟨.ofMark .newline, line, (1 + cs.length : Nat)⟩],
        t.kind ≠ .mark .endOfInput := by
      intro t ht
      rcases List.mem_append.mp ht with ht | ht
      · exact (hbefore t ht).2
      · rw [List.mem_singleton.mp ht]
        intro hk
        cases hk
    by_cases hxs' : xs = []
    · subst hxs'
      cases hxs
      rw [List.append_nil]
      exact ⟨⟨_, List.getLast?_concat, rfl⟩, hfirst⟩
    · have hsecond := ih hxs' hxs
      obtain ⟨t, ht, hn⟩ := hsecond.ended
      refine ⟨⟨t, ?_, hn⟩, fun t ht => (List.mem_append.mp ht).elim (hfirst t) (hsecond.kinds t)⟩
      rw [List.getLast?_append_of_ne_nil _ hsecond.ended.ne_nil]
      exact ht

theorem whole_of_tokenize {source : String} {ts : List Token} (h : tokenize source = .ok ts) :
    Whole ts := by
  rw [tokenize_eq_scanLines] at h
  exact whole_of_scanLines (List.splitOn_ne_nil _ _) h

end Lexer

theorem parse_append {s t : String} {p q : Program} (hp : parse s = .ok p) (hq : parse t = .ok q) :
    parse (s ++ "\n" ++ t) = .ok (p.followedBy (sourceLines s).length q) := by
  obtain ⟨ts, hts, hp⟩ := parse_ok.mp hp
  obtain ⟨us, hus, hq⟩ := parse_ok.mp hq
  obtain ⟨hbody, hpos⟩ := parseTokens_ok.mp hp
  obtain ⟨hbody', -⟩ := parseTokens_ok.mp hq
  have hwhole := Lexer.whole_of_tokenize hts
  refine parse_ok.mpr ⟨_, Lexer.tokenize_append hts hus, parseTokens_ok.mpr ⟨?_, ?_⟩⟩
  · exact Parser.program_append hwhole (Lexer.whole_of_tokenize hus) hbody hbody'
  · rw [List.head?_append_of_ne_nil _ hwhole.ended.ne_nil]
    exact hpos

/-! ## Running -/

/-- A position in the statements. -/
def Node.PosIn (body : List Node) (p : Pos) : Prop := ∃ n ∈ body, ∃ m, Inside n m ∧ m.pos = p

namespace Eval

variable {env : Env} {frames : Nat} {p q : Program} {lines : Nat} {m m₁ : Machine}

/-- Statements are run one after the other. -/
theorem exec_followedBy (env : Env) (frames : Nat) (p q : Program) (lines : Nat) (m : Machine) :
    exec env (frames + 2) (p.followedBy lines q).toNode m =
      EStateM.bind (exec env (frames + 2) p.toNode)
        (fun _ => (q.body.map (Node.mapPos (Pos.down lines))).forM (exec env frames)) m :=
  congrFun List.forM_append m

theorem exec_followedBy_of_ok (h : exec env (frames + 2) p.toNode m = .ok () m₁) :
    exec env (frames + 2) (p.followedBy lines q).toNode m =
      (q.body.map (Node.mapPos (Pos.down lines))).forM (exec env frames) m₁ := by
  rw [exec_followedBy, EStateM.bind, h]

theorem exec_followedBy_of_error {e : Interrupt}
    (h : exec env (frames + 2) p.toNode m = .error e m₁) :
    exec env (frames + 2) (p.followedBy lines q).toNode m = .error e m₁ := by
  rw [exec_followedBy, EStateM.bind, h]

end Eval

namespace Session

/-- How positions correspond if two programs are run as one: what belongs to the second program is
moved down, and everything before it stays. -/
inductive Shift (s : Session) (p q : Program) (lines : Nat) : Pos → Pos → Prop
  | first {pos : Pos} (h : Node.PosIn p.body pos) : Shift s p q lines pos pos
  | declared {pos : Pos} {entry : String × UserFunction}
    (he : entry ∈ s.machine.functions.entries) (h : Node.PosIn entry.2.body pos) :
    Shift s p q lines pos pos
  | second {pos : Pos} (h : Node.PosIn q.body pos) : Shift s p q lines pos (pos.down lines)

inductive ResultsAligned (R : Pos → Pos → Prop) :
    Except Abort (Option Value) → Except Abort (Option Value) → Prop
  | value (v : Option Value) : ResultsAligned R (.ok v) (.ok v)
  | abort {a a' : Abort} (h : (Interrupt.abort a).Aligned R (.abort a')) :
    ResultsAligned R (.error a) (.error a')

/-- Two runs end alike: with the same value or the same failure, and with aligned machines. -/
structure EndsAligned (R : Pos → Pos → Prop) (r r' : Except Abort (Option Value) × Session) :
    Prop where
  result : ResultsAligned R r.1 r'.1
  machine : r.2.machine.Aligned R r'.2.machine

/-- The run reaches the end of the program. -/
def Completes (s : Session) (n : Node) : Prop :=
  Hosted s.env.maxDepth ∧ ∃ m, Eval.exec s.env (frameLimit s.env.maxDepth) n s.machine = .ok () m

variable {R : Pos → Pos → Prop} {s : Session} {p q : Program} {lines : Nat}

theorem runHosted_aligned {env : Env} {n n' : Node} {m m' : Machine}
    (h : Eval.OutcomesAligned R (Eval.exec env (frameLimit env.maxDepth) n m)
      (Eval.exec env (frameLimit env.maxDepth) n' m')) :
    ResultsAligned R (runHosted env n m).1 (runHosted env n' m').1 ∧
      (runHosted env n m).2.Aligned R (runHosted env n' m').2 := by
  rw [runHosted, runHosted]
  cases hn : Eval.exec env (frameLimit env.maxDepth) n m <;>
    cases hn' : Eval.exec env (frameLimit env.maxDepth) n' m' <;> rw [hn, hn'] at h
  case ok.ok a m₁ b m₁' =>
    obtain ⟨-, hm⟩ := h
    refine ⟨?_, hm.logs _ _⟩
    change ResultsAligned R (.ok m₁.channel.head?) (.ok m₁'.channel.head?)
    rw [hm.channel]
    exact .value _
  case error.error e m₁ e' m₁' =>
    obtain ⟨he, hm⟩ := h
    cases he with
    | returned v =>
      refine ⟨.value _, hm.scopes, ?_, hm.depth, hm.streams, hm.functions⟩
      exact congrArg (v :: ·) hm.channel
    | failed cause hp => exact ⟨.abort (.failed cause hp), hm⟩
    | crashed c => exact ⟨.abort (.crashed c), hm⟩
    | outOfRounds => exact ⟨.abort .outOfRounds, hm⟩
  all_goals cases h

/-! ### Positions that stay and positions that move -/

theorem aligned_of_posIn {f : Pos → Pos} {body : List Node}
    (h : ∀ pos, Node.PosIn body pos → R pos (f pos)) :
    List.Forall₂ (Node.Aligned R) body (body.map (Node.mapPos f)) :=
  List.forall₂_map_right_iff.mpr <| List.forall₂_same.mpr fun n hn =>
    Node.aligned_mapPos fun m hm => h m.pos ⟨n, hn, m, hm, rfl⟩

theorem aligned_self_of_posIn {body : List Node} (h : ∀ pos, Node.PosIn body pos → R pos pos) :
    List.Forall₂ (Node.Aligned R) body body := by
  have hid := aligned_of_posIn (f := id) h
  rwa [← Node.mapPosAll_eq_map, Node.mapPosAll_id] at hid

theorem machine_aligned_shift (s : Session) (p q : Program) (lines : Nat) :
    s.machine.Aligned (s.Shift p q lines) s.machine :=
  ⟨rfl, rfl, rfl, rfl, List.forall₂_same.mpr fun _ he =>
    ⟨rfl, rfl, rfl, aligned_self_of_posIn fun _ h => .declared he h⟩⟩

/-- Forgets the last record of the log. -/
def dropRecord (s : Session) : Session :=
  { s with machine := { s.machine with log := s.machine.log.tail } }

theorem run_of_completes (hhost : Hosted s.env.maxDepth) {m₁ : Machine}
    (hm₁ : Eval.exec s.env (frameLimit s.env.maxDepth) p.toNode s.machine = .ok () m₁) :
    (s.run p.toNode).2 = { s with machine := (finish m₁).2 } := by
  rw [run_of_hosted hhost, runHosted, hm₁]

/-- Behind the first program, the second one is run where it stands in the joined text.  That the
first one has ended is not recorded. -/
theorem run_followedBy_of_completes (h : s.Completes p.toNode) :
    s.run (p.followedBy lines q).toNode =
      (s.run p.toNode).2.dropRecord.run (q.toNode.mapPos (Pos.down lines)) := by
  obtain ⟨hhost, m₁, hm₁⟩ := h
  obtain ⟨frames, hframes⟩ := frameLimit_eq_add s.env.maxDepth 2 (by decide)
  have hmachine : (s.run p.toNode).2.dropRecord = { s with machine := m₁ } :=
    congrArg dropRecord (run_of_completes hhost hm₁)
  have hexec : Eval.exec s.env (frameLimit s.env.maxDepth) (p.followedBy lines q).toNode s.machine =
      Eval.exec s.env (frameLimit s.env.maxDepth) (q.toNode.mapPos (Pos.down lines)) m₁ := by
    rw [hframes] at hm₁ ⊢
    rw [Eval.exec_followedBy_of_ok hm₁, Program.toNode, Node.mapPos, Node.mapPosAll_eq_map]
    rfl
  rw [hmachine, run_of_hosted hhost, run_of_hosted (s := { s with machine := m₁ }) hhost]
  simp only [runHosted, hexec]

/-- Moved down or not, the second program is run alike behind the first one. -/
theorem runs_aligned_of_completes (h : s.Completes p.toNode) :
    EndsAligned (s.Shift p q lines) ((s.run p.toNode).2.run q.toNode)
      (s.run (p.followedBy lines q).toNode) := by
  obtain ⟨hhost, m₁, hm₁⟩ := h
  obtain ⟨frames, hframes⟩ := frameLimit_eq_add s.env.maxDepth 2 (by decide)
  have hfirst := run_of_completes hhost hm₁
  rw [hframes] at hm₁
  have hself : m₁.Aligned (s.Shift p q lines) m₁ := by
    have hp := Eval.statements_aligned s.env frames
      (aligned_self_of_posIn fun _ h => .first h) (machine_aligned_shift s p q lines)
    change p.body.forM (Eval.exec s.env frames) s.machine = _ at hm₁
    rw [hm₁] at hp
    exact hp.2
  have hends : Eval.OutcomesAligned (s.Shift p q lines)
      (Eval.exec s.env (frameLimit s.env.maxDepth) q.toNode (finish m₁).2)
      (Eval.exec s.env (frameLimit s.env.maxDepth) (p.followedBy lines q).toNode s.machine) := by
    rw [hframes, Eval.exec_followedBy_of_ok hm₁]
    exact Eval.statements_aligned s.env frames (aligned_of_posIn fun _ h => .second h)
      (hself.logs _ m₁.log)
  obtain ⟨hresult, haligned⟩ := runHosted_aligned hends
  rw [hfirst, run_of_hosted (s := { s with machine := (finish m₁).2 }) hhost, run_of_hosted hhost]
  exact ⟨hresult, haligned⟩

/-- If the first program does not complete, nothing of the second one is run. -/
theorem run_followedBy_of_not_completes (h : ¬ s.Completes p.toNode) :
    s.run (p.followedBy lines q).toNode = s.run p.toNode := by
  obtain ⟨frames, hframes⟩ := frameLimit_eq_add s.env.maxDepth 2 (by decide)
  by_cases hhost : Hosted s.env.maxDepth
  · rw [run_of_hosted hhost, run_of_hosted hhost, runHosted, runHosted]
    cases hp : Eval.exec s.env (frameLimit s.env.maxDepth) p.toNode s.machine with
    | ok a m => exact absurd ⟨hhost, m, hp⟩ h
    | error e m =>
      rw [hframes] at hp ⊢
      rw [Eval.exec_followedBy_of_error hp]
  · rw [run, run, runMachine_of_not_hosted hhost, runMachine_of_not_hosted hhost]

end Session

/-- Two texts that are parsed are parsed as one with a line end between them: the statements of the
second one come behind those of the first one, further down by its lines.  On any session, the whole
text is run like the first one and then the second one, moved down, and nothing but the record of the
first end is missing from the log.  Where the second one stands does not matter to it: not moved down
it has the same result, output, scopes, functions and channel, up to the positions.  If the first
text fails or returns, the run ends as it does without the second one. -/
theorem run_joined_texts {s t : String} {p q : Program} (hp : parse s = .ok p)
    (hq : parse t = .ok q) :
    let lines := (sourceLines s).length
    let joined := p.followedBy lines q
    parse (s ++ "\n" ++ t) = .ok joined ∧ ∀ session : Session,
      (session.Completes p.toNode →
        session.run joined.toNode =
            (session.run p.toNode).2.dropRecord.run (q.toNode.mapPos (Pos.down lines)) ∧
          Session.EndsAligned (session.Shift p q lines)
            ((session.run p.toNode).2.run q.toNode) (session.run joined.toNode)) ∧
      (¬ session.Completes p.toNode → session.run joined.toNode = session.run p.toNode) :=
  ⟨parse_append hp hq, fun _ =>
    ⟨fun h => ⟨Session.run_followedBy_of_completes h, Session.runs_aligned_of_completes h⟩,
      Session.run_followedBy_of_not_completes⟩⟩

/-- The second text begins like the rest of an expression, and a function of the first one is
called from it. -/
theorem run_joined_texts_sign :
    let session := Session.create (.standard 8) default
    ∃ p q, parse "fn f(a) \x7b return a \x7d\nx = f(2)" = .ok p ∧ parse "- f(x)" = .ok q ∧
      session.Completes p.toNode ∧
      parse ("fn f(a) \x7b return a \x7d\nx = f(2)" ++ "\n" ++ "- f(x)")
        = .ok (p.followedBy 2 q) ∧
      session.run (p.followedBy 2 q).toNode =
        (session.run p.toNode).2.dropRecord.run (q.toNode.mapPos (Pos.down 2)) ∧
      Session.EndsAligned (session.Shift p q 2) ((session.run p.toNode).2.run q.toNode)
        (session.run (p.followedBy 2 q).toNode) := by
  intro session
  let completes (p : Program) : Bool :=
    match Eval.exec session.env (Session.frameLimit 8) p.toNode session.machine with
    | .ok .. => true
    | .error .. => false
  have hfirst : (parse "fn f(a) \x7b return a \x7d\nx = f(2)").toOption.any completes = true := by
    decide +kernel
  have hsecond : (parse "- f(x)").toOption.any (fun _ => true) = true := by decide +kernel
  obtain ⟨p, hp, hrun⟩ := parsed_of_any hfirst
  obtain ⟨q, hq, _⟩ := parsed_of_any hsecond
  have hlines : (sourceLines "fn f(a) \x7b return a \x7d\nx = f(2)").length = 2 := by decide
  have hcompletes : session.Completes p.toNode := by
    simp only [completes] at hrun
    split at hrun
    · exact ⟨by decide, _, by assumption⟩
    · cases hrun
  obtain ⟨hparse, hends⟩ := run_joined_texts hp hq
  rw [hlines] at hparse hends
  exact ⟨p, q, hp, hq, hcompletes, hparse, (hends session).1 hcompletes⟩

end ExScript
