import ExScript.Proofs.Limits
import Mathlib.Data.List.Induction

/-!
# Staying within limits throughout

Whether an evaluation stays within given limits is decided by two things only: the counters of its
loops, and what the library makes of the values that it is given (`Orderly`).  If these are within
the limits at every moment, then at every moment the machine fits (`during_fits`), and every task
ends within the limits (`task_contained`).
-/

namespace ExScript.Eval

variable {L : Limits} {env : Env} {frames : Nat} {t u : Task} {m m' m₁ m₂ : Machine}

theorem During.trans {j k : Nat} {v : Task} (h : During env frames t m k u m₁)
    (h' : During env k u m₁ j v m₂) : During env frames t m j v m₂ := by
  induction h' with
  | self => exact h
  | started _ hs ih => exact ih.started hs

/-! ## Tasks within limits -/

/-- A list of nodes all of which are known. -/
def AllKnown (ns : List Node) : Prop := ∀ n ∈ ns, n.Known

/-- The trees of a task are known, and its values fit.  A callable of the library keeps to the
limits as well. -/
def Task.Fits (L : Limits) : Task → Prop
  | node n | test n _ => n.Known
  | statements body => AllKnown body
  | loop _ _ low high body => low.Known ∧ high.Known ∧ AllKnown body
  | arguments args _ | named _ args _ => AllKnown args
  | user f args _ => AllKnown f.body ∧ AllKnown args
  | method this _ args _ => this.Meets L.Fit ∧ AllKnown args
  | function f _ given _ => (∀ v ∈ given, v.Meets L.Fit) ∧ ∀ s, YieldsOn L (f given s)
  | operation f _ this given _ =>
    this.Meets L.Fit ∧ (∀ v ∈ given, v.Meets L.Fit) ∧ Yields L (f this given)

/-- The task ends within the limits, however it does. -/
def Task.Confined (L : Limits) (env : Env) (frames : Nat) (m : Machine) : Task → Prop
  | node n => Contained L (fun _ => True) (exec env frames n m)
  | statements body => Contained L (fun _ => True) (execBody env frames body m)
  | test n role => Contained L (fun _ => True) (holds env frames n role m)
  | loop pos name low high body =>
    Contained L (fun _ => True) (execFor env frames pos name low high body m)
  | arguments args pos =>
    Contained L (fun given => ∀ v ∈ given, v.Meets L.Fit) (evalArgs env frames args pos m)
  | named name args pos => Contained L (fun _ => True) (callNamed env frames name args pos m)
  | user f args pos => Contained L (fun _ => True) (callUser env frames f args pos m)
  | method this name args pos =>
    Contained L (fun _ => True) (callOn env frames this name args pos m)
  | function f name given pos =>
    Contained L (fun result => ∀ v ∈ result, v.Meets L.Fit) (callFunction f name given pos m)
  | operation f name this given pos =>
    Contained L (fun result => ∀ v ∈ result, v.Meets L.Fit) (callMethod f name this given pos m)

theorem Task.Confined.ending (h : t.Confined L env frames m) :
    (t.ending env frames m).Fits L := by
  cases t <;> exact Contained.reached h

/-- A `for` loop between these bounds has counted up to `first + rounds`, and is on this machine
now. -/
inductive Counts (env : Env) (frames : Nat) : Task → Machine → Int → Int → Nat → Machine → Prop
  | intro {pos : Pos} {name : String} {low high : Node} {body : List Node} {first last : Int}
    {rounds : Nat} {m m₁ m' : Machine}
    (hb : boundsOf env frames pos low high m = .ok (first, last) m₁)
    (hr : rounds ≤ (last - first).toNat)
    (h : loopRounds env frames name body first rounds m₁ = .ok () m') :
    Counts env frames (.loop pos name low high body) m first last rounds m'

/-- A counter stays between the bounds, or at the first one. -/
theorem Counts.between {first last : Int} {rounds : Nat}
    (h : Counts env frames t m first last rounds m') :
    first ≤ first + rounds ∧ first + rounds ≤ max first last := by
  cases h with
  | intro _ hr _ => omega

/-- What no part of a task can vouch for: the counter of a loop fits, and the callables of the
library keep to the limits. -/
structure Orderly (L : Limits) (env : Env) (frames : Nat) (t : Task) (m : Machine) : Prop where
  counter : ∀ {first last rounds m'}, Counts env frames t m first last rounds m' →
    L.Bound first → L.Bound last → L.Fit (first + rounds)
  function : ∀ {f name given pos m'}, Starts env frames t m (.function f name given pos) m' →
    (∀ v ∈ given, v.Meets L.Fit) → ∀ s, YieldsOn L (f given s)
  operation : ∀ {f method this given pos m'},
    Starts env frames t m (.operation f method this given pos) m' →
      this.Meets L.Fit → (∀ v ∈ given, v.Meets L.Fit) → Yields L (f this given)

/-- A task at its start, when everything that it may start is known to end within the limits. -/
structure Ready (L : Limits) (env : Env) (frames : Nat) (t : Task) (m : Machine) : Prop where
  task : t.Fits L
  machine : m.Fits L
  orderly : Orderly L env frames t m
  part : ∀ {u m₁}, Starts env frames t m u m₁ → u.Fits L → m₁.Fits L → u.Confined L env frames m₁

/-! ## Repetition

For each kind of repetition, what holds of every beginning of it holds of the whole as well. -/

/-- The statements of a body one after the other. -/
theorem Ready.before {before after : List Node}
    (h : Ready L env frames (.statements (before ++ after)) m) :
    Contained L (fun _ => True) (before.forM (exec env frames) m) := by
  -- the last statement of a beginning is started by the whole body, the others by induction
  induction before using List.reverseRecOn generalizing after with
  | nil => exact contained_pure trivial h.machine
  | append_singleton before n ih =>
    rw [List.append_assoc] at h
    rw [List.forM_eq_forM, List.forM_append]
    refine (ih h).bind fun _ m₁ h₁ _ hm₁ => ?_
    have hn : n.Known := h.task n (List.mem_append_right _ List.mem_cons_self)
    exact (h.part (.statement h₁) hn hm₁).bind fun _ _ _ _ hm₂ => contained_pure trivial hm₂

/-- The last argument is evaluated on what the others have left. -/
theorem eachLeaving_concat (eval : Node → Eval Unit) (before : List Node) (n : Node)
    (m : Machine) :
    eachLeaving eval m.channel.length (before ++ [n]) m
      = (eachLeaving eval m.channel.length before >>= fun _ => height >>= fun k =>
          eachLeaving eval k [n]) m := by
  induction before generalizing m with
  | nil => rfl
  | cons a before ih =>
    rw [List.cons_append, eachLeaving, eachLeaving, bind_assoc]
    change EStateM.bind _ _ m = EStateM.bind _ _ m
    rw [EStateM.bind, EStateM.bind]
    cases eval a m with
    | error e m₁ => rfl
    | ok _ m₁ =>
      change (if m₁.channel.length ≤ m.channel.length then _ else _ : Eval Unit) m₁
        = ((if m₁.channel.length ≤ m.channel.length then _ else _ : Eval Unit) >>= _) m₁
      by_cases hle : m₁.channel.length ≤ m.channel.length
      · rw [if_pos hle, if_pos hle]
        rfl
      · rw [if_neg hle, if_neg hle]
        exact ih m₁

/-- Arguments one after the other, each of which has to leave something. -/
theorem Ready.earlier {before after : List Node} {pos : Pos}
    (h : Ready L env frames (.arguments (before ++ after) pos) m) :
    Contained L (fun _ => True) (eachLeaving (exec env frames) m.channel.length before m) := by
  induction before using List.reverseRecOn generalizing after with
  | nil => exact contained_pure trivial h.machine
  | append_singleton before n ih =>
    rw [List.append_assoc] at h
    rw [eachLeaving_concat]
    refine (ih h).bind fun _ m₁ h₁ _ hm₁ => (contained_height hm₁).bind fun k _ hk _ _ => ?_
    cases hk
    have hn : n.Known := h.task n (List.mem_append_right _ List.mem_cons_self)
    refine (h.part (.argument h₁) hn hm₁).bind fun _ m₂ _ _ hm₂ => ?_
    change Contained L _ ((if m₂.channel.length ≤ m₁.channel.length then _ else _ : Eval Unit) m₂)
    split
    · exact contained_fail _ _ hm₂
    · exact contained_pure trivial hm₂

theorem countUp_succ (name : String) (body : Eval Unit) (rounds : Nat) (i : Int) :
    countUp name body (rounds + 1) i
      = countUp name body rounds i >>= fun _ => discarding body >>= fun _ =>
          Eval.bind name (.int (i + (rounds + 1 : Nat))) := by
  induction rounds generalizing i with
  | zero => rfl
  | succ rounds ih =>
    have hi : i + 1 + ((rounds + 1 : Nat) : Int) = i + (rounds + 1 + 1 : Nat) := by omega
    calc countUp name body (rounds + 1 + 1) i
        = discarding body >>= fun _ => Eval.bind name (.int (i + 1)) >>= fun _ =>
            countUp name body (rounds + 1) (i + 1) := rfl
      _ = countUp name body (rounds + 1) i >>= fun _ => discarding body >>= fun _ =>
            Eval.bind name (.int (i + (rounds + 1 + 1 : Nat))) := by
          rw [ih (i + 1), hi]
          simp only [countUp, bind_assoc]

/-- The last round of the first rounds of a loop. -/
theorem loopRounds_succ (name : String) (body : List Node) (first : Int) (rounds : Nat) :
    loopRounds env frames name body first (rounds + 1)
      = loopRounds env frames name body first rounds >>= fun _ =>
          discarding (execBody env frames body) >>= fun _ =>
            Eval.bind name (.int (first + (rounds + 1 : Nat))) := by
  rw [loopRounds, loopRounds, countUp_succ, bind_assoc]

theorem execFor_succ (env : Env) (frames : Nat) (pos : Pos) (name : String) (low high : Node)
    (body : List Node) :
    execFor env (frames + 1) pos name low high body
      = boundsOf env frames pos low high >>= fun (first, last) =>
          loopRounds env frames name body first (last - first).toNat := by
  simp only [execFor, boundsOf, loopRounds, bind_assoc, pure_bind]

section Loop

variable {pos : Pos} {name : String} {low high : Node} {body : List Node}

theorem Ready.bounds (h : Ready L env frames (.loop pos name low high body) m) :
    Contained L (fun b => L.Bound b.1 ∧ L.Bound b.2) (boundsOf env frames pos low high m) := by
  obtain ⟨hlow, hhigh, _⟩ := h.task
  refine (h.part .low hlow h.machine).bind fun _ m₁ h₁ _ hm₁ => ?_
  refine (h.part (.high h₁) hhigh hm₁).bind fun _ m₂ _ _ hm₂ => ?_
  refine (contained_pop _ _ hm₂).bind fun v m₃ _ hv hm₃ => ?_
  refine (contained_boundOf hv _ hm₃).bind fun last m₄ _ hlast hm₄ => ?_
  refine (contained_pop _ _ hm₄).bind fun w m₅ _ hw hm₅ => ?_
  refine (contained_boundOf hw _ hm₅).bind fun first m₆ _ hfirst hm₆ => ?_
  exact contained_pure ⟨hfirst, hlast⟩ hm₆

/-- The first rounds of a loop, the counter of each being vouched for. -/
theorem Ready.rounds (h : Ready L env frames (.loop pos name low high body) m) {first last : Int}
    (hb : boundsOf env frames pos low high m = .ok (first, last) m₁) {rounds : Nat}
    (hr : rounds ≤ (last - first).toNat) :
    Contained L (fun _ => True) (loopRounds env frames name body first rounds m₁) := by
  obtain ⟨⟨hfirst, hlast⟩, hm₁⟩ := h.bounds.of_ok hb
  have hcounter {rounds : Nat} {m' : Machine} (hr : rounds ≤ (last - first).toNat)
      (hl : loopRounds env frames name body first rounds m₁ = .ok () m') :
      L.Fit (first + rounds) := h.orderly.counter (.intro hb hr hl) hfirst hlast
  induction rounds with
  | zero =>
    have hfit : L.Fit first := Int.add_zero first ▸ hcounter hr rfl
    exact (contained_assign (v := .int first) name hfit hm₁).bind fun _ _ _ _ hm₂ => contained_pure trivial hm₂
  | succ rounds ih =>
    have hbody {m₂ : Machine} (h₂ : loopRounds env frames name body first rounds m₁ = .ok () m₂)
        (hm₂ : m₂.Fits L) := (h.part (.round hb hr h₂) h.task.2.2 hm₂).discarding hm₂
    rw [loopRounds_succ]
    refine (ih (Nat.le_of_succ_le hr)).bind fun _ m₂ h₂ _ hm₂ => ?_
    refine (hbody h₂ hm₂).bind fun _ m₃ h₃ _ hm₃ => ?_
    obtain ⟨m₄, hl⟩ : ∃ m₄, loopRounds env frames name body first (rounds + 1) m₁ = .ok () m₄ := by
      rw [loopRounds_succ]
      exact ⟨_, bind_ok_iff.mpr ⟨_, _, h₂, bind_ok_iff.mpr ⟨_, _, h₃, rfl⟩⟩⟩
    exact contained_assign (v := .int _) name (hcounter hr hl) hm₃

end Loop

section While

variable {pos : Pos} {test : Node} {body : List Node}

/-- The machine fits after any number of completed rounds. -/
theorem Ready.loops (h : Ready L env frames (.node (.whileLoop pos test body)) m)
    (hr : Relation.ReflTransGen
      (Round (holds env frames test .whileCondition) (execBody env frames body)) m m') :
    m'.Fits L := by
  induction hr with
  | refl => exact h.machine
  | tail hr hround ih =>
    obtain ⟨m₁, htest, hbody⟩ := hround
    have ht : test.Known := h.task.child List.mem_cons_self
    have hk : AllKnown body := fun n hn => h.task.child (List.mem_cons_of_mem _ hn)
    have hm₁ := ((h.part (.whileTest hr) ht ih).of_ok htest).2
    exact (((h.part (.whileBody hr htest) hk hm₁).discarding hm₁).of_ok hbody).2

/-- The rest of a loop after some completed rounds. -/
theorem Ready.repeating (h : Ready L env frames (.node (.whileLoop pos test body)) m)
    (hr : Relation.ReflTransGen
      (Round (holds env frames test .whileCondition) (execBody env frames body)) m m')
    (rounds : Nat) :
    Contained L (fun _ => True) (repeatWhile (holds env frames test .whileCondition)
      (execBody env frames body) rounds m') := by
  have ht : test.Known := h.task.child List.mem_cons_self
  have hk : AllKnown body := fun n hn => h.task.child (List.mem_cons_of_mem _ hn)
  induction rounds generalizing m' with
  | zero => exact ⟨trivial, h.loops hr⟩
  | succ rounds ih =>
    refine (h.part (.whileTest hr) ht (h.loops hr)).bind fun taken m₁ h₁ _ hm₁ => ?_
    cases taken with
    | false => exact contained_pure trivial hm₁
    | true =>
      refine ((h.part (.whileBody hr h₁) hk hm₁).discarding hm₁).bind fun _ m₂ h₂ _ _ => ?_
      exact ih (hr.tail ⟨m₁, h₁, h₂⟩)

end While

/-! ## From a task to those it starts -/

theorem Contained.givenTo {args : List Node} {pos : Pos} {r : Nat → LogRecord}
    (h : Contained L (fun given => ∀ v ∈ given, v.Meets L.Fit) (evalArgs env frames args pos m)) :
    Contained L (fun given => ∀ v ∈ given, v.Meets L.Fit) (givenTo env frames args pos r m) :=
  h.bind fun _ _ _ hg hm₁ => (contained_log _ hm₁).bind fun _ _ _ _ hm₂ => contained_pure hg hm₂

theorem Ready.entering {f : UserFunction} {args : List Node} {pos : Pos}
    (h : Ready L env frames (.user f args pos) m) (hl : args.length = f.params.length) :
    Contained L (fun _ => True) (entering env frames f args pos m) := by
  refine (contained_checkDepth env f.name pos h.machine).bind fun _ m₁ h₁ _ hm₁ => ?_
  refine (h.part (.userArguments hl h₁) h.task.2 hm₁).bind fun given m₂ _ hg hm₂ => ?_
  refine (contained_log _ hm₂).bind fun _ m₃ _ _ hm₃ => ?_
  exact contained_bindAll f.params hg (fits_calling hm₃)

/-- What a task starts is within the limits, and so is the machine. -/
theorem Ready.starts (h : Ready L env frames t m) (hs : Starts env frames t m u m₁) :
    u.Fits L ∧ m₁.Fits L := by
  have ht := h.task
  cases hs with
  | operand _ => exact ⟨ht.child List.mem_cons_self, h.machine⟩
  | left => exact ⟨ht.child List.mem_cons_self, h.machine⟩
  | right h₁ =>
    have hleft := h.part .left (ht.child List.mem_cons_self) h.machine
    exact ⟨ht.child (List.mem_cons_of_mem _ List.mem_cons_self), (hleft.of_ok h₁).2⟩
  | call => exact ⟨fun _ => ht.child, h.machine⟩
  | methodCall hv =>
    exact ⟨⟨h.machine.scopes _ List.mem_cons_self _ _ hv, fun _ => ht.child⟩, h.machine⟩
  | receiver => exact ⟨ht.child List.mem_cons_self, h.machine⟩
  | exprMethodCall h₁ =>
    have hreceiver := h.part .receiver (ht.child List.mem_cons_self) h.machine
    have hthis := (hreceiver.bind fun _ _ _ _ hm => contained_pop _ _ hm).of_ok h₁
    exact ⟨⟨hthis.1, fun _ hn => ht.child (List.mem_cons_of_mem _ hn)⟩, hthis.2⟩
  | assigned => exact ⟨ht.child List.mem_cons_self, h.machine⟩
  | returned => exact ⟨ht.child List.mem_cons_self, h.machine⟩
  | ifTest => exact ⟨ht.child List.mem_cons_self, h.machine⟩
  | branch h₁ hb =>
    have htest := h.part .ifTest (ht.child List.mem_cons_self) h.machine
    refine ⟨fun n hn => ht.child (List.mem_cons_of_mem _ ?_), (htest.of_ok h₁).2⟩
    split at hb
    · cases hb
      exact List.mem_append_left _ hn
    · rw [hb]
      exact List.mem_append_right _ hn
  | whileTest hr => exact ⟨ht.child List.mem_cons_self, h.loops hr⟩
  | whileBody hr h₁ =>
    have htest := h.part (.whileTest hr) (ht.child List.mem_cons_self) (h.loops hr)
    exact ⟨fun _ hn => ht.child (List.mem_cons_of_mem _ hn), (htest.of_ok h₁).2⟩
  | forLoop =>
    refine ⟨⟨ht.child List.mem_cons_self, ?_, fun n hn => ?_⟩, h.machine⟩
    · exact ht.child (List.mem_cons_of_mem _ List.mem_cons_self)
    · exact ht.child (List.mem_cons_of_mem _ (List.mem_cons_of_mem _ hn))
  | block => exact ⟨fun _ => ht.child, h.machine⟩
  | statement h₁ =>
    exact ⟨ht _ (List.mem_append_right _ List.mem_cons_self), (h.before.of_ok h₁).2⟩
  | tested => exact ⟨ht, h.machine⟩
  | low => exact ⟨ht.1, h.machine⟩
  | high h₁ => exact ⟨ht.2.1, ((h.part .low ht.1 h.machine).of_ok h₁).2⟩
  | round hb hr h₁ => exact ⟨ht.2.2, ((h.rounds hb (Nat.le_of_lt hr)).of_ok h₁).2⟩
  | argument h₁ =>
    exact ⟨ht _ (List.mem_append_right _ List.mem_cons_self), (h.earlier.of_ok h₁).2⟩
  | functionArguments hf => exact ⟨ht, h.machine⟩
  | function hf h₁ =>
    have hg := (h.part (.functionArguments hf) ht h.machine).givenTo.of_ok h₁
    exact ⟨⟨hg.1, h.orderly.function (.function hf h₁) hg.1⟩, hg.2⟩
  | declared hn hf => exact ⟨⟨h.machine.functions _ _ hf, ht⟩, h.machine⟩
  | userArguments hl h₁ =>
    exact ⟨ht.2, ((contained_checkDepth env _ _ h.machine).of_ok h₁).2⟩
  | userBody hl h₁ => exact ⟨ht.1, ((h.entering hl).of_ok h₁).2⟩
  | methodArguments htable hf => exact ⟨ht.2, h.machine⟩
  | operation htable hf h₁ =>
    have hg := (h.part (.methodArguments htable hf) ht.2 h.machine).givenTo.of_ok h₁
    exact ⟨⟨ht.1, hg.1, h.orderly.operation (.operation htable hf h₁) ht.1 hg.1⟩, hg.2⟩

theorem Ready.started (h : Ready L env frames t m) (hs : Starts env frames t m u m₁) :
    u.Confined L env frames m₁ :=
  h.part hs (h.starts hs).1 (h.starts hs).2

/-! ## How tasks end -/

theorem Ready.node {n : Node} (h : Ready L env frames (.node n) m) :
    Contained L (fun _ => True) (exec env (frames + 1) n m) := by
  have hm := h.machine
  cases n with
  | int pos value => exact contained_pushOperator (operatorFits_intResult value) pos hm
  | float pos value => exact contained_push (v := .float value) trivial hm
  | string pos text => exact contained_push (v := .string text) trivial hm
  | bool pos value => exact contained_push (v := .bool value) trivial hm
  | var pos name =>
    refine (contained_lookup name hm).bind fun v? m₁ _ hv hm₁ => ?_
    cases v? with
    | some v => exact contained_push (hv v rfl) hm₁
    | none => exact contained_fail _ _ hm₁
  | unary pos op operand =>
    rw [exec]
    cases hneg : negatedLiteral? op operand with
    | some value => exact contained_pushOperator (operatorFits_intResult value) pos hm
    | none =>
      refine (h.started (.operand hneg)).bind fun _ m₁ _ _ hm₁ => ?_
      refine (contained_pop _ _ hm₁).bind fun v m₂ _ hv hm₂ => ?_
      exact contained_pushOperator (operatorFits_unary op hv) pos hm₂
  | binary pos op left right =>
    refine (h.started .left).bind fun _ m₁ h₁ _ _ => ?_
    refine (h.started (.right h₁)).bind fun _ m₂ _ _ hm₂ => ?_
    refine (contained_pop _ _ hm₂).bind fun r m₃ _ hr hm₃ => ?_
    refine (contained_pop _ _ hm₃).bind fun l m₄ _ hl hm₄ => ?_
    exact contained_pushOperator (operatorFits_binary op hl hr) pos hm₄
  | call pos name args => exact h.started .call
  | methodCall pos receiver method args =>
    refine (contained_lookup receiver hm).bind fun v? m₁ h₁ _ hm₁ => ?_
    cases v? with
    | none => exact contained_fail _ _ hm₁
    | some this =>
      obtain ⟨hthis, rfl⟩ : m.scopes.get? receiver = some this ∧ m = m₁ := by
        simpa [lookup?] using EStateM.Result.ok.inj h₁
      exact h.started (.methodCall hthis)
  | exprMethodCall pos receiver method args =>
    rw [exec, ← bind_assoc]
    have hthis := (h.started .receiver).bind (R := Value.Meets L.Fit)
      fun _ _ _ _ hm₁ => contained_pop (.receiver method) (some pos) hm₁
    exact hthis.bind fun this m₁ h₁ _ _ => h.started (.exprMethodCall h₁)
  | assign pos name value =>
    refine (contained_height hm).bind fun before m₁ h₁ _ _ => ?_
    cases h₁
    exact (h.started .assigned).bind fun _ m₂ _ _ hm₂ => contained_settle name pos _ hm₂
  | fnDecl pos name params body =>
    exact contained_declare (f := ⟨name, params, body⟩) (fun _ => h.task.child) hm
  | ret pos value =>
    refine (h.started .returned).bind fun _ m₁ _ _ hm₁ => ?_
    exact (contained_pop _ _ hm₁).bind fun v m₂ _ hv hm₂ => ⟨hv, hm₂⟩
  | cond pos test thenBody elseBody =>
    refine (h.started .ifTest).bind fun taken m₁ h₁ _ hm₁ => ?_
    cases taken with
    | true => exact h.started (.branch h₁ rfl)
    | false =>
      cases elseBody with
      | none => exact contained_pure trivial hm₁
      | some body => exact h.started (.branch h₁ rfl)
  | whileLoop pos test body => exact h.repeating .refl env.rounds
  | forLoop pos name low high body => exact h.started .forLoop
  | block pos body => exact h.started .block
  | unknown pos sort expr => exact absurd rfl (h.task _ .root pos sort expr)

theorem Ready.test {n : Node} {role : Role} (h : Ready L env frames (.test n role) m) :
    Contained L (fun _ => True) (holds env (frames + 1) n role m) := by
  refine (h.started .tested).bind fun _ m₁ _ _ hm₁ => ?_
  refine (contained_pop _ _ hm₁).bind fun v m₂ _ _ hm₂ => ?_
  cases v with
  | bool b => exact contained_pure trivial hm₂
  | int n => exact contained_fail _ _ hm₂
  | float x => exact contained_fail _ _ hm₂
  | string text => exact contained_fail _ _ hm₂

theorem Ready.loop {pos : Pos} {name : String} {low high : Node} {body : List Node}
    (h : Ready L env frames (.loop pos name low high body) m) :
    Contained L (fun _ => True) (execFor env (frames + 1) pos name low high body m) := by
  rw [execFor_succ]
  exact h.bounds.bind fun _ _ hb _ _ => h.rounds hb (Nat.le_refl _)

theorem Ready.arguments {args : List Node} {pos : Pos}
    (h : Ready L env frames (.arguments args pos) m) :
    Contained L (fun given => ∀ v ∈ given, v.Meets L.Fit)
      (evalArgs env (frames + 1) args pos m) := by
  have hargs : Ready L env frames (.arguments (args ++ []) pos) m := by rwa [List.append_nil]
  refine (contained_height h.machine).bind fun n m₁ h₁ _ _ => ?_
  cases h₁
  exact hargs.earlier.bind fun _ _ _ _ hm₂ => contained_popMany pos _ nofun hm₂

theorem Ready.named {name : String} {args : List Node} {pos : Pos}
    (h : Ready L env frames (.named name args pos) m) :
    Contained L (fun _ => True) (callNamed env (frames + 1) name args pos m) := by
  rw [callNamed]
  cases hf : env.library.functions.find? name with
  | some f =>
    refine (h.started (.functionArguments hf)).bind fun given m₁ h₁ _ hm₁ => ?_
    refine (contained_log _ hm₁).bind fun _ m₂ h₂ _ _ => ?_
    have hg : givenTo env frames args pos (.libraryCall name) m = .ok given m₂ :=
      bind_ok_iff.mpr ⟨_, _, h₁, bind_ok_iff.mpr ⟨_, _, h₂, rfl⟩⟩
    exact (h.started (.function hf hg)).bind fun _ _ _ hr hm₃ => contained_pushResult hr hm₃
  | none =>
    refine contained_get ?_
    cases hd : m.functions.find? name with
    | some f => exact h.started (.declared hf hd)
    | none => exact contained_fail _ _ h.machine

theorem Ready.user {f : UserFunction} {args : List Node} {pos : Pos}
    (h : Ready L env frames (.user f args pos) m) :
    Contained L (fun _ => True) (callUser env (frames + 1) f args pos m) := by
  rw [callUser_succ]
  split
  · exact contained_fail _ _ h.machine
  next hl =>
    have hl := not_not.mp hl
    refine (contained_checkDepth env f.name pos h.machine).bind fun _ m₁ h₁ _ _ => ?_
    refine (h.started (.userArguments hl h₁)).bind fun given m₂ h₂ hg hm₂ => ?_
    refine (contained_log _ hm₂).bind fun _ m₃ h₃ _ hm₃ => ?_
    refine (contained_height hm₃).bind fun before m₄ h₄ _ _ => ?_
    cases h₄
    -- the body of the call starts on the machine on which entering the call has ended
    have hbody := (contained_bindAll f.params hg (fits_calling hm₃)).bind (R := fun _ => True)
      fun _ m₅ h₅ _ _ => h.started (.userBody hl (bind_ok_iff.mpr ⟨_, _, h₁, bind_ok_iff.mpr
        ⟨_, _, h₂, bind_ok_iff.mpr ⟨_, _, h₃, bind_ok_iff.mpr ⟨_, _, rfl, h₅⟩⟩⟩⟩))
    refine (Contained.inFrame (framed_body env frames f given) hm₃ hbody).bind
      fun result m₆ _ hr hm₆ => ?_
    exact (contained_truncate _ hm₆).bind fun _ _ _ _ hm₇ => contained_pushResult hr hm₇

theorem Ready.method {this : Value} {method : String} {args : List Node} {pos : Pos}
    (h : Ready L env frames (.method this method args pos) m) :
    Contained L (fun _ => True) (callOn env (frames + 1) this method args pos m) := by
  rw [callOn]
  cases ht : env.library.methods.find? this.kind with
  | none => exact contained_fail _ _ h.machine
  | some table =>
    cases hf : table.find? method with
    | none =>
      simp only [hf]
      exact contained_fail _ _ h.machine
    | some f =>
      simp only [hf]
      refine (h.started (.methodArguments ht hf)).bind fun given m₁ h₁ _ hm₁ => ?_
      refine (contained_log _ hm₁).bind fun _ m₂ h₂ _ _ => ?_
      have hg : givenTo env frames args pos (.methodCall this.kind method) m = .ok given m₂ :=
        bind_ok_iff.mpr ⟨_, _, h₁, bind_ok_iff.mpr ⟨_, _, h₂, rfl⟩⟩
      exact (h.started (.operation ht hf hg)).bind fun _ _ _ hr hm₃ => contained_pushResult hr hm₃

theorem Ready.confined (h : Ready L env frames t m) : t.Confined L env (frames + 1) m := by
  cases t with
  | node n => exact h.node
  | statements body =>
    have hbody : Ready L env frames (.statements (body ++ [])) m := by rwa [List.append_nil]
    exact hbody.before
  | test n role => exact h.test
  | loop pos name low high body => exact h.loop
  | arguments args pos => exact h.arguments
  | named name args pos => exact h.named
  | user f args pos => exact h.user
  | method this method args pos => exact h.method
  | function f name given pos => exact contained_callFunction h.task.2 name pos h.machine
  | operation f method this given pos =>
    exact contained_callMethod h.task.2.2 method pos h.machine

/-! ## Throughout an evaluation -/

/-- Every task that comes up is orderly. -/
def Throughout (L : Limits) (env : Env) (frames : Nat) (t : Task) (m : Machine) : Prop :=
  ∀ k u m₁, During env frames t m (k + 1) u m₁ → Orderly L env k u m₁

theorem Throughout.later {k : Nat} (h : Throughout L env frames t m)
    (hd : During env frames t m k u m₁) : Throughout L env k u m₁ :=
  fun _ _ _ hd' => h _ _ _ (hd.trans hd')

/-- A task within the limits ends within them if everything that it starts is orderly. -/
theorem task_confined (ht : t.Fits L) (hm : m.Fits L) (h : Throughout L env frames t m) :
    t.Confined L env frames m := by
  induction frames generalizing t m with
  | zero =>
    cases t with
    | function f name given pos => exact contained_callFunction ht.2 name pos hm
    | operation f method this given pos => exact contained_callMethod ht.2.2 method pos hm
    | _ => exact And.intro trivial hm
  | succ frames ih =>
    refine Ready.confined ⟨ht, hm, h _ _ _ .self, fun hs hu hm₁ => ?_⟩
    exact ih hu hm₁ (h.later (During.self.started hs))

/-- At every moment the task is within the limits, and so is the machine. -/
theorem during_fits {k : Nat} (ht : t.Fits L) (hm : m.Fits L) (h : Throughout L env frames t m)
    (hd : During env frames t m k u m₁) : u.Fits L ∧ m₁.Fits L := by
  induction hd with
  | self => exact ⟨ht, hm⟩
  | started hd hs ih =>
    refine Ready.starts ⟨ih.1, ih.2, h _ _ _ hd, fun hs hu hm₁ => ?_⟩ hs
    exact task_confined hu hm₁ (h.later (hd.started hs))

end ExScript.Eval
