import ExScript.Evaluation

/-!
# Values that wait below

`Lifts c p q` says that `q`, started over further values `c` on the channel, does what `p` does
without them and leaves them where they are, unless `p` fails for want of a value.  A step that
finds no value would take one from `c`, and this is the only way in which `c` can matter
(`liftsAt`).
-/

namespace ExScript

/-- The same machine with further values below those on the channel. -/
def Machine.over (m : Machine) (c : List Value) : Machine := { m with channel := m.channel ++ c }

/-- A value was wanted and the channel was empty. -/
inductive Starved : Interrupt → Prop
  | intro (role : Role) (pos : Option Pos) : Starved (.abort (.failed ⟨.missingValue role, pos⟩))

namespace Eval

variable {α β : Type} {c : List Value}

abbrev Outcome (α : Type) := EStateM.Result Interrupt Machine α

/-- How an evaluation ends over `c` if it ends in the first way without.  Whoever finds no value has
taken everything.  Calls have been left again, so that leaving them cannot fail. -/
inductive Lifted (c : List Value) (m : Machine) : Outcome α → Outcome α → Prop
  | ok {a : α} {m' : Machine} (ho : m'.scopes.outer = m.scopes.outer) :
    Lifted c m (.ok a m') (.ok a (m'.over c))
  | error {e : Interrupt} {m' : Machine} (ho : m'.scopes.outer = m.scopes.outer)
    (hs : ¬ Starved e) : Lifted c m (.error e m') (.error e (m'.over c))
  | starved {e : Interrupt} {m' : Machine} {r : Outcome α}
    (ho : m'.scopes.outer = m.scopes.outer) (hs : Starved e) (he : m'.channel = []) :
    Lifted c m (.error e m') r

def Lifts (c : List Value) (p q : Eval α) : Prop := ∀ m, Lifted c m (p m) (q (m.over c))

/-! ## Sequences -/

theorem Lifted.of_outer {m m₁ : Machine} {r r' : Outcome α} (h : Lifted c m₁ r r')
    (ho : m₁.scopes.outer = m.scopes.outer) : Lifted c m r r' := by
  cases h with
  | ok ho' => exact .ok (ho'.trans ho)
  | error ho' hs => exact .error (ho'.trans ho) hs
  | starved ho' hs he => exact .starved (ho'.trans ho) hs he

theorem Lifts.bind {p q : Eval α} {f g : α → Eval β} (h : Lifts c p q)
    (hf : ∀ a, Lifts c (f a) (g a)) : Lifts c (p >>= f) (q >>= g) := by
  intro m
  have hm := h m
  change Lifted c m (EStateM.bind p f m) (EStateM.bind q g (m.over c))
  rw [EStateM.bind, EStateM.bind]
  generalize p m = r at hm ⊢
  generalize q (m.over c) = r' at hm ⊢
  cases hm with
  | ok ho => exact (hf _ _).of_outer ho
  | error ho hs => exact .error ho hs
  | starved ho hs he => exact .starved ho hs he

theorem lifts_pure (a : α) : Lifts c (pure a) (pure a) := fun _ => .ok rfl

theorem lifts_throw {e : Interrupt} (he : ¬ Starved e) : Lifts c (throw e : Eval α) (throw e) :=
  fun _ => .error rfl he

theorem lifts_fail {cause : Cause} (hc : ∀ role, cause ≠ .missingValue role) (pos : Option Pos) :
    Lifts c (fail cause pos : Eval α) (fail cause pos) := by
  refine lifts_throw fun hs => ?_
  cases hs with
  | intro role _ => exact hc role rfl

theorem lifts_crash (k : Crash) : Lifts c (crash k : Eval α) (crash k) := lifts_throw nofun

/-- A step that has nothing to do with the channel. -/
theorem lifts_modify {f : Machine → Machine} (hf : ∀ m, f (m.over c) = (f m).over c)
    (ho : ∀ m, (f m).scopes.outer = m.scopes.outer) : Lifts c (modify f) (modify f) := by
  intro m
  change Lifted c m (.ok () (f m)) (.ok () (f (m.over c)))
  rw [hf]
  exact .ok (ho m)

theorem lifts_get {f g : Machine → Eval α} (h : ∀ m, Lifts c (f m) (g (m.over c))) :
    Lifts c (get >>= f) (get >>= g) :=
  fun m => h m m

theorem lifts_log (r : LogRecord) : Lifts c (log r) (log r) :=
  lifts_modify (fun _ => rfl) fun _ => rfl

theorem lifts_push (v : Value) : Lifts c (push v) (push v) :=
  lifts_modify (fun _ => rfl) fun _ => rfl

theorem lifts_bind (name : String) (v : Value) : Lifts c (Eval.bind name v) (Eval.bind name v) :=
  lifts_modify (fun _ => rfl) fun _ => rfl

/-! ## Taking values -/

theorem pop_of_cons {m : Machine} {v : Value} {rest : List Value} (h : m.channel = v :: rest)
    (role : Role) (pos : Option Pos) : pop role pos m = .ok v { m with channel := rest } := by
  cases m with
  | mk scopes channel functions depth streams log =>
    cases (h : channel = v :: rest)
    rfl

theorem pop_of_nil {m : Machine} (h : m.channel = []) (role : Role) (pos : Option Pos) :
    pop role pos m = .error (.abort (.failed ⟨.missingValue role, pos⟩)) m := by
  cases m with
  | mk scopes channel functions depth streams log =>
    cases (h : channel = [])
    rfl

theorem lifts_pop (role : Role) (pos : Option Pos) : Lifts c (pop role pos) (pop role pos) := by
  intro m
  cases hm : m.channel with
  | nil =>
    rw [pop_of_nil hm]
    exact .starved rfl (.intro role pos) hm
  | cons v rest =>
    have hc : (m.over c).channel = v :: (rest ++ c) := by simp [Machine.over, hm]
    rw [pop_of_cons hm, pop_of_cons hc]
    exact .ok rfl

theorem lifts_popMany (pos : Pos) (count : Nat) :
    ∀ values, Lifts c (popMany pos count values) (popMany pos count values) := by
  induction count with
  | zero => exact fun values => lifts_pure values
  | succ count ih => exact fun values => (lifts_pop _ _).bind fun v => ih _

/-! ## Heights -/

/-- Heights that are remembered differ by what waits below. -/
theorem lifts_height {f g : Nat → Eval α} (h : ∀ n, Lifts c (f n) (g (n + c.length))) :
    Lifts c (height >>= f) (height >>= g) := by
  have hm : ∀ m : Machine, Lifts c (f m.channel.length) (g (m.over c).channel.length) := by
    intro m
    have hl : (m.over c).channel.length = m.channel.length + c.length := List.length_append
    rw [hl]
    exact h _
  exact lifts_get hm

theorem lifts_truncate (n : Nat) : Lifts c (truncate n) (truncate (n + c.length)) := by
  intro m
  have hl : (m.channel ++ c).length - (n + c.length) = m.channel.length - n := by
    rw [List.length_append]
    omega
  have hd : (m.channel ++ c).drop ((m.channel ++ c).length - (n + c.length))
      = m.channel.drop (m.channel.length - n) ++ c := by
    rw [hl, List.drop_append_of_le_length (Nat.sub_le _ _)]
  have ht : truncate (n + c.length) (m.over c)
      = .ok () { m with channel := m.channel.drop (m.channel.length - n) ++ c } :=
    congrArg (fun d => (.ok () { m with channel := d } : Outcome Unit)) hd
  rw [ht]
  exact .ok rfl

theorem Lifts.discarding {p q : Eval Unit} (h : Lifts c p q) :
    Lifts c (discarding p) (discarding q) :=
  lifts_height fun n => h.bind fun _ => lifts_truncate n

theorem lifts_eachLeaving {p q : Node → Eval Unit} (h : ∀ n, Lifts c (p n) (q n))
    (args : List Node) :
    ∀ n, Lifts c (eachLeaving p n args) (eachLeaving q (n + c.length) args) := by
  induction args with
  | nil => exact fun n => lifts_pure ()
  | cons arg args ih =>
    intro n
    refine (h arg).bind fun _ => lifts_height fun k => ?_
    by_cases hk : k ≤ n
    · have hk' : k + c.length ≤ n + c.length := by omega
      simp only [hk, hk', if_true]
      exact lifts_fail (by nofun) _
    · have hk' : ¬ k + c.length ≤ n + c.length := by omega
      simp only [hk, hk', if_false]
      exact ih k

theorem lifts_setChannel (rest : List Value) :
    Lifts c (modify fun m => { m with channel := rest })
      (modify fun m => { m with channel := rest ++ c }) :=
  fun _ => .ok rfl

/-- The end of an assignment, which compares heights itself. -/
def settle (name : String) (pos : Pos) (before : Nat) : Eval Unit := do
  match (← get).channel with
  | v :: rest =>
    if rest.length < before then fail (.nothingToAssign name) (some pos)
    else
      modify fun m => { m with channel := rest }
      Eval.bind name v
  | [] => fail (.nothingToAssign name) (some pos)

theorem lifts_settle (name : String) (pos : Pos) (n : Nat) :
    Lifts c (settle name pos n) (settle name pos (n + c.length)) := by
  refine lifts_get fun m => ?_
  have hnone : Lifts c (fail (.nothingToAssign name) (some pos) : Eval Unit)
      (fail (.nothingToAssign name) (some pos)) := lifts_fail (by nofun) _
  cases hm : m.channel with
  | nil =>
    have hover : (m.over c).channel = c := by simp [Machine.over, hm]
    rw [hover]
    cases c with
    | nil => exact hnone
    | cons w below =>
      have hlt : below.length < n + (w :: below).length := by
        rw [List.length_cons]
        omega
      simp only [hlt, if_true]
      exact hnone
  | cons v rest =>
    have hover : (m.over c).channel = v :: (rest ++ c) := by simp [Machine.over, hm]
    rw [hover]
    by_cases hlt : rest.length < n
    · have hlt' : (rest ++ c).length < n + c.length := by
        rw [List.length_append]
        omega
      simp only [hlt, hlt', if_true]
      exact hnone
    · have hlt' : ¬ (rest ++ c).length < n + c.length := by
        rw [List.length_append]
        omega
      simp only [hlt, hlt', if_false]
      exact (lifts_setChannel rest).bind fun _ => lifts_bind name v

/-! ## Repetition -/

theorem lifts_repeatWhile {test test' : Eval Bool} {body body' : Eval Unit}
    (ht : Lifts c test test') (hb : Lifts c body body') (rounds : Nat) :
    Lifts c (repeatWhile test body rounds) (repeatWhile test' body' rounds) := by
  induction rounds with
  | zero => exact lifts_throw nofun
  | succ rounds ih =>
    refine ht.bind fun taken => ?_
    cases taken with
    | false => exact lifts_pure ()
    | true => exact hb.discarding.bind fun _ => ih

theorem lifts_countUp (name : String) {body body' : Eval Unit} (hb : Lifts c body body')
    (rounds : Nat) :
    ∀ i, Lifts c (countUp name body rounds i) (countUp name body' rounds i) := by
  induction rounds with
  | zero => exact fun i => lifts_pure ()
  | succ rounds ih =>
    exact fun i => hb.discarding.bind fun _ => (lifts_bind name _).bind fun _ => ih _

theorem lifts_forM {p q : Node → Eval Unit} (h : ∀ n, Lifts c (p n) (q n)) (body : List Node) :
    Lifts c (body.forM p) (body.forM q) := by
  induction body with
  | nil => exact lifts_pure ()
  | cons n body ih => exact (h n).bind fun _ => ih

/-! ## Calls -/

theorem lifts_bindAll (names : List String) :
    ∀ vs, Lifts c (bindAll names vs) (bindAll names vs) := by
  induction names with
  | nil => exact fun vs => lifts_pure ()
  | cons name names ih =>
    intro vs
    cases vs with
    | nil => exact lifts_pure ()
    | cons v vs => exact (lifts_bind name v).bind fun _ => ih vs

theorem lifts_pushResult (result : Option Value) :
    Lifts c (pushResult result) (pushResult result) := by
  cases result with
  | none => exact lifts_pure ()
  | some v => exact lifts_push v

theorem lifts_callFunction (f : LibraryFunction) (name : String) (args : List Value) (pos : Pos) :
    Lifts c (callFunction f name args pos) (callFunction f name args pos) := by
  have htake : Lifts c
      (modifyGet fun m => (m.streams, { m with streams := default }) : Eval Streams)
      (modifyGet fun m => (m.streams, { m with streams := default })) := fun _ => .ok rfl
  have hgive (streams : Streams) : Lifts c (modify fun m => { m with streams := streams })
      (modify fun m => { m with streams := streams }) := lifts_modify (fun _ => rfl) fun _ => rfl
  refine htake.bind fun streams => ?_
  cases f args streams with
  | ok result streams => exact (hgive streams).bind fun _ => lifts_pure result
  | error fault streams =>
    refine (hgive streams).bind fun _ => ?_
    cases fault with
    | error e => exact lifts_fail (by nofun) _
    | crash k => exact lifts_crash k

theorem lifts_callMethod (f : LibraryMethod) (method : String) (this : Value) (args : List Value)
    (pos : Pos) :
    Lifts c (callMethod f method this args pos) (callMethod f method this args pos) := by
  rw [callMethod]
  split
  · exact lifts_pure _
  · exact lifts_fail (by nofun) _
  · exact lifts_crash _

/-- The machine on which the body of a call starts. -/
def calling (m : Machine) : Machine := { m with scopes := m.scopes.push, depth := m.depth + 1 }

/-- The machine after a call, whose scope is left. -/
def afterCall (m m' : Machine) : Machine := { m' with scopes := m.scopes, depth := m'.depth - 1 }

def afterBody (m : Machine) : Outcome Unit → Outcome (Option Value)
  | .ok _ m' => .ok none (afterCall m m')
  | .error (.returned v) m' => .ok (some v) (afterCall m m')
  | .error (.abort a) m' => .error (.abort a) (afterCall m m')

def reached : Outcome α → Machine
  | .ok _ m => m
  | .error _ m => m

theorem leave_eq {m m' : Machine} (h : m'.scopes.outer = (calling m).scopes.outer) :
    leave m' = .ok () (afterCall m m') := by
  cases m' with
  | mk scopes channel functions depth streams log =>
    cases scopes with
    | mk current outer =>
      cases (h : outer = m.scopes.current :: m.scopes.outer)
      rfl

/-- How a call ends whose body leaves the scopes below its own alone. -/
theorem inFrame_eq {body : Eval Unit} {m : Machine} {r : Outcome Unit}
    (hb : body (calling m) = r) (ho : (reached r).scopes.outer = (calling m).scopes.outer) :
    inFrame body m = afterBody m r := by
  have hl := leave_eq ho
  unfold inFrame
  change EStateM.bind (attempt body) _ (calling m) = _
  rw [EStateM.bind, attempt, hb]
  cases r with
  | ok a m' =>
    change EStateM.bind leave _ m' = _
    rw [EStateM.bind, show leave m' = _ from hl]
    rfl
  | error e m' =>
    change EStateM.bind leave _ m' = _
    rw [EStateM.bind, show leave m' = _ from hl]
    cases e <;> rfl

theorem Lifts.inFrame {p q : Eval Unit} (h : Lifts c p q) : Lifts c (inFrame p) (inFrame q) := by
  intro m
  have hm : Lifted c (calling m) (p (calling m)) (q (calling (m.over c))) := h (calling m)
  generalize hp : p (calling m) = r at hm
  generalize hq : q (calling (m.over c)) = r' at hm
  cases hm with
  | ok ho =>
    rw [inFrame_eq hp ho, inFrame_eq hq ho]
    exact .ok rfl
  | @error e m' ho hs =>
    rw [inFrame_eq hp ho, inFrame_eq hq ho]
    cases e with
    | abort a => exact .error rfl hs
    | returned v => exact .ok rfl
  | starved ho hs he =>
    -- nothing is known of `q` here, but leaving the call of `p` puts nothing on the channel
    rw [inFrame_eq hp ho]
    cases hs with
    | intro role pos => exact .starved rfl (.intro role pos) he

/-- A function of the program is called, and what its body leaves is dropped. -/
theorem Lifts.bodyOf {p q : Eval Unit} (h : Lifts c p q) :
    Lifts c (do let n ← height; let result ← Eval.inFrame p; truncate n; pushResult result)
      (do let n ← height; let result ← Eval.inFrame q; truncate n; pushResult result) :=
  lifts_height fun n => h.inFrame.bind fun result => (lifts_truncate n).bind fun _ =>
    lifts_pushResult result

/-! ## Operators -/

theorem intResult_ne (n : Int) (role : Role) :
    Operator.intResult n ≠ .error (.cause (.missingValue role)) := by
  rw [Operator.intResult, Operator.checkedInt]
  split <;> nofun

theorem unary_ne (op : UnaryOp) (v : Value) (role : Role) :
    Operator.unary op v ≠ .error (.cause (.missingValue role)) := by
  unfold Operator.unary
  split
  case h_2 => exact intResult_ne _ role
  all_goals nofun

theorem compared_ne (op : BinaryOp) (kind : String) (answer : Option Bool) (role : Role) :
    Operator.compared op kind answer ≠ .error (.cause (.missingValue role)) := by
  cases answer <;> nofun

theorem intQuotient_ne (a b : Int) (role : Role) :
    Operator.intQuotient a b ≠ .error (.cause (.missingValue role)) := by
  have hfloat (n : Int) : Operator.intToFloat n = .ok (Number.ofInt n) ∨
      Operator.intToFloat n = .error (.crash .floatOverflow) := by
    by_cases hn : Number.isFinite (Number.ofInt n) = true
    · exact .inl (if_pos hn)
    · exact .inr (if_neg hn)
  unfold Operator.intQuotient
  rcases hfloat a with ha | ha
  · rcases hfloat b with hb | hb
    · rw [ha, hb]
      nofun
    · rw [ha, hb]
      nofun
  · rw [ha]
    nofun

theorem binary_ne (op : BinaryOp) (v w : Value) (role : Role) :
    Operator.binary op v w ≠ .error (.cause (.missingValue role)) := by
  unfold Operator.binary
  split
  · unfold Operator.ints
    split
    case h_4 => exact intQuotient_ne _ _ role
    case h_5 => exact compared_ne _ _ _ role
    all_goals exact intResult_ne _ role
  · unfold Operator.floats
    split
    case h_5 => exact compared_ne _ _ _ role
    all_goals nofun
  · unfold Operator.strings
    split
    case h_2 => exact compared_ne _ _ _ role
    all_goals nofun
  · exact compared_ne _ _ _ role
  · nofun

theorem lifts_ofOperator {r : Except OperatorFault α}
    (hr : ∀ role, r ≠ .error (.cause (.missingValue role))) (pos : Pos) :
    Lifts c (ofOperator r pos) (ofOperator r pos) := by
  cases r with
  | ok a => exact lifts_pure a
  | error fault =>
    cases fault with
    | cause cause => exact lifts_fail (fun role hc => hr role (by rw [hc])) _
    | crash k => exact lifts_crash k

theorem lifts_pushInt (n : Int) (pos : Pos) : Lifts c (pushInt n pos) (pushInt n pos) :=
  (lifts_ofOperator (intResult_ne n) pos).bind lifts_push

theorem lifts_boundOf (v : Value) (pos : Pos) : Lifts c (boundOf v pos) (boundOf v pos) := by
  unfold boundOf
  split
  · exact lifts_pure _
  · split
    · exact lifts_pure _
    · exact lifts_fail (by nofun) _
  · exact lifts_fail (by nofun) _

theorem lifts_declare (f : UserFunction) : Lifts c (declare f) (declare f) := by
  have hd : Lifts c (modify fun m => { m with functions := m.functions.insert f.name f })
      (modify fun m => { m with functions := m.functions.insert f.name f }) :=
    lifts_modify (fun _ => rfl) fun _ => rfl
  refine lifts_get fun m => ?_
  have hover : (m.over c).functions = m.functions := rfl
  rw [hover]
  cases m.functions.contains f.name with
  | true => exact (lifts_log _).bind fun _ => hd
  | false => exact (lifts_log _).bind fun _ => hd

/-! ## Nodes -/

/-- The rules at a number of frames. -/
structure LiftsAt (env : Env) (c : List Value) (frames : Nat) : Prop where
  exec : ∀ n, Lifts c (exec env frames n) (exec env frames n)
  body : ∀ body, Lifts c (execBody env frames body) (execBody env frames body)
  holds : ∀ test role, Lifts c (holds env frames test role) (holds env frames test role)
  forLoop : ∀ pos name low high body,
    Lifts c (execFor env frames pos name low high body) (execFor env frames pos name low high body)
  args : ∀ args pos, Lifts c (evalArgs env frames args pos) (evalArgs env frames args pos)
  named : ∀ name args pos,
    Lifts c (callNamed env frames name args pos) (callNamed env frames name args pos)
  user : ∀ f args pos, Lifts c (callUser env frames f args pos) (callUser env frames f args pos)
  method : ∀ this method args pos,
    Lifts c (callOn env frames this method args pos) (callOn env frames this method args pos)

variable {env : Env} {frames : Nat}

theorem lifts_lookup (name : String) : Lifts c (lookup? name) (lookup? name) :=
  fun _ => .ok rfl

theorem lifts_exec (ih : LiftsAt env c frames) (n : Node) :
    Lifts c (exec env (frames + 1) n) (exec env (frames + 1) n) := by
  cases n with
  | int pos value => exact lifts_pushInt value pos
  | float pos value => exact lifts_push _
  | string pos text => exact lifts_push _
  | bool pos value => exact lifts_push _
  | var pos name =>
    refine (lifts_lookup name).bind fun v => ?_
    cases v with
    | some v => exact lifts_push v
    | none => exact lifts_fail (by nofun) _
  | unary pos op operand =>
    rw [exec]
    cases negatedLiteral? op operand with
    | some value => exact lifts_pushInt value pos
    | none =>
      refine (ih.exec operand).bind fun _ => (lifts_pop _ _).bind fun v => ?_
      exact (lifts_ofOperator (unary_ne op v) pos).bind lifts_push
  | binary pos op left right =>
    refine (ih.exec left).bind fun _ => (ih.exec right).bind fun _ => ?_
    refine (lifts_pop _ _).bind fun r => (lifts_pop _ _).bind fun l => ?_
    exact (lifts_ofOperator (binary_ne op l r) pos).bind lifts_push
  | call pos name args => exact ih.named name args pos
  | methodCall pos receiver method args =>
    refine (lifts_lookup receiver).bind fun v => ?_
    cases v with
    | some this => exact ih.method this method args pos
    | none => exact lifts_fail (by nofun) _
  | exprMethodCall pos receiver method args =>
    refine (ih.exec receiver).bind fun _ => (lifts_pop _ _).bind fun this => ?_
    exact ih.method this method args pos
  | assign pos name value =>
    exact lifts_height fun n => (ih.exec value).bind fun _ => lifts_settle name pos n
  | fnDecl pos name params body => exact lifts_declare _
  | ret pos value =>
    exact (ih.exec value).bind fun _ => (lifts_pop _ _).bind fun v => lifts_throw nofun
  | cond pos test thenBody elseBody =>
    refine (ih.holds test _).bind fun taken => ?_
    cases hb : if taken = true then some thenBody else elseBody with
    | some body => exact ih.body body
    | none => exact lifts_pure ()
  | whileLoop pos test body => exact lifts_repeatWhile (ih.holds test _) (ih.body body) _
  | forLoop pos name low high body => exact ih.forLoop pos name low high body
  | block pos body => exact ih.body body
  | unknown pos sort expr => exact lifts_crash _

theorem lifts_callNamed (ih : LiftsAt env c frames) (name : String) (args : List Node) (pos : Pos) :
    Lifts c (callNamed env (frames + 1) name args pos)
      (callNamed env (frames + 1) name args pos) := by
  rw [callNamed]
  cases env.library.functions.find? name with
  | some f =>
    refine (ih.args args pos).bind fun given => (lifts_log _).bind fun _ => ?_
    exact (lifts_callFunction f name given pos).bind lifts_pushResult
  | none =>
    refine lifts_get fun m => ?_
    have hover : (m.over c).functions = m.functions := rfl
    rw [hover]
    cases m.functions.find? name with
    | some f => exact ih.user f args pos
    | none => exact lifts_fail (by nofun) _

theorem lifts_callUser (ih : LiftsAt env c frames) (f : UserFunction) (args : List Node)
    (pos : Pos) :
    Lifts c (callUser env (frames + 1) f args pos) (callUser env (frames + 1) f args pos) := by
  have hfail {cause : Cause} (hc : ∀ role, cause ≠ .missingValue role) (k : Unit → Eval Unit) :
      Lifts c (fail cause (some pos) >>= k) (fail cause (some pos) >>= k) :=
    fun m => lifts_fail hc (some pos) m
  rw [callUser]
  split
  · exact hfail (by nofun) _
  · refine lifts_get fun m => ?_
    have hover : (m.over c).depth = m.depth := rfl
    rw [hover]
    split
    · exact hfail (by nofun) _
    · refine (ih.args args pos).bind fun given => (lifts_log _).bind fun _ => ?_
      exact Lifts.bodyOf ((lifts_bindAll _ _).bind fun _ => ih.body f.body)

theorem lifts_callOn (ih : LiftsAt env c frames) (this : Value) (method : String)
    (args : List Node) (pos : Pos) :
    Lifts c (callOn env (frames + 1) this method args pos)
      (callOn env (frames + 1) this method args pos) := by
  rw [callOn]
  cases env.library.methods.find? this.kind with
  | none => exact lifts_fail (by nofun) _
  | some table =>
    cases hf : table.find? method with
    | none =>
      simp only [hf]
      exact lifts_fail (by nofun) _
    | some f =>
      simp only [hf]
      refine (ih.args args pos).bind fun given => (lifts_log _).bind fun _ => ?_
      exact (lifts_callMethod f method this given pos).bind lifts_pushResult

theorem lifts_execFor (ih : LiftsAt env c frames) (pos : Pos) (name : String) (low high : Node)
    (body : List Node) :
    Lifts c (execFor env (frames + 1) pos name low high body)
      (execFor env (frames + 1) pos name low high body) := by
  refine (ih.exec low).bind fun _ => (ih.exec high).bind fun _ => ?_
  refine (lifts_pop _ _).bind fun v => (lifts_boundOf v _).bind fun last => ?_
  refine (lifts_pop _ _).bind fun w => (lifts_boundOf w _).bind fun first => ?_
  exact (lifts_bind name _).bind fun _ => lifts_countUp name (ih.body body) _ _

theorem lifts_holds (ih : LiftsAt env c frames) (test : Node) (role : Role) :
    Lifts c (holds env (frames + 1) test role) (holds env (frames + 1) test role) := by
  refine (ih.exec test).bind fun _ => (lifts_pop role _).bind fun v => ?_
  cases v with
  | bool b => exact lifts_pure b
  | int n => exact lifts_fail (by nofun) _
  | float x => exact lifts_fail (by nofun) _
  | string text => exact lifts_fail (by nofun) _

theorem lifts_evalArgs (ih : LiftsAt env c frames) (args : List Node) (pos : Pos) :
    Lifts c (evalArgs env (frames + 1) args pos) (evalArgs env (frames + 1) args pos) :=
  lifts_height fun n => (lifts_eachLeaving ih.exec args n).bind fun _ => lifts_popMany pos _ _

theorem liftsAt (env : Env) (c : List Value) (frames : Nat) : LiftsAt env c frames := by
  induction frames with
  | zero =>
    constructor
    all_goals
      intros
      exact lifts_fail (by nofun) none
  | succ frames ih =>
    constructor
    case exec => exact lifts_exec ih
    case body => exact lifts_forM ih.exec
    case holds => exact lifts_holds ih
    case forLoop => exact lifts_execFor ih
    case args => exact lifts_evalArgs ih
    case named => exact lifts_callNamed ih
    case user => exact lifts_callUser ih
    case method => exact lifts_callOn ih

end Eval

end ExScript
