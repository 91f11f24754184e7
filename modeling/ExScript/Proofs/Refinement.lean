import ExScript.Proofs.ChannelHeight
import ExScript.Proofs.DirectStyle
import ExScript.Proofs.RoundTrip

/-!
# The channel refines direct style

`Realizes c d val left p q` says that `q`, started with channel `d`, does what `p` does: it ends in
the same world, with the values that `p` leaves over the channel `c`, and if `p` stops, then `q`
stops for the same reason, with the values that wait over `c`.  Nothing is said if `p` lacks a
value.

Every rule realizes its counterpart in direct style, whatever lies below (`realizesAt`), by
induction on the frames.  The functions of the program have to be well-formed, which declarations
preserve.
-/

namespace ExScript

/-- The bodies of all functions are well-formed. -/
def World.Sound (w : World) : Prop :=
  ∀ name f, w.functions.find? name = some f → ∀ n ∈ f.body, n.WellFormed

open Eval (Outcome Expressions)

section Relation

variable {α β γ δ : Type} {c d : List Value}

inductive Realized (c : List Value) (val : α → β) (left : α → List Value) :
    EStateM.Result Stop World α → Outcome β → Prop
  | ok {a : α} {w : World} (hw : w.Sound) :
    Realized c val left (.ok a w) (.ok (val a) (w.machine ((left a).reverse ++ c)))
  | returned {v : Value} {vs : List Value} {w : World} (hw : w.Sound) :
    Realized c val left (.error ⟨.returned v, vs⟩ w)
      (.error (.returned v) (w.machine (vs.reverse ++ c)))
  | abort {a : Abort} {vs : List Value} {w : World} :
    Realized c val left (.error ⟨.abort a, vs⟩ w) (.error (.abort a) (w.machine (vs.reverse ++ c)))
  | missing {role : Role} {vs : List Value} {w : World} {r : Outcome β} :
    Realized c val left (.error ⟨.missing role, vs⟩ w) r

def Realizes (c d : List Value) (val : α → β) (left : α → List Value) (p : Direct α) (q : Eval β) :
    Prop :=
  ∀ w : World, w.Sound → Realized c val left (p w) (q (w.machine d))

/-- A node leaves the values that direct style gives. -/
abbrev Leaves (c : List Value) (left : α → List Value) (p : Direct α) (q : Eval Unit) : Prop :=
  Realizes c c (fun _ => ()) left p q

/-- A step gives the same result and leaves the channel alone. -/
abbrev Gives (c : List Value) (p : Direct α) (q : Eval α) : Prop :=
  Realizes c c id (fun _ => []) p q

/-! ## Sequences -/

theorem Realizes.bind {p : Direct α} {q : Eval β} {f : α → Direct γ} {g : β → Eval δ}
    {val : α → β} {left : α → List Value} {val' : γ → δ} {left' : γ → List Value}
    (h : Realizes c d val left p q)
    (hf : ∀ a, Realizes c ((left a).reverse ++ c) val' left' (f a) (g (val a))) :
    Realizes c d val' left' (p >>= f) (q >>= g) := by
  intro w hw
  have hp := h w hw
  change Realized c val' left' (EStateM.bind p f w) (EStateM.bind q g (w.machine d))
  rw [EStateM.bind, EStateM.bind]
  generalize p w = r at hp ⊢
  generalize q (w.machine d) = r' at hp ⊢
  cases hp with
  | ok hw' => exact hf _ _ hw'
  | returned hw' => exact .returned hw'
  | abort => exact .abort
  | missing => exact .missing

/-- Only the form of the result changes in direct style. -/
theorem Realizes.map {p : Direct α} {q : Eval β} {val : α → β} {left : α → List Value}
    {f : α → γ} {val' : γ → β} {left' : γ → List Value} (h : Realizes c d val left p q)
    (hv : ∀ a, val' (f a) = val a) (hl : ∀ a, left' (f a) = left a) :
    Realizes c d val' left' (p >>= fun a => pure (f a)) q := by
  intro w hw
  have hp := h w hw
  change Realized c val' left' (EStateM.bind p (fun a => pure (f a)) w) (q (w.machine d))
  rw [EStateM.bind]
  generalize p w = r at hp ⊢
  generalize q (w.machine d) = r' at hp ⊢
  cases hp with
  | @ok a w' hw' =>
    rw [← hv, ← hl]
    exact .ok hw'
  | returned hw' => exact .returned hw'
  | abort => exact .abort
  | missing => exact .missing

theorem Realizes.get {f : World → Direct α} {g : Machine → Eval β} {val : α → β}
    {left : α → List Value}
    (h : ∀ w : World, w.Sound → Realizes c d val left (f w) (g (w.machine d))) :
    Realizes c d val left (MonadStateOf.get >>= f) (MonadStateOf.get >>= g) :=
  fun w hw => h w hw w hw

/-- Values that wait belong to what is above `c`. -/
theorem Realizes.keeping {p : Direct α} {q : Eval β} {val : α → β} {left : α → List Value}
    {vs : List Value} (h : Realizes (vs.reverse ++ c) d val left p q) :
    Realizes c d val (fun a => vs ++ left a) (Direct.keeping vs p) q := by
  intro w hw
  have hp := h w hw
  have hl (us : List Value) : us.reverse ++ (vs.reverse ++ c) = (vs ++ us).reverse ++ c := by
    rw [List.reverse_append, List.append_assoc]
  rw [Direct.keeping]
  generalize p w = r at hp ⊢
  generalize q (w.machine d) = r' at hp ⊢
  cases hp with
  | ok hw' =>
    rw [hl]
    exact .ok hw'
  | returned hw' =>
    rw [hl]
    exact .returned hw'
  | abort =>
    rw [hl]
    exact .abort
  | missing => exact .missing

theorem Realizes.keepingOnly {p : Direct α} {q : Eval α} {vs : List Value}
    (h : Gives (vs.reverse ++ c) p q) :
    Realizes c (vs.reverse ++ c) id (fun _ => vs) (Direct.keeping vs p) q := by
  have hk := h.keeping
  simpa only [List.append_nil] using hk

theorem realizes_pure (a : α) {b : β} {val : α → β} {left : α → List Value} (hv : val a = b)
    (hd : d = (left a).reverse ++ c) : Realizes c d val left (pure a) (pure b) := by
  intro w hw
  subst hv hd
  exact .ok hw

theorem gives_pure (a : α) : Gives c (pure a : Direct α) (pure a) := realizes_pure a rfl rfl

theorem realizes_abort (a : Abort) (val : α → β) (left : α → List Value) :
    Realizes c c val left (Direct.stop (.abort a)) (throw (.abort a)) :=
  fun w _ => (.abort : Realized c val left (.error ⟨.abort a, []⟩ w) _)

theorem realizes_fail (cause : Cause) (pos : Option Pos) (val : α → β) (left : α → List Value) :
    Realizes c c val left (Direct.fail cause pos) (Eval.fail cause pos) :=
  realizes_abort _ val left

theorem realizes_crash (k : Crash) (val : α → β) (left : α → List Value) :
    Realizes c c val left (Direct.crash k) (Eval.crash k) :=
  realizes_abort _ val left

theorem leaves_push (v : Value) : Leaves c Option.toList (pure (some v)) (Eval.push v) :=
  fun _ hw => .ok (a := some v) hw

/-- Asking a part for its value is taking it from the channel, where it lies topmost. -/
theorem realizes_demand (role : Role) (pos : Option Pos) (vs : List Value) (v? : Option Value) :
    Realizes c ((vs ++ v?.toList).reverse ++ c) id (fun _ => vs) (Direct.demand role v?)
      (Eval.pop role pos) := by
  intro w hw
  cases v? with
  | none => exact .missing
  | some v =>
    have hd : (vs ++ [v]).reverse ++ c = v :: (vs.reverse ++ c) := by
      rw [List.reverse_append, List.append_assoc]
      rfl
    have hp : Eval.pop role pos (w.machine (v :: (vs.reverse ++ c)))
        = .ok v (w.machine (vs.reverse ++ c)) := Eval.pop_of_cons rfl role pos
    rw [Option.toList_some, hd, hp]
    exact .ok (a := v) hw

theorem gives_demand (role : Role) (pos : Option Pos) (v? : Option Value) :
    Realizes c (v?.toList.reverse ++ c) id (fun _ => []) (Direct.demand role v?)
      (Eval.pop role pos) :=
  realizes_demand role pos [] v?

/-! ## Steps -/

/-- A change of the world that has nothing to do with the channel. -/
theorem realizes_modify {f : World → World} {g : Machine → Machine} {vs : List Value}
    (hfg : ∀ w d, g (w.machine d) = (f w).machine d) (hs : ∀ w : World, w.Sound → (f w).Sound)
    (hd : d = vs.reverse ++ c) : Realizes c d id (fun _ => vs) (modify f) (modify g) := by
  intro w hw
  subst hd
  change Realized c _ _ (.ok () (f w)) (.ok () (g (w.machine _)))
  rw [hfg]
  exact .ok (a := ()) (hs w hw)

theorem gives_log (r : LogRecord) : Gives c (Direct.log r) (Eval.log r) :=
  realizes_modify (fun _ _ => rfl) (fun _ hw => hw) rfl

theorem realizes_bind (name : String) (v : Value) (vs : List Value) :
    Realizes c (vs.reverse ++ c) id (fun _ => vs) (Direct.bind name v) (Eval.bind name v) :=
  realizes_modify (fun _ _ => rfl) (fun _ hw => hw) rfl

theorem gives_bindAll (names : List String) :
    ∀ vs, Gives c (Direct.bindAll names vs) (Eval.bindAll names vs) := by
  induction names with
  | nil => exact fun vs => gives_pure ()
  | cons name names ih =>
    intro vs
    cases vs with
    | nil => exact gives_pure ()
    | cons v vs => exact (realizes_bind name v []).bind fun _ => ih vs

theorem gives_lookup (name : String) : Gives c (Direct.lookup? name) (Eval.lookup? name) :=
  fun w hw => (.ok hw : Realized c id _ (.ok (w.scopes.get? name) w) _)

theorem gives_ofOperator (r : Except OperatorFault α) (pos : Pos) :
    Gives c (Direct.ofOperator r pos) (Eval.ofOperator r pos) := by
  cases r with
  | ok a => exact gives_pure a
  | error fault =>
    cases fault with
    | cause cause => exact realizes_fail _ _ _ _
    | crash k => exact realizes_crash _ _ _

/-- The result of an operation is put on the channel. -/
theorem leaves_operator (r : Except OperatorFault Value) (pos : Pos) :
    Leaves c Option.toList (do return some (← Direct.ofOperator r pos))
      (do Eval.push (← Eval.ofOperator r pos)) :=
  (gives_ofOperator r pos).bind leaves_push

theorem gives_boundOf (v : Value) (pos : Pos) :
    Gives c (Direct.boundOf v pos) (Eval.boundOf v pos) := by
  unfold Direct.boundOf Eval.boundOf
  cases v with
  | int n => exact gives_pure n
  | float x =>
    simp only
    split
    · exact gives_pure _
    · exact realizes_fail _ _ _ _
  | string text => exact realizes_fail _ _ _ _
  | bool b => exact realizes_fail _ _ _ _

theorem World.Sound.insert {w : World} (hw : w.Sound) {f : UserFunction}
    (hf : ∀ n ∈ f.body, n.WellFormed) :
    World.Sound { w with functions := w.functions.insert f.name f } := by
  intro name g hg
  rw [Table.find?_insert] at hg
  split at hg
  · cases hg
    exact hf
  · exact hw name g hg

theorem gives_declare {f : UserFunction} (hf : ∀ n ∈ f.body, n.WellFormed) :
    Gives c (Direct.declare f) (Eval.declare f) := by
  have hd : Gives c (modify fun w : World => { w with functions := w.functions.insert f.name f })
      (modify fun m : Machine => { m with functions := m.functions.insert f.name f }) :=
    realizes_modify (fun _ _ => rfl) (fun _ hw => hw.insert hf) rfl
  refine Realizes.get fun w hw => ?_
  have hfun : (w.machine c).functions = w.functions := rfl
  rw [hfun]
  cases w.functions.contains f.name with
  | true => exact (gives_log _).bind fun _ => hd
  | false => exact (gives_log _).bind fun _ => hd

theorem gives_callFunction (f : LibraryFunction) (name : String) (args : List Value) (pos : Pos) :
    Gives c (Direct.callFunction f name args pos) (Eval.callFunction f name args pos) := by
  have hset (streams : Streams) : Gives c (modify fun w : World => { w with streams := streams })
      (modify fun m : Machine => { m with streams := streams }) :=
    realizes_modify (fun _ _ => rfl) (fun _ hw => hw) rfl
  have hthen {p : Direct (Option Value)} {q : Eval (Option Value)} (h : Gives c p q)
      (streams : Streams) : Gives c (do modify fun w : World => { w with streams := streams }; p)
        (do modify fun m : Machine => { m with streams := streams }; q) :=
    (hset streams).bind fun _ => h
  intro w hw
  unfold Direct.callFunction Eval.callFunction
  simp only [Bind.bind, EStateM.bind, MonadState.get, getThe, MonadStateOf.get, EStateM.get,
    modifyGet, MonadStateOf.modifyGet, EStateM.modifyGet, World.machine]
  cases f args w.streams with
  | ok result streams => exact hthen (gives_pure result) streams w hw
  | error fault streams =>
    cases fault with
    | error e => exact hthen (realizes_fail _ _ _ _) streams w hw
    | crash k => exact hthen (realizes_crash _ _ _) streams w hw

theorem gives_callMethod (f : LibraryMethod) (method : String) (this : Value) (args : List Value)
    (pos : Pos) : Gives c (Direct.callMethod f method this args pos)
      (Eval.callMethod f method this args pos) := by
  rw [Direct.callMethod, Eval.callMethod]
  cases f this args with
  | ok result => exact gives_pure result
  | error fault =>
    cases fault with
    | error e => exact realizes_fail _ _ _ _
    | crash k => exact realizes_crash _ _ _

theorem leaves_pushResult (v? : Option Value) :
    Leaves c Option.toList (pure v?) (Eval.pushResult v?) := by
  cases v? with
  | none => exact realizes_pure none rfl rfl
  | some v => exact leaves_push v

theorem Realizes.pushing {p : Direct (Option Value)} {q : Eval (Option Value)} (h : Gives c p q) :
    Leaves c Option.toList p (q >>= Eval.pushResult) := by
  have hb := h.bind (f := pure) leaves_pushResult
  rwa [bind_pure] at hb

/-! ## Repetition -/

theorem truncate_append (m : Machine) (above below : List Value) :
    Eval.truncate below.length { m with channel := above ++ below }
      = .ok () { m with channel := below } := by
  have hl : (above ++ below).length - below.length = above.length := by
    rw [List.length_append, Nat.add_sub_cancel]
  have hd : (above ++ below).drop ((above ++ below).length - below.length) = below := by
    rw [hl, List.drop_left]
  exact congrArg (fun d => (.ok () { m with channel := d } : Outcome Unit)) hd

/-- What is left is dropped. -/
theorem Realizes.discarding {p : Direct α} {q : Eval Unit} {left : α → List Value}
    (h : Leaves c left p q) : Leaves c (fun _ => []) p (Eval.discarding q) := by
  intro w hw
  have hp := h w hw
  change Realized c _ _ (p w) (EStateM.bind q (fun _ => Eval.truncate c.length) (w.machine c))
  rw [EStateM.bind]
  generalize p w = r at hp ⊢
  generalize q (w.machine c) = r' at hp ⊢
  cases hp with
  | @ok a w' hw' =>
    have ht : Eval.truncate c.length (w'.machine ((left a).reverse ++ c)) = .ok () (w'.machine c) :=
      truncate_append (w'.machine c) (left a).reverse c
    simp only [ht]
    exact .ok (a := a) hw'
  | returned hw' => exact .returned hw'
  | abort => exact .abort
  | missing => exact .missing

theorem realizes_height {p : Direct α} {f : Nat → Eval β} {val : α → β} {left : α → List Value}
    (h : Realizes c d val left p (f d.length)) : Realizes c d val left p (Eval.height >>= f) :=
  fun w hw => h w hw

theorem gives_repeatWhile {test : Direct Bool} {test' : Eval Bool} {body : Direct (List Value)}
    {body' : Eval Unit} (ht : Gives c test test') (hb : Leaves c id body body') (rounds : Nat) :
    Gives c (Direct.repeatWhile test body rounds) (Eval.repeatWhile test' body' rounds) := by
  induction rounds with
  | zero => exact realizes_abort _ _ _
  | succ rounds ih =>
    refine ht.bind fun taken => ?_
    cases taken with
    | false => exact gives_pure ()
    | true => exact hb.discarding.bind fun _ => ih

theorem gives_countUp (name : String) {body : Direct (List Value)} {body' : Eval Unit}
    (hb : Leaves c id body body') (rounds : Nat) :
    ∀ i, Gives c (Direct.countUp name body rounds i) (Eval.countUp name body' rounds i) := by
  induction rounds with
  | zero => exact fun i => gives_pure ()
  | succ rounds ih =>
    exact fun i => hb.discarding.bind fun _ => (realizes_bind name _ []).bind fun _ => ih _

theorem leaves_leftBy {p : Node → Direct (List Value)} {q : Node → Eval Unit} {body : List Node}
    (h : ∀ n ∈ body, ∀ c, Leaves c id (p n) (q n)) :
    ∀ c, Leaves c id (Direct.leftBy p body) (body.forM q) := by
  induction body with
  | nil => exact fun c => realizes_pure [] rfl rfl
  | cons n body ih =>
    intro c
    have hrest := ih (fun m hm => h m (List.mem_cons_of_mem _ hm))
    refine (h n List.mem_cons_self c).bind fun left => ?_
    exact (hrest (left.reverse ++ c)).keeping.map (fun _ => rfl) fun _ => rfl

theorem leaves_valuesBy {p : Node → Direct (Option Value)} {q : Node → Eval Unit}
    {args : List Node} (h : ∀ n ∈ args, ∀ c, Leaves c Option.toList (p n) (q n)) :
    ∀ c, Leaves c id (Direct.valuesBy p args) (Eval.eachLeaving q c.length args) := by
  induction args with
  | nil => exact fun c => realizes_pure [] rfl rfl
  | cons n args ih =>
    intro c
    have hrest := ih (fun m hm => h m (List.mem_cons_of_mem _ hm))
    refine (h n List.mem_cons_self c).bind fun v? => realizes_height ?_
    cases v? with
    | none =>
      change Realizes c c _ _ _ (if c.length ≤ c.length then _ else _)
      rw [if_pos (Nat.le_refl c.length)]
      exact realizes_fail _ _ _ _
    | some v =>
      change Realizes c (v :: c) _ _ _ (if c.length + 1 ≤ c.length then _ else _)
      rw [if_neg (Nat.not_succ_le_self c.length)]
      have hmore : Leaves ([v].reverse ++ c) id (Direct.valuesBy p args)
          (Eval.eachLeaving q (c.length + 1) args) := hrest (v :: c)
      exact hmore.keeping.map (fun _ => rfl) fun _ => rfl

theorem keeping_ok {p : Direct α} {vs : List Value} {w w' : World} {a : α}
    (h : Direct.keeping vs p w = .ok a w') : p w = .ok a w' := by
  rw [Direct.keeping] at h
  cases hp : p w with
  | ok b w₁ =>
    rw [hp] at h
    exact h
  | error s w₁ =>
    rw [hp] at h
    cases h

theorem valuesBy_length {p : Node → Direct (Option Value)} (args : List Node) :
    ∀ {w w' : World} {vs : List Value}, Direct.valuesBy p args w = .ok vs w' →
      vs.length = args.length := by
  induction args with
  | nil =>
    intro w w' vs h
    cases h
    rfl
  | cons n args ih =>
    intro w w' vs h
    obtain ⟨v?, w₁, _, h⟩ := Eval.bind_ok_iff.mp h
    cases v? with
    | none => cases h
    | some v =>
      obtain ⟨more, w₂, hmore, h⟩ := Eval.bind_ok_iff.mp h
      cases h
      rw [List.length_cons, List.length_cons, ih (keeping_ok hmore)]

/-- Values that lie topmost are taken one by one. -/
theorem popMany_append (pos : Pos) (w : World) (vs : List Value) :
    ∀ taken, Eval.popMany pos vs.length taken (w.machine (vs ++ c))
      = .ok (vs.reverse ++ taken) (w.machine c) := by
  induction vs with
  | nil => exact fun taken => rfl
  | cons v vs ih =>
    intro taken
    have hp : Eval.pop .argument (some pos) (w.machine (v :: vs ++ c))
        = .ok v (w.machine (vs ++ c)) := Eval.pop_of_cons rfl _ _
    rw [List.length_cons, Eval.popMany, List.reverse_cons, List.append_assoc]
    change EStateM.bind (Eval.pop .argument (some pos)) _ _ = _
    rw [EStateM.bind, hp]
    exact ih (v :: taken)

/-- The values of arguments are collected from the channel in their order. -/
theorem gives_values {p : Node → Direct (Option Value)} {q : Node → Eval Unit} {args : List Node}
    (h : ∀ n ∈ args, ∀ c, Leaves c Option.toList (p n) (q n)) (pos : Pos) :
    Gives c (Direct.valuesBy p args)
      (Eval.height >>= fun n => Eval.eachLeaving q n args >>= fun _ =>
        Eval.popMany pos args.length []) := by
  intro w hw
  have hp := leaves_valuesBy h c w hw
  have hl {vs : List Value} {w' : World} (hv : Direct.valuesBy p args w = .ok vs w') :
      vs.length = args.length := valuesBy_length args hv
  change Realized c _ _ _ (EStateM.bind (Eval.eachLeaving q c.length args)
    (fun _ => Eval.popMany pos args.length []) (w.machine c))
  rw [EStateM.bind]
  generalize Direct.valuesBy p args w = r at hp hl ⊢
  generalize Eval.eachLeaving q c.length args (w.machine c) = r' at hp ⊢
  cases hp with
  | @ok vs w' hw' =>
    have hpop := popMany_append (c := c) pos w' vs.reverse []
    rw [List.length_reverse, List.reverse_reverse, List.append_nil, hl rfl] at hpop
    simp only [id, hpop]
    exact .ok (a := vs) hw'
  | returned hw' => exact .returned hw'
  | abort => exact .abort
  | missing => exact .missing

/-! ## Calls -/

/-- A body that leaves the scopes below its own alone. -/
def KeepsOuter (q : Eval Unit) : Prop :=
  ∀ m, (Eval.reached (q m)).scopes.outer = m.scopes.outer

theorem keepsOuter_of_lifts {q : Eval Unit} (h : Eval.Lifts [] q q) : KeepsOuter q := by
  intro m
  have hl := h m
  generalize q m = r at hl ⊢
  generalize q (m.over []) = r' at hl
  cases hl with
  | ok ho => exact ho
  | error ho _ => exact ho
  | starved ho _ _ => exact ho

/-- What a body has left goes, and its result comes. -/
theorem truncate_pushResult (m : Machine) (above below : List Value) (v? : Option Value) :
    (Eval.truncate below.length >>= fun _ => Eval.pushResult v?)
        { m with channel := above ++ below }
      = .ok () { m with channel := v?.toList ++ below } := by
  change EStateM.bind (Eval.truncate below.length) _ _ = _
  rw [EStateM.bind, truncate_append]
  cases v? <;> rfl

/-- A call drops what its body leaves and gives what the body returns. -/
theorem Realizes.inFrame {p : Direct (List Value)} {q : Eval Unit} (h : Leaves c id p q)
    (ho : KeepsOuter q) : Leaves c Option.toList (Direct.inFrame p)
      (Eval.height >>= fun n => Eval.inFrame q >>= fun v? => Eval.truncate n >>= fun _ =>
        Eval.pushResult v?) := by
  intro w hw
  have hp : Realized c _ id (p { w with scopes := w.scopes.push, depth := w.depth + 1 })
      (q (Eval.calling (w.machine c))) := h _ hw
  have hq := Eval.inFrame_eq (m := w.machine c) rfl (ho (Eval.calling (w.machine c)))
  have hend (w' : World) (vs : List Value) (v? : Option Value) :
      (Eval.truncate c.length >>= fun _ => Eval.pushResult v?)
          (Eval.afterCall (w.machine c) (w'.machine (vs.reverse ++ c)))
        = .ok () (World.machine { w' with scopes := w.scopes, depth := w'.depth - 1 }
          (v?.toList.reverse ++ c)) := by
    have ht := truncate_pushResult (Eval.afterCall (w.machine c) (w'.machine c)) vs.reverse c v?
    cases v? <;> exact ht
  change Realized c _ _ _ (EStateM.bind (Eval.inFrame q) (fun v? => Eval.truncate c.length >>=
    fun _ => Eval.pushResult v?) (w.machine c))
  rw [EStateM.bind, hq, Direct.inFrame]
  generalize p { w with scopes := w.scopes.push, depth := w.depth + 1 } = r at hp ⊢
  generalize q (Eval.calling (w.machine c)) = r' at hp ⊢
  cases hp with
  | @ok vs w' hw' =>
    simp only [Eval.afterBody, id, hend]
    exact .ok (a := none) hw'
  | @returned v vs w' hw' =>
    simp only [Eval.afterBody, hend]
    exact .ok (a := some v) hw'
  | abort => exact .abort
  | missing => exact .missing

/-! ## Nodes -/

/-- A node is evaluated as an expression if it is one. -/
theorem leaves_nodeBy {expr : Node → Direct (Option Value)} {stmt : Node → Direct (List Value)}
    {q : Node → Eval Unit} {n : Node}
    (hx : n.isExpr = true → Leaves c Option.toList (expr n) (q n))
    (hs : n.isExpr = false → Leaves c id (stmt n) (q n)) :
    Leaves c id (Direct.nodeBy expr stmt n) (q n) := by
  rw [Direct.nodeBy]
  cases h : n.isExpr with
  | true => exact (hx h).map (fun _ => rfl) fun _ => rfl
  | false => exact hs h

end Relation

/-- The rules at a number of frames. -/
structure RealizesAt (env : Env) (frames : Nat) : Prop where
  expr : ∀ n c, n.WellFormed → n.isExpr = true →
    Leaves c Option.toList (Direct.evalExpr env frames n) (Eval.exec env frames n)
  stmt : ∀ n c, n.WellFormed → n.isExpr = false →
    Leaves c id (Direct.evalStmt env frames n) (Eval.exec env frames n)
  body : ∀ body c, (∀ n ∈ body, n.WellFormed) →
    Leaves c id (Direct.evalBody env frames body) (Eval.execBody env frames body)
  holds : ∀ test role c, test.WellFormed → test.isExpr = true →
    Gives c (Direct.holds env frames test role) (Eval.holds env frames test role)
  forLoop : ∀ pos name low high body c, Expressions [low, high] → (∀ n ∈ body, n.WellFormed) →
    Gives c (Direct.evalFor env frames name low high body)
      (Eval.execFor env frames pos name low high body)
  args : ∀ args pos c, Expressions args →
    Gives c (Direct.evalArgs env frames args) (Eval.evalArgs env frames args pos)
  named : ∀ name args pos c, Expressions args →
    Leaves c Option.toList (Direct.callNamed env frames name args pos)
      (Eval.callNamed env frames name args pos)
  user : ∀ f args pos c, (∀ n ∈ f.body, n.WellFormed) → Expressions args →
    Leaves c Option.toList (Direct.callUser env frames f args pos)
      (Eval.callUser env frames f args pos)
  method : ∀ this method args pos c, Expressions args →
    Leaves c Option.toList (Direct.callOn env frames this method args pos)
      (Eval.callOn env frames this method args pos)

section Rules

variable {env : Env} {frames : Nat} {c : List Value}

theorem realizes_expr (ih : RealizesAt env frames) {n : Node} (c : List Value) (hw : n.WellFormed)
    (hx : n.isExpr = true) :
    Leaves c Option.toList (Direct.evalExpr env (frames + 1) n) (Eval.exec env (frames + 1) n) := by
  have hp := hw.proper
  have hc {m : Node} (hm : m ∈ n.children) : m.WellFormed := hw.child hm
  cases n with
  | int pos value => exact leaves_operator _ pos
  | float pos value => exact leaves_push _
  | string pos text => exact leaves_push _
  | bool pos value => exact leaves_push _
  | var pos name =>
    refine (gives_lookup name).bind fun v? => ?_
    cases v? with
    | some v => exact leaves_push v
    | none => exact realizes_fail _ _ _ _
  | unary pos op operand =>
    have ho := ih.expr operand c (hc List.mem_cons_self) hp.2
    rw [Direct.evalExpr, Eval.exec]
    cases Eval.negatedLiteral? op operand with
    | some value => exact leaves_operator _ pos
    | none =>
      exact ho.bind fun v? => (gives_demand _ _ v?).bind fun v => leaves_operator _ pos
  | binary pos op left right =>
    have hl := ih.expr left c (hc List.mem_cons_self) hp.2.1
    have hr (l? : Option Value) := ih.expr right (l?.toList.reverse ++ c)
      (hc (List.mem_cons_of_mem _ List.mem_cons_self)) hp.2.2
    refine hl.bind fun l? => (hr l?).keeping.bind fun r? => ?_
    refine (realizes_demand _ _ l?.toList r?).bind fun r => (gives_demand _ _ l?).bind fun l => ?_
    exact leaves_operator _ pos
  | call pos name args => exact ih.named name args pos c fun a ha => ⟨hc ha, hp.2 a ha⟩
  | methodCall pos receiver method args =>
    refine (gives_lookup receiver).bind fun v? => ?_
    cases v? with
    | some this => exact ih.method this method args pos c fun a ha => ⟨hc ha, hp.2.2 a ha⟩
    | none => exact realizes_fail _ _ _ _
  | exprMethodCall pos receiver method args =>
    have hr := ih.expr receiver c (hc List.mem_cons_self) hp.1
    refine hr.bind fun v? => (gives_demand _ _ v?).bind fun this => ?_
    exact ih.method this method args pos c fun a ha =>
      ⟨hc (List.mem_cons_of_mem _ ha), hp.2.2 a ha⟩
  | unknown pos sort expr => exact realizes_crash _ _ _
  | _ => cases hx

theorem RealizesAt.node (ih : RealizesAt env frames) {n : Node} (c : List Value)
    (hw : n.WellFormed) :
    Leaves c id (Direct.nodeBy (Direct.evalExpr env frames) (Direct.evalStmt env frames) n)
      (Eval.exec env frames n) :=
  leaves_nodeBy (ih.expr n c hw) (ih.stmt n c hw)

/-- An assignment takes the last of the values that are left. -/
theorem leaves_settle (name : String) (pos : Pos) (left : List Value) :
    Realizes c (left.reverse ++ c) (fun _ => ()) id (Direct.assignLast name pos left)
      (Eval.settle name pos c.length) := by
  have hnone (c : List Value) : Leaves c id
      (Direct.fail (.nothingToAssign name) (some pos) : Direct (List Value))
      (Eval.fail (.nothingToAssign name) (some pos)) := realizes_fail _ _ _ _
  rcases List.eq_nil_or_concat left with rfl | ⟨init, v, rfl⟩
  · intro w hw
    cases c with
    | nil => exact hnone [] w hw
    | cons v rest =>
      change Realized _ _ _ _ ((if rest.length < rest.length + 1 then _ else _ : Eval Unit) _)
      rw [if_pos (Nat.lt_succ_self rest.length)]
      exact hnone (v :: rest) w hw
  · have hd : (init ++ [v]).reverse ++ c = v :: (init.reverse ++ c) := by
      rw [List.reverse_append, List.append_assoc]
      rfl
    have hlt : ¬ (init.reverse ++ c).length < c.length := by
      rw [List.length_append]
      omega
    have hb : Realizes c (init.reverse ++ c) (fun _ => ()) id
        (do Direct.bind name v; return init) (Eval.bind name v) :=
      (realizes_bind name v init).map (fun _ => rfl) fun _ => rfl
    rw [List.concat_eq_append, Direct.assignLast, List.getLast?_concat, List.dropLast_concat, hd]
    intro w hw
    change Realized _ _ _ _
      ((if (init.reverse ++ c).length < c.length then _ else _ : Eval Unit) (w.machine _))
    rw [if_neg hlt]
    exact hb w hw

theorem realizes_assign (ih : RealizesAt env frames) (c : List Value) (pos : Pos) (name : String)
    {value : Node} (hv : value.WellFormed) :
    Leaves c id (Direct.evalStmt env (frames + 1) (.assign pos name value))
      (Eval.exec env (frames + 1) (.assign pos name value)) := by
  refine realizes_height ?_
  exact (ih.node c hv).bind fun left => leaves_settle name pos left

theorem realizes_stmt (ih : RealizesAt env frames) {n : Node} (c : List Value) (hw : n.WellFormed)
    (hx : n.isExpr = false) :
    Leaves c id (Direct.evalStmt env (frames + 1) n) (Eval.exec env (frames + 1) n) := by
  have hp := hw.proper
  have hc {m : Node} (hm : m ∈ n.children) : m.WellFormed := hw.child hm
  cases n with
  | assign pos name value => exact realizes_assign ih c pos name (hc List.mem_cons_self)
  | fnDecl pos name params body =>
    have hd : Gives c (Direct.declare ⟨name, params, body⟩) (Eval.declare ⟨name, params, body⟩) :=
      gives_declare fun n hn => hc hn
    exact hd.map (fun _ => rfl) fun _ => rfl
  | ret pos value =>
    have hv := ih.expr value c (hc List.mem_cons_self) hp
    refine hv.bind fun v? => (gives_demand _ _ v?).bind fun v => ?_
    exact fun w hw => (.returned hw : Realized c _ id (.error ⟨.returned v, []⟩ w) _)
  | cond pos test thenBody elseBody =>
    have ht := ih.holds test .ifCondition c (hc List.mem_cons_self) hp
    refine ht.bind fun taken => ?_
    have hbranch (body : List Node) (hb : ∀ n ∈ body, n ∈ thenBody ++ elseBody.getD []) :
        Leaves c id (Direct.evalBody env frames body) (Eval.execBody env frames body) :=
      ih.body body c fun n hn => hc (List.mem_cons_of_mem _ (hb n hn))
    cases taken with
    | true => exact hbranch thenBody fun n hn => List.mem_append_left _ hn
    | false =>
      cases elseBody with
      | none => exact realizes_pure [] rfl rfl
      | some body => exact hbranch body fun n hn => List.mem_append_right _ hn
  | whileLoop pos test body =>
    have ht := ih.holds test .whileCondition c (hc List.mem_cons_self) hp
    have hb := ih.body body c fun n hn => hc (List.mem_cons_of_mem _ hn)
    exact (gives_repeatWhile ht hb env.rounds).map (fun _ => rfl) fun _ => rfl
  | forLoop pos name low high body =>
    have hl : low.WellFormed := hc List.mem_cons_self
    have hh : high.WellFormed := hc (List.mem_cons_of_mem _ List.mem_cons_self)
    have hb : ∀ n ∈ body, n.WellFormed := fun n hn =>
      hc (List.mem_cons_of_mem _ (List.mem_cons_of_mem _ hn))
    have hf := ih.forLoop pos name low high body c (by simp [Expressions, hl, hh, hp.2]) hb
    exact hf.map (fun _ => rfl) fun _ => rfl
  | block pos body => exact hp.elim
  | unknown pos sort expr => exact hp.elim
  | _ => cases hx

theorem realizes_holds (ih : RealizesAt env frames) {test : Node} (role : Role) (c : List Value)
    (hw : test.WellFormed) (hx : test.isExpr = true) :
    Gives c (Direct.holds env (frames + 1) test role) (Eval.holds env (frames + 1) test role) := by
  refine (ih.expr test c hw hx).bind fun v? => (gives_demand _ _ v?).bind fun v => ?_
  cases v with
  | bool b => exact gives_pure b
  | int n => exact realizes_fail _ _ _ _
  | float x => exact realizes_fail _ _ _ _
  | string text => exact realizes_fail _ _ _ _

theorem realizes_for (ih : RealizesAt env frames) (pos : Pos) (name : String) {low high : Node}
    {body : List Node} (c : List Value) (ha : Expressions [low, high])
    (hb : ∀ n ∈ body, n.WellFormed) :
    Gives c (Direct.evalFor env (frames + 1) name low high body)
      (Eval.execFor env (frames + 1) pos name low high body) := by
  obtain ⟨hlow, hlx⟩ := ha low List.mem_cons_self
  obtain ⟨hhigh, hhx⟩ := ha high (List.mem_cons_of_mem _ List.mem_cons_self)
  refine (ih.expr low c hlow hlx).bind fun low? => ?_
  refine (ih.expr high (low?.toList.reverse ++ c) hhigh hhx).keeping.bind fun high? => ?_
  refine (realizes_demand _ _ low?.toList high?).bind fun upper => ?_
  refine (gives_boundOf upper high.pos).keepingOnly.bind fun last => ?_
  refine (gives_demand _ _ low?).bind fun lower => ?_
  refine (gives_boundOf lower low.pos).bind fun first => ?_
  refine (realizes_bind name _ []).bind fun _ => ?_
  exact gives_countUp name (ih.body body c hb) _ first

theorem realizes_args (ih : RealizesAt env frames) {args : List Node} (pos : Pos) (c : List Value)
    (ha : Expressions args) :
    Gives c (Direct.evalArgs env (frames + 1) args) (Eval.evalArgs env (frames + 1) args pos) :=
  gives_values (fun n hn c => ih.expr n c (ha n hn).1 (ha n hn).2) pos

theorem realizes_named (ih : RealizesAt env frames) (name : String) {args : List Node} (pos : Pos)
    (c : List Value) (ha : Expressions args) :
    Leaves c Option.toList (Direct.callNamed env (frames + 1) name args pos)
      (Eval.callNamed env (frames + 1) name args pos) := by
  rw [Direct.callNamed, Eval.callNamed]
  cases env.library.functions.find? name with
  | some f =>
    refine (ih.args args pos c ha).bind fun given => (gives_log _).bind fun _ => ?_
    exact (gives_callFunction f name given pos).pushing
  | none =>
    refine Realizes.get fun w hw => ?_
    have hfun : (w.machine c).functions = w.functions := rfl
    rw [hfun]
    cases hf : w.functions.find? name with
    | some f => exact ih.user f args pos c (hw name f hf) ha
    | none => exact realizes_fail _ _ _ _

theorem realizes_user (ih : RealizesAt env frames) {f : UserFunction} {args : List Node}
    (pos : Pos) (c : List Value) (hf : ∀ n ∈ f.body, n.WellFormed) (ha : Expressions args) :
    Leaves c Option.toList (Direct.callUser env (frames + 1) f args pos)
      (Eval.callUser env (frames + 1) f args pos) := by
  have hfail (cause : Cause) (k : Unit → Direct (Option Value)) (k' : Unit → Eval Unit) :
      Leaves c Option.toList (Direct.fail cause (some pos) >>= k)
        (Eval.fail cause (some pos) >>= k') :=
    fun w hw => realizes_fail cause (some pos) _ _ w hw
  rw [Direct.callUser, Eval.callUser]
  split
  · exact hfail _ _ _
  · refine Realizes.get fun w hw => ?_
    have hdepth : (w.machine c).depth = w.depth := rfl
    rw [hdepth]
    split
    · exact hfail _ _ _
    · refine (ih.args args pos c ha).bind fun given => (gives_log _).bind fun _ => ?_
      have hb : Leaves c id
          (do Direct.bindAll f.params given; Direct.evalBody env frames f.body)
          (do Eval.bindAll f.params given; Eval.execBody env frames f.body) :=
        (gives_bindAll f.params given).bind fun _ => ih.body f.body c hf
      -- direct style gives the caller its scopes back, so the body must not have touched them
      refine hb.inFrame (keepsOuter_of_lifts ?_)
      exact (Eval.lifts_bindAll _ _).bind fun _ => (Eval.liftsAt env [] frames).body f.body

theorem realizes_method (ih : RealizesAt env frames) (this : Value) (method : String)
    {args : List Node} (pos : Pos) (c : List Value) (ha : Expressions args) :
    Leaves c Option.toList (Direct.callOn env (frames + 1) this method args pos)
      (Eval.callOn env (frames + 1) this method args pos) := by
  rw [Direct.callOn, Eval.callOn]
  cases env.library.methods.find? this.kind with
  | none => exact realizes_fail _ _ _ _
  | some table =>
    cases hf : table.find? method with
    | none =>
      simp only [hf]
      exact realizes_fail _ _ _ _
    | some f =>
      simp only [hf]
      refine (ih.args args pos c ha).bind fun given => (gives_log _).bind fun _ => ?_
      exact (gives_callMethod f method this given pos).pushing

theorem realizesAt (env : Env) (frames : Nat) : RealizesAt env frames := by
  induction frames with
  | zero =>
    constructor
    all_goals
      intros
      exact realizes_fail _ none _ _
  | succ frames ih =>
    constructor
    case expr => exact fun n c hw hx => realizes_expr ih c hw hx
    case stmt => exact fun n c hw hx => realizes_stmt ih c hw hx
    case body => exact fun body c hb => leaves_leftBy (fun n hn c => ih.node c (hb n hn)) c
    case holds => exact fun test role c hw hx => realizes_holds ih role c hw hx
    case forLoop => exact fun pos name low high body c ha hb => realizes_for ih pos name c ha hb
    case args => exact fun args pos c ha => realizes_args ih pos c ha
    case named => exact fun name args pos c ha => realizes_named ih name pos c ha
    case user => exact fun f args pos c hf ha => realizes_user ih pos c hf ha
    case method => exact fun this method args pos c ha => realizes_method ih this method pos c ha

theorem realizes_program (env : Env) (frames : Nat) {p : Program} (hp : p.WellFormed)
    (c : List Value) :
    Leaves c id (Direct.evalStmt env frames p.toNode) (Eval.exec env frames p.toNode) := by
  cases frames with
  | zero => exact realizes_fail _ none _ _
  | succ frames => exact (realizesAt env frames).body p.body c hp

end Rules

/-! ## Runs -/

/-- All functions come from source texts. -/
def World.Parsed (w : World) : Prop :=
  ∀ name f, w.functions.find? name = some f → ∃ source p pos, parse source = .ok p ∧
    Node.Inside p.toNode (.fnDecl pos f.name f.params f.body)

theorem World.Parsed.sound {w : World} (h : w.Parsed) : w.Sound := by
  intro name f hf n hn
  obtain ⟨source, p, pos, hp, hd⟩ := h name f hf
  rcases (Program.WellFormed.of_parse hp).1.of_inside hd with heq | hw
  · cases heq
  · exact hw.child hn

theorem finish_machine (w : World) (left : List Value) :
    Session.finish (w.machine left.reverse)
      = (left.getLast?, World.machine { w with log := .finished left.length :: w.log }
        left.reverse) := by
  simp [Session.finish, World.machine]

/-- A run that in direct style does not lack a value ends the same way with a channel: the result is
the same, and so are the world and what is left.  Both are given the frames of the host that go with
the limit on calls, which the host must be able to give; a run that needs more of them fails in both
at the same place. -/
theorem runMachine_eq_run {source : String} {p : Program} (hp : parse source = .ok p)
    {w : World} (hw : w.Parsed) {env : Env} (hhost : Session.Hosted env.maxDepth)
    {e : Direct.Ending} (he : Direct.run env p.toNode w = some e) :
    Session.runMachine env p.toNode (w.machine [])
      = (e.result, e.world.machine e.left.reverse) := by
  have hr := realizes_program env (Session.frameLimit env.maxDepth)
    (Program.WellFormed.of_parse hp).1 [] w hw.sound
  rw [Direct.run] at he
  rw [Session.runMachine_of_hosted hhost, Session.runHosted]
  generalize Direct.evalStmt env (Session.frameLimit env.maxDepth) p.toNode w = r at hr he
  generalize Eval.exec env (Session.frameLimit env.maxDepth) p.toNode (w.machine []) = r' at hr ⊢
  cases hr with
  | ok _ =>
    cases he
    simp only [id, List.append_nil, finish_machine, Direct.finish]
  | @returned v vs w' _ =>
    cases he
    have hv : { w'.machine (vs.reverse ++ []) with channel := v :: (vs.reverse ++ []) }
        = w'.machine (vs ++ [v]).reverse := by simp [World.machine]
    have hf := congrArg Session.finish hv
    rw [finish_machine] at hf
    exact congrArg (fun r => (Except.ok r.1, r.2)) hf
  | abort =>
    cases he
    simp only [List.append_nil]
  | missing => cases he

/-- In direct style the program runs, but the host cannot be asked for the frames. -/
theorem runMachine_ne_run_unhosted :
    let w : World := ⟨Scopes.initial, Table.empty, 0, ⟨[], ""⟩, []⟩
    let env := Env.standard 134217666
    ∃ p e, parse "1" = .ok p ∧ w.Parsed ∧ Direct.run env p.toNode w = some e ∧
      Session.runMachine env p.toNode (w.machine [])
        = (.error (.crashed .tooManyFrames), w.machine []) ∧
      e.result = .ok (some (.int 1)) := by
  intro w env
  have htest : ((parse "1").toOption.any fun p => (Direct.run env p.toNode w).any fun e =>
      decide (e.result = .ok (some (.int 1)))) = true := by decide +kernel
  obtain ⟨p, hparse, htest⟩ := parsed_of_any htest
  obtain ⟨e, he, hresult⟩ := (Option.any_eq_true _ _).mp htest
  exact ⟨p, e, hparse, nofun, he, Session.runMachine_of_not_hosted (by decide) _ _,
    of_decide_eq_true hresult⟩

/-- A function that returns from inside a loop, and whose value is assigned. -/
theorem runMachine_eq_run_call :
    let w : World := ⟨Scopes.initial, Table.empty, 0, ⟨[], ""⟩, []⟩
    let source := "fn f(x) \x7b\nwhile true \x7b\n7\nreturn x + 1\n\x7d\n\x7d\n1\na = f(2)\na"
    ∃ p e, parse source = .ok p ∧ w.Parsed ∧
      Direct.run (Env.standard 256) p.toNode w = some e ∧ e.left = [.int 1, .int 3] ∧
      Session.runMachine (Env.standard 256) p.toNode (w.machine [])
        = (e.result, e.world.machine e.left.reverse) := by
  intro w source
  have hw : w.Parsed := nofun
  have htest : ((parse source).toOption.any fun p =>
      (Direct.run (Env.standard 256) p.toNode w).any fun e => decide (e.left = [.int 1, .int 3]))
        = true := by decide +kernel
  obtain ⟨p, hparse, htest⟩ := parsed_of_any htest
  obtain ⟨e, he, hleft⟩ := (Option.any_eq_true _ _).mp htest
  exact ⟨p, e, hparse, hw, he, of_decide_eq_true hleft,
    runMachine_eq_run hparse hw (by decide) he⟩

end ExScript
