import ExScript.Library.Default
import ExScript.Proofs.Alignment
import ExScript.Proofs.CallTree
import ExScript.Proofs.ChannelHeight
import ExScript.Proofs.ScopeFrame

/-!
# Evaluations that stay within limits

`Limits` name the integers that may come up in an evaluation and the crashes that may end it.  An
outcome is `Contained` if every integer left in the machine is one of them, also that of a `return`
on its way, and a crash is one of those allowed.  Here are the steps of an evaluation: from a
machine that fits, each of them has a contained outcome.
-/

namespace ExScript

/-- All 64-bit integers are among those that fit, and an integer that fits has a finite double
nearest to it unless an overflow is allowed. -/
structure Limits where
  Fit : Int → Prop
  Allowed : Crash → Prop
  fit_of_inIntRange : ∀ {n : Int}, inIntRange n = true → Fit n
  nearest : ∀ {n : Int}, Fit n →
    Number.isFinite (Number.ofInt n) = true ∨ Allowed .floatOverflow

/-- The bound of a loop: an integer that fits, or what a finite double is cut to. -/
def Limits.Bound (L : Limits) (n : Int) : Prop :=
  L.Fit n ∨ ∃ x, Number.isFinite x = true ∧ n = Number.truncate x

/-! ## Tables, trees and values -/

namespace Table

variable {α : Type} {P : α → Prop}

/-- Whatever is found has the property. -/
def All (P : α → Prop) (t : Table α) : Prop := ∀ name a, t.find? name = some a → P a

theorem all_empty : (empty : Table α).All P := by
  intro name a h
  cases h

theorem All.insert {t : Table α} (h : t.All P) (name : String) {a : α} (ha : P a) :
    (t.insert name a).All P := by
  intro query b hb
  rw [find?_insert] at hb
  split at hb
  · cases hb
    exact ha
  · exact h query b hb

end Table

namespace Node

/-- All nodes are of sorts that the language has. -/
def Known (n : Node) : Prop := ∀ k, Inside n k → ∀ pos sort expr, k ≠ .unknown pos sort expr

theorem Known.child {n m : Node} (h : n.Known) (hm : m ∈ n.children) : m.Known :=
  fun k hk => h k (hk.of_child hm)

end Node

theorem Program.WellFormed.known {p : Program} (h : p.WellFormed) : p.toNode.Known := by
  rintro k hk pos sort expr rfl
  rcases h.of_inside hk with he | hw
  · cases he
  · exact hw.proper

/-- If the value is an integer, it has the property. -/
def Value.Meets (P : Int → Prop) : Value → Prop
  | .int n => P n
  | _ => True

/-- The integers on the channel and in the scopes have the property. -/
structure Machine.Meets (P : Int → Prop) (m : Machine) : Prop where
  channel : ∀ v ∈ m.channel, v.Meets P
  scopes : ∀ scope ∈ m.scopes.current :: m.scopes.outer, scope.All (Value.Meets P)

/-- The machine keeps to the limits, and so will the bodies of its functions. -/
structure Machine.Fits (L : Limits) (m : Machine) : Prop extends m.Meets L.Fit where
  functions : m.functions.All fun f => ∀ n ∈ f.body, n.Known

theorem Machine.fits_initial (L : Limits) (streams : Streams) : (Machine.initial streams).Fits L :=
  ⟨⟨nofun, fun _ h => List.mem_singleton.mp h ▸ Table.all_empty⟩, Table.all_empty⟩

theorem Machine.Fits.withChannel {L : Limits} {m : Machine} (h : m.Fits L) {channel : List Value}
    (hc : ∀ v ∈ channel, v.Meets L.Fit) : { m with channel := channel }.Fits L :=
  ⟨⟨hc, h.scopes⟩, h.functions⟩

/-- What interrupts the evaluation is within the limits. -/
def Interrupt.Fits (L : Limits) : Interrupt → Prop
  | .returned v => v.Meets L.Fit
  | .abort (.crashed c) => L.Allowed c
  | .abort _ => True

namespace Eval

variable {L : Limits} {α β : Type} {Q : α → Prop} {R : β → Prop} {m m' : Machine}

/-! ## Outcomes -/

/-- The machine fits, and so does what comes with it. -/
def Contained (L : Limits) (Q : α → Prop) : Outcome α → Prop
  | .ok a m => Q a ∧ m.Fits L
  | .error e m => e.Fits L ∧ m.Fits L

theorem Contained.of_ok {r : Outcome α} (h : Contained L Q r) {a : α} (hr : r = .ok a m) :
    Q a ∧ m.Fits L := by
  rw [hr] at h
  exact h

theorem Contained.reached {r : Outcome α} (h : Contained L Q r) : (reached r).Fits L := by
  cases r <;> exact h.2

/-- The second step may use how the first one went. -/
theorem Contained.bind {p : Eval α} {f : α → Eval β} (h : Contained L Q (p m))
    (hf : ∀ a m₁, p m = .ok a m₁ → Q a → m₁.Fits L → Contained L R (f a m₁)) :
    Contained L R ((p >>= f) m) := by
  change Contained L R (EStateM.bind p f m)
  rw [EStateM.bind]
  cases hp : p m with
  | ok a m₁ =>
    obtain ⟨hq, hm⟩ := h.of_ok hp
    exact hf a m₁ hp hq hm
  | error e m₁ =>
    rw [hp] at h
    exact h

/-! ## Steps -/

theorem contained_pure {a : α} (ha : Q a) (hm : m.Fits L) :
    Contained L Q ((pure a : Eval α) m) := ⟨ha, hm⟩

theorem contained_fail (cause : Cause) (pos : Option Pos) (hm : m.Fits L) :
    Contained L Q ((fail cause pos : Eval α) m) := ⟨trivial, hm⟩

theorem contained_crash {c : Crash} (hc : L.Allowed c) (hm : m.Fits L) :
    Contained L Q ((crash c : Eval α) m) := ⟨hc, hm⟩

/-- What is observed of the machine is how it is. -/
theorem contained_get {f : Machine → Eval α} (h : Contained L Q (f m m)) :
    Contained L Q ((get >>= f) m) := h

theorem contained_log (r : LogRecord) (hm : m.Fits L) : Contained L (fun _ => True) (log r m) :=
  ⟨trivial, ⟨⟨hm.channel, hm.scopes⟩, hm.functions⟩⟩

theorem contained_push {v : Value} (hv : v.Meets L.Fit) (hm : m.Fits L) :
    Contained L (fun _ => True) (push v m) :=
  ⟨trivial, hm.withChannel (List.forall_mem_cons.mpr ⟨hv, hm.channel⟩)⟩

theorem contained_pop (role : Role) (pos : Option Pos) (hm : m.Fits L) :
    Contained L (Value.Meets L.Fit) (pop role pos m) := by
  cases hc : m.channel with
  | nil =>
    rw [pop_of_nil hc]
    exact ⟨trivial, hm⟩
  | cons v rest =>
    have hall := hm.channel
    rw [hc, List.forall_mem_cons] at hall
    rw [pop_of_cons hc]
    exact ⟨hall.1, hm.withChannel hall.2⟩

theorem contained_height (hm : m.Fits L) : Contained L (fun _ => True) (height m) :=
  ⟨trivial, hm⟩

theorem contained_truncate (n : Nat) (hm : m.Fits L) :
    Contained L (fun _ => True) (truncate n m) :=
  ⟨trivial, hm.withChannel fun v hv => hm.channel v (List.mem_of_mem_drop hv)⟩

theorem contained_lookup (name : String) (hm : m.Fits L) :
    Contained L (fun v? => ∀ v ∈ v?, v.Meets L.Fit) (lookup? name m) :=
  ⟨fun v hv => hm.scopes _ List.mem_cons_self name v hv, hm⟩

theorem contained_assign (name : String) {v : Value} (hv : v.Meets L.Fit) (hm : m.Fits L) :
    Contained L (fun _ => True) (Eval.bind name v m) := by
  obtain ⟨hcurrent, houter⟩ := List.forall_mem_cons.mp hm.scopes
  refine ⟨trivial, ⟨⟨hm.channel, ?_⟩, hm.functions⟩⟩
  exact List.forall_mem_cons.mpr ⟨hcurrent.insert name hv, houter⟩

theorem contained_bindAll (names : List String) {vs : List Value}
    (hv : ∀ v ∈ vs, v.Meets L.Fit) (hm : m.Fits L) :
    Contained L (fun _ => True) (bindAll names vs m) := by
  induction names generalizing vs m with
  | nil => exact contained_pure trivial hm
  | cons name names ih =>
    cases vs with
    | nil => exact contained_pure trivial hm
    | cons v vs =>
      obtain ⟨hhead, htail⟩ := List.forall_mem_cons.mp hv
      exact (contained_assign name hhead hm).bind fun _ _ _ _ hm₁ => ih htail hm₁

theorem settle_of_nil (h : m.channel = []) (name : String) (pos : Pos) (before : Nat) :
    settle name pos before m = fail (.nothingToAssign name) (some pos) m := by
  cases m with
  | mk scopes channel functions depth streams log =>
    cases (h : channel = [])
    rfl

theorem settle_of_cons {v : Value} {rest : List Value} (h : m.channel = v :: rest) (name : String)
    (pos : Pos) (before : Nat) :
    settle name pos before m =
      if rest.length < before then fail (.nothingToAssign name) (some pos) m
      else Eval.bind name v { m with channel := rest } := by
  cases m with
  | mk scopes channel functions depth streams log =>
    cases (h : channel = v :: rest)
    change (if rest.length < before then _ else _ : Eval Unit) _ = _
    split <;> rfl

theorem contained_settle (name : String) (pos : Pos) (before : Nat) (hm : m.Fits L) :
    Contained L (fun _ => True) (settle name pos before m) := by
  cases hc : m.channel with
  | nil =>
    rw [settle_of_nil hc]
    exact contained_fail _ _ hm
  | cons v rest =>
    have hall := hm.channel
    rw [hc, List.forall_mem_cons] at hall
    rw [settle_of_cons hc]
    split
    · exact contained_fail _ _ hm
    · exact contained_assign name hall.1 (hm.withChannel hall.2)

theorem contained_declare {f : UserFunction} (hf : ∀ n ∈ f.body, n.Known) (hm : m.Fits L) :
    Contained L (fun _ => True) (declare f m) := by
  have hrest {m : Machine} (hm : m.Fits L) : Contained L (fun _ => True)
      ((modify fun m => { m with functions := m.functions.insert f.name f } : Eval Unit) m) :=
    ⟨trivial, ⟨⟨hm.channel, hm.scopes⟩, hm.functions.insert f.name hf⟩⟩
  unfold declare
  refine contained_get ?_
  split
  · exact (contained_log _ hm).bind fun _ _ _ _ hm₁ => hrest hm₁
  · exact (contained_log _ hm).bind fun _ _ _ _ hm₁ => hrest hm₁

theorem contained_checkDepth (env : Env) (name : String) (pos : Pos) (hm : m.Fits L) :
    Contained L (fun _ => True) (checkDepth env name pos m) := by
  unfold checkDepth
  refine contained_get ?_
  split
  · exact contained_fail _ _ hm
  · exact contained_pure trivial hm

theorem contained_popMany (pos : Pos) (count : Nat) {values : List Value}
    (hv : ∀ v ∈ values, v.Meets L.Fit) (hm : m.Fits L) :
    Contained L (fun vs => ∀ v ∈ vs, v.Meets L.Fit) (popMany pos count values m) := by
  induction count generalizing values m with
  | zero => exact contained_pure hv hm
  | succ count ih =>
    refine (contained_pop _ _ hm).bind fun v m₁ _ hq hm₁ => ih ?_ hm₁
    exact List.forall_mem_cons.mpr ⟨hq, hv⟩

theorem contained_pushResult {result : Option Value} (hr : ∀ v ∈ result, v.Meets L.Fit)
    (hm : m.Fits L) : Contained L (fun _ => True) (pushResult result m) := by
  cases result with
  | none => exact contained_pure trivial hm
  | some v => exact contained_push (hr v rfl) hm

theorem Contained.discarding {body : Eval Unit} (hm : m.Fits L)
    (h : Contained L (fun _ => True) (body m)) :
    Contained L (fun _ => True) (discarding body m) := by
  refine (contained_height hm).bind fun n m₁ hn _ _ => ?_
  cases hn
  exact h.bind fun _ m₂ _ _ hm₂ => contained_truncate _ hm₂

/-! ## Operators -/

/-- The value fits, and a crash is allowed. -/
def OperatorFits (L : Limits) : Except OperatorFault Value → Prop
  | .ok v => v.Meets L.Fit
  | .error (.crash c) => L.Allowed c
  | .error (.cause _) => True

theorem operatorFits_intResult (n : Int) : OperatorFits L (Operator.intResult n) := by
  unfold Operator.intResult Operator.checkedInt
  split
  next h => exact L.fit_of_inIntRange h
  · trivial

theorem operatorFits_unary (op : UnaryOp) {v : Value} (hv : v.Meets L.Fit) :
    OperatorFits L (Operator.unary op v) := by
  unfold Operator.unary
  split
  · exact hv
  · exact operatorFits_intResult _
  all_goals trivial

theorem operatorFits_compared (op : BinaryOp) (kind : String) (answer : Option Bool) :
    OperatorFits L (Operator.compared op kind answer) := by
  cases answer <;> trivial

theorem operatorFits_intQuotient {a b : Int} (ha : L.Fit a) (hb : L.Fit b) :
    OperatorFits L (Operator.intQuotient a b) := by
  have hto {n : Int} (hn : L.Fit n) : (∃ x, Operator.intToFloat n = .ok x) ∨
      Operator.intToFloat n = .error (.crash .floatOverflow) ∧ L.Allowed .floatOverflow := by
    unfold Operator.intToFloat
    by_cases hx : Number.isFinite (Number.ofInt n) = true
    · exact .inl ⟨_, if_pos hx⟩
    · exact .inr ⟨if_neg hx, (L.nearest hn).resolve_left hx⟩
  unfold Operator.intQuotient
  rcases hto ha with ⟨x, hx⟩ | ⟨hx, hc⟩
  · rcases hto hb with ⟨y, hy⟩ | ⟨hy, hc⟩
    · rw [hx, hy]
      trivial
    · rw [hx, hy]
      exact hc
  · rw [hx]
    exact hc

theorem operatorFits_binary (op : BinaryOp) {v w : Value} (hv : v.Meets L.Fit)
    (hw : w.Meets L.Fit) : OperatorFits L (Operator.binary op v w) := by
  unfold Operator.binary
  split
  · unfold Operator.ints
    split
    · exact operatorFits_intResult _
    · exact operatorFits_intResult _
    · exact operatorFits_intResult _
    · exact operatorFits_intQuotient hv hw
    · exact operatorFits_compared _ _ _
  · unfold Operator.floats
    split
    iterate 4 trivial
    exact operatorFits_compared _ _ _
  · unfold Operator.strings
    split
    · trivial
    · exact operatorFits_compared _ _ _
  · exact operatorFits_compared _ _ _
  · trivial

theorem contained_ofOperator {r : Except OperatorFault Value} (hr : OperatorFits L r) (pos : Pos)
    (hm : m.Fits L) : Contained L (Value.Meets L.Fit) (ofOperator r pos m) := by
  cases r with
  | ok v => exact contained_pure hr hm
  | error fault =>
    cases fault with
    | cause cause => exact contained_fail _ _ hm
    | crash c => exact contained_crash hr hm

/-- The value of an operator is put on the channel. -/
theorem contained_pushOperator {r : Except OperatorFault Value} (hr : OperatorFits L r) (pos : Pos)
    (hm : m.Fits L) : Contained L (fun _ => True) ((do push (← ofOperator r pos)) m) :=
  (contained_ofOperator hr pos hm).bind fun _ _ _ hv hm₁ => contained_push hv hm₁

theorem contained_boundOf {v : Value} (hv : v.Meets L.Fit) (pos : Pos) (hm : m.Fits L) :
    Contained L L.Bound (boundOf v pos m) := by
  unfold boundOf
  split
  · exact contained_pure (.inl hv) hm
  next x =>
    split
    next hx =>
      refine contained_pure (.inr ⟨x, ?_, rfl⟩) hm
      rw [Number.isIntegral, Bool.and_eq_true] at hx
      exact hx.1
    · exact contained_fail _ _ hm
  · exact contained_fail _ _ hm

/-! ## Calls -/

/-- What a callable of the library gives fits, and a crash is allowed. -/
def Yields (L : Limits) : Except LibraryFault (Option Value) → Prop
  | .ok result => ∀ v ∈ result, v.Meets L.Fit
  | .error (.crash c) => L.Allowed c
  | .error (.error _) => True

/-- The same of a function, which gives the streams back besides. -/
def YieldsOn (L : Limits) : EStateM.Result LibraryFault Streams (Option Value) → Prop
  | .ok result _ => Yields L (.ok result)
  | .error fault _ => Yields L (.error fault)

theorem contained_callFunction {f : LibraryFunction} {given : List Value}
    (hf : ∀ s, YieldsOn L (f given s)) (name : String) (pos : Pos) (hm : m.Fits L) :
    Contained L (fun result => ∀ v ∈ result, v.Meets L.Fit) (callFunction f name given pos m) := by
  have hgive (streams : Streams) : { m with streams := streams }.Fits L :=
    ⟨⟨hm.channel, hm.scopes⟩, hm.functions⟩
  have hyields := hf m.streams
  unfold callFunction
  change Contained L _ ((match f given m.streams with | .ok _ _ => _ | .error _ _ => _ :
    Eval (Option Value)) { m with streams := default })
  cases hr : f given m.streams with
  | ok result streams =>
    rw [hr] at hyields
    exact ⟨hyields, hgive streams⟩
  | error fault streams =>
    rw [hr] at hyields
    cases fault with
    | error e => exact ⟨trivial, hgive streams⟩
    | crash c => exact ⟨hyields, hgive streams⟩

theorem contained_callMethod {f : LibraryMethod} {this : Value} {given : List Value}
    (hf : Yields L (f this given)) (method : String) (pos : Pos) (hm : m.Fits L) :
    Contained L (fun result => ∀ v ∈ result, v.Meets L.Fit)
      (callMethod f method this given pos m) := by
  unfold callMethod
  cases hr : f this given with
  | ok result =>
    rw [hr] at hf
    exact ⟨hf, hm⟩
  | error fault =>
    rw [hr] at hf
    cases fault with
    | error e => exact ⟨trivial, hm⟩
    | crash c => exact ⟨hf, hm⟩

theorem fits_calling (hm : m.Fits L) : (calling m).Fits L :=
  ⟨⟨hm.channel, List.forall_mem_cons.mpr ⟨Table.all_empty, hm.scopes⟩⟩, hm.functions⟩

/-- The scope of the call is left, so that a `return` ends here and nothing else can go wrong. -/
theorem Contained.inFrame {body : Eval Unit} (hb : Framed body) (hm : m.Fits L)
    (h : Contained L (fun _ => True) (body (calling m))) :
    Contained L (fun result => ∀ v ∈ result, v.Meets L.Fit) (inFrame body m) := by
  have hafter {m' : Machine} (hm' : m'.Fits L) : (afterCall m m').Fits L :=
    ⟨⟨hm'.channel, hm.scopes⟩, hm'.functions⟩
  rw [inFrame_eq rfl (hb.outer (calling m))]
  cases hr : body (calling m) with
  | ok a m' =>
    rw [hr] at h
    exact ⟨nofun, hafter h.2⟩
  | error e m' =>
    rw [hr] at h
    cases e with
    | returned v =>
      refine ⟨?_, hafter h.2⟩
      rintro _ ⟨⟩
      exact h.1
    | abort a => exact ⟨h.1, hafter h.2⟩

end Eval

end ExScript
