import ExScript.Proofs.ChannelFrame
import ExScript.Proofs.WellFormed

/-!
# How much is left on the channel

`Grows k p` bounds what a completed `p` leaves in addition to what was there; a negative `k` says
how much it takes.  A well-formed expression leaves at most one value, and loops and declarations
leave nothing.
-/

namespace ExScript.Eval

variable {α β : Type} {j k l : Int}

def Grows (k : Int) (p : Eval α) : Prop :=
  ∀ m a m', p m = .ok a m' → (m'.channel.length : Int) ≤ m.channel.length + k

/-! ## Steps -/

theorem bind_ok_iff {ε σ : Type} {p : EStateM ε σ α} {f : α → EStateM ε σ β} {m m' : σ} {b : β} :
    (p >>= f) m = .ok b m' ↔ ∃ a m₁, p m = .ok a m₁ ∧ f a m₁ = .ok b m' := by
  change EStateM.bind p f m = _ ↔ _
  rw [EStateM.bind]
  cases p m with
  | ok a m₁ =>
    constructor
    · exact fun h => ⟨a, m₁, rfl, h⟩
    · rintro ⟨_, _, h, hf⟩
      cases h
      exact hf
  | error e m₁ => simp

theorem Grows.bind {p : Eval α} {f : α → Eval β} (h : Grows j p) (hf : ∀ a, Grows k (f a))
    (hl : j + k ≤ l) : Grows l (p >>= f) := by
  intro m b m' hb
  obtain ⟨a, m₁, hp, hfa⟩ := bind_ok_iff.mp hb
  have h₁ := h m a m₁ hp
  have h₂ := hf a m₁ b m' hfa
  omega

theorem grows_pure (a : α) : Grows 0 (pure a : Eval α) := by
  intro m b m' h
  cases h
  omega

/-- What does not complete leaves nothing. -/
theorem grows_throw (e : Interrupt) : Grows k (throw e : Eval α) := by
  intro m a m' h
  cases h

theorem grows_fail (cause : Cause) (pos : Option Pos) : Grows k (fail cause pos : Eval α) :=
  grows_throw _

theorem grows_modify {f : Machine → Machine} (hf : ∀ m, (f m).channel = m.channel) :
    Grows 0 (modify f : Eval Unit) := by
  intro m a m' h
  cases h
  rw [hf]
  omega

theorem grows_get {f : Machine → Eval α} (h : ∀ m, Grows k (f m)) : Grows k (get >>= f) :=
  fun m => h m m

theorem grows_log (r : LogRecord) : Grows 0 (log r) := grows_modify fun _ => rfl

theorem grows_bind (name : String) (v : Value) : Grows 0 (Eval.bind name v) :=
  grows_modify fun _ => rfl

theorem grows_push (v : Value) : Grows 1 (push v) := by
  intro m a m' h
  cases h
  exact Int.le_refl _

theorem grows_pop (role : Role) (pos : Option Pos) : Grows (-1) (pop role pos) := by
  intro m v m' h
  cases hm : m.channel with
  | nil =>
    rw [pop_of_nil hm] at h
    cases h
  | cons w rest =>
    rw [pop_of_cons hm] at h
    cases h
    rw [List.length_cons]
    push_cast
    omega

theorem grows_popMany (pos : Pos) (count : Nat) :
    ∀ values, Grows (-count) (popMany pos count values) := by
  induction count with
  | zero => exact fun values => grows_pure values
  | succ count ih =>
    intro values
    refine (grows_pop _ _).bind (fun v => ih _) ?_
    omega

/-- Whatever a step leaves is dropped. -/
theorem grows_truncating {p : Eval α} {f : α → Eval β} (hf : ∀ a, Grows k (f a)) :
    Grows k (do let n ← height; let a ← p; truncate n; f a) := by
  intro m b m' h
  obtain ⟨n, m₁, hn, h⟩ := bind_ok_iff.mp h
  obtain ⟨a, m₂, _, h⟩ := bind_ok_iff.mp h
  obtain ⟨_, m₃, ht, h⟩ := bind_ok_iff.mp h
  cases hn
  cases ht
  have hlast := hf a _ b m' h
  simp only [List.length_drop] at hlast
  omega

theorem grows_discarding (p : Eval Unit) : Grows 0 (discarding p) := by
  have h : discarding p = height >>= fun n => p >>= fun _ => truncate n >>= fun _ => pure () :=
    rfl
  rw [h]
  exact grows_truncating fun _ => grows_pure ()

theorem grows_eachLeaving {p : Node → Eval Unit} {args : List Node}
    (h : ∀ a ∈ args, Grows 1 (p a)) : ∀ n, Grows args.length (eachLeaving p n args) := by
  induction args with
  | nil => exact fun n => grows_pure ()
  | cons arg args ih =>
    intro n
    have ih := ih fun a ha => h a (List.mem_cons_of_mem _ ha)
    refine (h arg List.mem_cons_self).bind (k := args.length) (fun _ => grows_get fun m => ?_) ?_
    · split
      · exact grows_fail _ _
      · exact ih _
    · rw [List.length_cons]
      omega

/-! ## Loops and calls -/

theorem grows_repeatWhile {test : Eval Bool} (ht : Grows 0 test) (body : Eval Unit)
    (rounds : Nat) : Grows 0 (repeatWhile test body rounds) := by
  induction rounds with
  | zero => exact grows_throw _
  | succ rounds ih =>
    refine ht.bind (k := 0) (fun taken => ?_) (by omega)
    cases taken with
    | false => exact grows_pure ()
    | true => exact (grows_discarding body).bind (fun _ => ih) (by omega)

theorem grows_countUp (name : String) (body : Eval Unit) (rounds : Nat) :
    ∀ i, Grows 0 (countUp name body rounds i) := by
  induction rounds with
  | zero => exact fun i => grows_pure ()
  | succ rounds ih =>
    intro i
    refine (grows_discarding body).bind (k := 0) (fun _ => ?_) (by omega)
    exact (grows_bind name _).bind (fun _ => ih _) (by omega)

theorem grows_pushResult (result : Option Value) : Grows 1 (pushResult result) := by
  cases result with
  | none =>
    intro m a m' h
    cases h
    omega
  | some v => exact grows_push v

theorem grows_callFunction (f : LibraryFunction) (name : String) (args : List Value) (pos : Pos) :
    Grows 0 (callFunction f name args pos) := by
  have htake : Grows 0
      (modifyGet fun m => (m.streams, { m with streams := default }) : Eval Streams) := by
    intro m streams m' h
    cases h
    exact Int.le_refl _
  have hgive (streams : Streams) : Grows 0
      (modify fun m => { m with streams := streams } : Eval Unit) := grows_modify fun _ => rfl
  refine htake.bind (k := 0) (fun streams => ?_) (by omega)
  cases f args streams with
  | ok result streams => exact (hgive streams).bind (fun _ => grows_pure result) (by omega)
  | error fault streams =>
    refine (hgive streams).bind (k := 0) (fun _ => ?_) (by omega)
    cases fault with
    | error e => exact grows_fail _ _
    | crash c => exact grows_throw _

theorem grows_callMethod (f : LibraryMethod) (method : String) (this : Value) (args : List Value)
    (pos : Pos) : Grows 0 (callMethod f method this args pos) := by
  rw [callMethod]
  split
  · exact grows_pure _
  · exact grows_fail _ _
  · exact grows_throw _

theorem grows_ofOperator (r : Except OperatorFault α) (pos : Pos) : Grows 0 (ofOperator r pos) := by
  cases r with
  | ok a => exact grows_pure a
  | error fault =>
    cases fault with
    | cause cause => exact grows_fail _ _
    | crash c => exact grows_throw _

theorem grows_pushInt (n : Int) (pos : Pos) : Grows 1 (pushInt n pos) :=
  (grows_ofOperator _ pos).bind grows_push (by omega)

theorem grows_boundOf (v : Value) (pos : Pos) : Grows 0 (boundOf v pos) := by
  unfold boundOf
  split
  · exact grows_pure _
  · split
    · exact grows_pure _
    · exact grows_fail _ _
  · exact grows_fail _ _

theorem grows_declare (f : UserFunction) : Grows 0 (declare f) := by
  have hd : Grows 0
      (modify fun m => { m with functions := m.functions.insert f.name f } : Eval Unit) :=
    grows_modify fun _ => rfl
  refine grows_get fun m => ?_
  cases m.functions.contains f.name with
  | true => exact (grows_log _).bind (fun _ => hd) (by omega)
  | false => exact (grows_log _).bind (fun _ => hd) (by omega)

/-! ## Nodes -/

/-- The expressions that a rule is given are well-formed. -/
def Expressions (args : List Node) : Prop := ∀ a ∈ args, a.WellFormed ∧ a.isExpr = true

structure GrowsAt (env : Env) (frames : Nat) : Prop where
  expr : ∀ n, n.WellFormed → n.isExpr = true → Grows 1 (exec env frames n)
  holds : ∀ test role, test.WellFormed → test.isExpr = true → Grows 0 (holds env frames test role)
  forLoop : ∀ pos name low high body, Expressions [low, high] →
    Grows 0 (execFor env frames pos name low high body)
  args : ∀ args pos, Expressions args → Grows 0 (evalArgs env frames args pos)
  named : ∀ name args pos, Expressions args → Grows 1 (callNamed env frames name args pos)
  user : ∀ f args pos, Expressions args → Grows 1 (callUser env frames f args pos)
  method : ∀ this method args pos, Expressions args →
    Grows 1 (callOn env frames this method args pos)

variable {env : Env} {frames : Nat}

theorem grows_lookup (name : String) : Grows 0 (lookup? name) := by
  intro m v m' h
  cases h
  omega

theorem grows_exec (ih : GrowsAt env frames) {n : Node} (hw : n.WellFormed)
    (hx : n.isExpr = true) : Grows 1 (exec env (frames + 1) n) := by
  have hp := hw.proper
  have hc {m : Node} (hm : m ∈ n.children) : m.WellFormed := hw.child hm
  cases n with
  | int pos value => exact grows_pushInt value pos
  | float pos value => exact grows_push _
  | string pos text => exact grows_push _
  | bool pos value => exact grows_push _
  | var pos name =>
    refine (grows_lookup name).bind (k := 1) (fun v => ?_) (by omega)
    cases v with
    | some v => exact grows_push v
    | none => exact grows_fail _ _
  | unary pos op operand =>
    have ho := ih.expr operand (hc List.mem_cons_self) hp.2
    rw [exec]
    cases negatedLiteral? op operand with
    | some value => exact grows_pushInt value pos
    | none =>
      refine ho.bind (k := 0) (fun _ => ?_) (by omega)
      refine (grows_pop _ _).bind (k := 1) (fun v => ?_) (by omega)
      exact (grows_ofOperator _ pos).bind grows_push (by omega)
  | binary pos op left right =>
    have hl := ih.expr left (hc List.mem_cons_self) hp.2.1
    have hr := ih.expr right (hc (List.mem_cons_of_mem _ List.mem_cons_self)) hp.2.2
    refine hl.bind (k := 0) (fun _ => ?_) (by omega)
    refine hr.bind (k := -1) (fun _ => ?_) (by omega)
    refine (grows_pop _ _).bind (k := 0) (fun r => ?_) (by omega)
    refine (grows_pop _ _).bind (k := 1) (fun l => ?_) (by omega)
    exact (grows_ofOperator _ pos).bind grows_push (by omega)
  | call pos name args => exact ih.named name args pos fun a ha => ⟨hc ha, hp.2 a ha⟩
  | methodCall pos receiver method args =>
    refine (grows_lookup receiver).bind (k := 1) (fun v => ?_) (by omega)
    cases v with
    | some this => exact ih.method this method args pos fun a ha => ⟨hc ha, hp.2.2 a ha⟩
    | none => exact grows_fail _ _
  | exprMethodCall pos receiver method args =>
    have hr := ih.expr receiver (hc List.mem_cons_self) hp.1
    refine hr.bind (k := 0) (fun _ => ?_) (by omega)
    refine (grows_pop _ _).bind (k := 1) (fun this => ?_) (by omega)
    exact ih.method this method args pos fun a ha =>
      ⟨hc (List.mem_cons_of_mem _ ha), hp.2.2 a ha⟩
  | unknown pos sort expr => exact grows_throw _
  | _ => cases hx

theorem grows_callNamed (ih : GrowsAt env frames) (name : String) {args : List Node} (pos : Pos)
    (ha : Expressions args) : Grows 1 (callNamed env (frames + 1) name args pos) := by
  rw [callNamed]
  cases env.library.functions.find? name with
  | some f =>
    refine (ih.args args pos ha).bind (k := 1) (fun given => ?_) (by omega)
    refine (grows_log _).bind (k := 1) (fun _ => ?_) (by omega)
    exact (grows_callFunction f name given pos).bind grows_pushResult (by omega)
  | none =>
    refine grows_get fun m => ?_
    cases m.functions.find? name with
    | some f => exact ih.user f args pos ha
    | none => exact grows_fail _ _

theorem grows_callUser (ih : GrowsAt env frames) (f : UserFunction) {args : List Node} (pos : Pos)
    (ha : Expressions args) : Grows 1 (callUser env (frames + 1) f args pos) := by
  have hfail (cause : Cause) (g : Unit → Eval Unit) : Grows 1 (fail cause (some pos) >>= g) := by
    intro m a m' h
    cases h
  rw [callUser]
  split
  · exact hfail _ _
  · refine grows_get fun m => ?_
    split
    · exact hfail _ _
    · refine (ih.args args pos ha).bind (k := 1) (fun given => ?_) (by omega)
      refine (grows_log _).bind (k := 1) (fun _ => ?_) (by omega)
      exact grows_truncating grows_pushResult

theorem grows_callOn (ih : GrowsAt env frames) (this : Value) (method : String)
    {args : List Node} (pos : Pos) (ha : Expressions args) :
    Grows 1 (callOn env (frames + 1) this method args pos) := by
  rw [callOn]
  cases env.library.methods.find? this.kind with
  | none => exact grows_fail _ _
  | some table =>
    cases hf : table.find? method with
    | none =>
      simp only [hf]
      exact grows_fail _ _
    | some f =>
      simp only [hf]
      refine (ih.args args pos ha).bind (k := 1) (fun given => ?_) (by omega)
      refine (grows_log _).bind (k := 1) (fun _ => ?_) (by omega)
      exact (grows_callMethod f method this given pos).bind grows_pushResult (by omega)

theorem grows_evalArgs (ih : GrowsAt env frames) {args : List Node} (pos : Pos)
    (ha : Expressions args) : Grows 0 (evalArgs env (frames + 1) args pos) := by
  have he (a : Node) (h : a ∈ args) := ih.expr a (ha a h).1 (ha a h).2
  refine grows_get fun m => ?_
  refine (grows_eachLeaving he _).bind (fun _ => grows_popMany pos _ _) ?_
  omega

theorem grows_holds (ih : GrowsAt env frames) {test : Node} (role : Role) (hw : test.WellFormed)
    (hx : test.isExpr = true) : Grows 0 (holds env (frames + 1) test role) := by
  refine (ih.expr test hw hx).bind (k := -1) (fun _ => ?_) (by omega)
  refine (grows_pop _ _).bind (k := 0) (fun v => ?_) (by omega)
  cases v with
  | bool b => exact grows_pure b
  | int n => exact grows_fail _ _
  | float x => exact grows_fail _ _
  | string text => exact grows_fail _ _

theorem grows_execFor (ih : GrowsAt env frames) (pos : Pos) (name : String) {low high : Node}
    (body : List Node) (ha : Expressions [low, high]) :
    Grows 0 (execFor env (frames + 1) pos name low high body) := by
  obtain ⟨⟨hlw, hlx⟩, hhw, hhx⟩ : _ ∧ _ := ⟨ha low (by simp), ha high (by simp)⟩
  refine (ih.expr low hlw hlx).bind (k := -1) (fun _ => ?_) (by omega)
  refine (ih.expr high hhw hhx).bind (k := -2) (fun _ => ?_) (by omega)
  refine (grows_pop _ _).bind (k := -1) (fun v => ?_) (by omega)
  refine (grows_boundOf v _).bind (k := -1) (fun last => ?_) (by omega)
  refine (grows_pop _ _).bind (k := 0) (fun w => ?_) (by omega)
  refine (grows_boundOf w _).bind (k := 0) (fun first => ?_) (by omega)
  exact (grows_bind name _).bind (fun _ => grows_countUp name _ _ _) (by omega)

theorem growsAt (env : Env) (frames : Nat) : GrowsAt env frames := by
  induction frames with
  | zero =>
    constructor
    all_goals
      intros
      exact grows_fail _ none
  | succ frames ih =>
    constructor
    case expr => exact fun n hw hx => grows_exec ih hw hx
    case holds => exact fun test role hw hx => grows_holds ih role hw hx
    case forLoop => exact fun pos name low high body ha => grows_execFor ih pos name body ha
    case args => exact fun args pos ha => grows_evalArgs ih pos ha
    case named => exact fun name args pos ha => grows_callNamed ih name pos ha
    case user => exact fun f args pos ha => grows_callUser ih f pos ha
    case method => exact fun this method args pos ha => grows_callOn ih this method pos ha

/-- Loops and declarations leave nothing. -/
def Silent : Node → Prop
  | .whileLoop .. | .forLoop .. | .fnDecl .. => True
  | _ => False

theorem grows_silent {n : Node} (hw : n.WellFormed) (hs : Silent n) :
    Grows 0 (exec env frames n) := by
  have hp := hw.proper
  have hc {m : Node} (hm : m ∈ n.children) : m.WellFormed := hw.child hm
  cases frames with
  | zero => exact grows_fail _ none
  | succ frames =>
    cases n with
    | whileLoop pos test body =>
      exact grows_repeatWhile ((growsAt env frames).holds test _ (hc List.mem_cons_self) hp) _ _
    | forLoop pos name low high body =>
      refine (growsAt env frames).forLoop pos name low high body fun a ha => ?_
      rcases List.mem_cons.mp ha with rfl | ha
      · exact ⟨hc List.mem_cons_self, hp.2.1⟩
      · cases List.mem_singleton.mp ha
        exact ⟨hc (List.mem_cons_of_mem _ List.mem_cons_self), hp.2.2⟩
    | fnDecl pos name params body => exact grows_declare _
    | _ => exact hs.elim

end ExScript.Eval
