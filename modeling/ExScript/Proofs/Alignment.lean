import ExScript.Proofs.Congruence
import ExScript.Proofs.MovedPositions
import ExScript.Session

/-!
# Runs of aligned programs

Machines are aligned if they differ at most in the positions inside of declared functions and in
their logs.  On such machines aligned statements are run alike, and where the run stops the machines are
aligned again (`statements_aligned`).
-/

namespace ExScript

variable {R S : Pos → Pos → Prop}

/-! ## Machines -/

/-- The same names in the same order, with entries in relation. -/
def Table.Related {α β : Type} (r : α → β → Prop) (t : Table α) (u : Table β) : Prop :=
  List.Forall₂ (fun a b => a.1 = b.1 ∧ r a.2 b.2) t.entries u.entries

namespace Table

theorem Related.find? {α β : Type} {r : α → β → Prop} {t : Table α} {u : Table β}
    (h : t.Related r u) (name : String) : Option.Rel r (t.find? name) (u.find? name) := by
  obtain ⟨entries⟩ := t
  obtain ⟨entries'⟩ := u
  change List.Forall₂ _ entries entries' at h
  change Option.Rel r (entries.lookup name) (entries'.lookup name)
  induction h with
  | nil => exact .none
  | @cons a b as bs hab _ ih =>
    rw [List.lookup_cons, List.lookup_cons, hab.1]
    split
    · exact .some hab.2
    · exact ih

theorem Related.insert {α β : Type} {r : α → β → Prop} {t : Table α} {u : Table β}
    (h : t.Related r u) (name : String) {a : α} {b : β} (hab : r a b) :
    (t.insert name a).Related r (u.insert name b) := by
  obtain ⟨entries⟩ := t
  obtain ⟨entries'⟩ := u
  change List.Forall₂ _ entries entries' at h
  change List.Forall₂ _ (insertEntry name a entries) (insertEntry name b entries')
  induction h with
  | nil => exact .cons ⟨rfl, hab⟩ .nil
  | @cons x y xs ys hxy hrest ih =>
    rw [insertEntry, insertEntry, hxy.1]
    split
    · exact .cons ⟨rfl, hab⟩ hrest
    · exact .cons ⟨rfl, hxy.2⟩ ih

end Table

/-- Positions in declared functions are in relation, and logs are left aside. -/
structure Machine.Aligned (R : Pos → Pos → Prop) (m m' : Machine) : Prop where
  scopes : m.scopes = m'.scopes
  channel : m.channel = m'.channel
  depth : m.depth = m'.depth
  streams : m.streams = m'.streams
  functions : m.functions.Related (UserFunction.Aligned R) m'.functions

theorem Machine.Aligned.logs {m m' : Machine} (h : m.Aligned R m') (l l' : List LogRecord) :
    Machine.Aligned R { m with log := l } { m' with log := l' } :=
  ⟨h.scopes, h.channel, h.depth, h.streams, h.functions⟩

/-- Every position is in relation with the one it is moved to. -/
theorem Node.aligned_mapPos {f : Pos → Pos} {n : Node} (h : ∀ k, Inside n k → R k.pos (f k.pos)) :
    n.Aligned R (n.mapPos f) := by
  induction n using childInduction with
  | step n ih =>
  have hp : R n.pos (f n.pos) := h n .root
  have below {m : Node} (hm : m ∈ n.children) : m.Aligned R (m.mapPos f) :=
    ih m hm fun k hk => h k (.of_child hm hk)
  have all {ns : List Node} (hs : ns ⊆ n.children) :
      List.Forall₂ (Node.Aligned R) ns (mapPosAll f ns) := by
    rw [mapPosAll_eq_map]
    exact List.forall₂_map_right_iff.mpr (List.forall₂_same.mpr fun m hm => below (hs hm))
  cases n with
  | int _ value => exact .int hp value
  | float _ value => exact .float hp value
  | string _ text => exact .string hp text
  | bool _ value => exact .bool hp value
  | var _ name => exact .var hp name
  | unary _ op operand => exact .unary hp op (below List.mem_cons_self)
  | binary _ op left right =>
    exact .binary hp op (below List.mem_cons_self)
      (below (List.mem_cons_of_mem _ List.mem_cons_self))
  | call _ name args => exact .call hp name (all (List.Subset.refl _))
  | methodCall _ receiver method args =>
    exact .methodCall hp receiver method (all (List.Subset.refl _))
  | exprMethodCall _ receiver method args =>
    exact .exprMethodCall hp (below List.mem_cons_self) method (all (List.subset_cons_self ..))
  | assign _ name value => exact .assign hp name (below List.mem_cons_self)
  | fnDecl _ name params body => exact .fnDecl hp name params (all (List.Subset.refl _))
  | ret _ value => exact .ret hp (below List.mem_cons_self)
  | cond p test thenBody elseBody =>
    have hthen : thenBody ⊆ (cond p test thenBody elseBody).children :=
      fun m hm => List.mem_cons_of_mem _ (List.mem_append_left _ hm)
    refine .cond hp (below List.mem_cons_self) (all hthen) ?_
    cases elseBody with
    | none => exact .none
    | some body =>
      exact .some (all fun m hm => List.mem_cons_of_mem _ (List.mem_append_right _ hm))
  | whileLoop _ test body =>
    exact .whileLoop hp (below List.mem_cons_self) (all (List.subset_cons_self ..))
  | forLoop _ x low high body =>
    exact .forLoop hp x (below List.mem_cons_self)
      (below (List.mem_cons_of_mem _ List.mem_cons_self))
      (all fun m hm => List.mem_cons_of_mem _ (List.mem_cons_of_mem _ hm))
  | block _ body => exact .block hp (all (List.Subset.refl _))
  | unknown _ sort expr => exact .unknown hp sort expr

namespace Eval

variable {α β : Type} {m m' : Machine}

/-- The same value or aligned interrupts, with aligned machines. -/
def OutcomesAligned (R : Pos → Pos → Prop) : Outcome α → Outcome α → Prop
  | .ok a m, .ok b m' => a = b ∧ m.Aligned R m'
  | .error e m, .error e' m' => e.Aligned R e' ∧ m.Aligned R m'
  | _, _ => False

/-- On aligned machines the two evaluations end alike. -/
def EvalsAligned (R : Pos → Pos → Prop) (p q : Eval α) : Prop :=
  ∀ m m', m.Aligned R m' → OutcomesAligned R (p m) (q m')

theorem evalsAligned_pure (a : α) : EvalsAligned R (pure a) (pure a) := fun _ _ h => ⟨rfl, h⟩

theorem EvalsAligned.bind {p q : Eval α} {f g : α → Eval β} (h : EvalsAligned R p q)
    (hf : ∀ a, EvalsAligned R (f a) (g a)) : EvalsAligned R (p >>= f) (q >>= g) := by
  intro m m' hm
  have hpq := h m m' hm
  change OutcomesAligned R (EStateM.bind p f m) (EStateM.bind q g m')
  rw [EStateM.bind, EStateM.bind]
  cases hp : p m <;> cases hq : q m' <;> rw [hp, hq] at hpq
  case ok.ok a m₁ b m₁' =>
    obtain ⟨rfl, hm₁⟩ := hpq
    exact hf a m₁ m₁' hm₁
  case error.error => exact hpq
  all_goals cases hpq

theorem evalsAligned_throw {e e' : Interrupt} (h : e.Aligned R e') :
    EvalsAligned R (throw e : Eval α) (throw e') :=
  fun _ _ hm => ⟨h, hm⟩

theorem evalsAligned_fail (cause : Cause) {p q : Pos} (h : R p q) :
    EvalsAligned R (fail cause (some p) : Eval α) (fail cause (some q)) :=
  evalsAligned_throw (.failed cause (.some h))

theorem evalsAligned_get {f g : Machine → Eval α}
    (h : ∀ m m', m.Aligned R m' → EvalsAligned R (f m) (g m')) :
    EvalsAligned R (get >>= f) (get >>= g) :=
  fun m m' hm => h m m' hm m m' hm

theorem evalsAligned_modify {f g : Machine → Machine}
    (h : ∀ m m', m.Aligned R m' → (f m).Aligned R (g m')) :
    EvalsAligned R (modify f : Eval Unit) (modify g) :=
  fun m m' hm => ⟨rfl, h m m' hm⟩

theorem evalsAligned_log (r r' : LogRecord) : EvalsAligned R (log r) (log r') :=
  evalsAligned_modify fun _ _ h => h.logs _ _

theorem evalsAligned_setChannel (channel : List Value) :
    EvalsAligned R (modify fun m => { m with channel := channel } : Eval Unit)
      (modify fun m => { m with channel := channel }) :=
  evalsAligned_modify fun _ _ h => ⟨h.scopes, rfl, h.depth, h.streams, h.functions⟩

theorem evalsAligned_push (v : Value) : EvalsAligned R (push v) (push v) :=
  evalsAligned_modify fun _ _ h =>
    ⟨h.scopes, congrArg (v :: ·) h.channel, h.depth, h.streams, h.functions⟩

theorem evalsAligned_pop (role : Role) {p q : Pos} (h : R p q) :
    EvalsAligned R (pop role (some p)) (pop role (some q)) := by
  refine evalsAligned_get fun m m' hm => ?_
  rw [← hm.channel]
  cases m.channel with
  | nil => exact evalsAligned_fail _ h
  | cons v rest => exact (evalsAligned_setChannel rest).bind fun _ => evalsAligned_pure v

theorem evalsAligned_height : EvalsAligned R height height := by
  refine evalsAligned_get fun m m' hm => ?_
  rw [hm.channel]
  exact evalsAligned_pure _

theorem evalsAligned_truncate (n : Nat) : EvalsAligned R (truncate n) (truncate n) := by
  refine evalsAligned_modify fun m m' h => ⟨h.scopes, ?_, h.depth, h.streams, h.functions⟩
  rw [h.channel]

theorem evalsAligned_lookup (name : String) : EvalsAligned R (lookup? name) (lookup? name) := by
  refine evalsAligned_get fun m m' hm => ?_
  rw [hm.scopes]
  exact evalsAligned_pure _

theorem evalsAligned_assign (name : String) (v : Value) :
    EvalsAligned R (Eval.bind name v) (Eval.bind name v) :=
  evalsAligned_modify fun _ _ h =>
    ⟨congrArg (Scopes.bind · name v) h.scopes, h.channel, h.depth, h.streams, h.functions⟩

theorem evalsAligned_settle (name : String) (before : Nat) {p q : Pos} (h : R p q) :
    EvalsAligned R (settle name p before) (settle name q before) := by
  refine evalsAligned_get fun m m' hm => ?_
  rw [← hm.channel]
  cases m.channel with
  | nil => exact evalsAligned_fail _ h
  | cons v rest =>
    dsimp only
    split
    · exact evalsAligned_fail _ h
    · exact (evalsAligned_setChannel rest).bind fun _ => evalsAligned_assign name v

theorem evalsAligned_declare {f g : UserFunction} (h : f.Aligned R g) :
    EvalsAligned R (declare f) (declare g) := by
  have hinsert : EvalsAligned R
      (modify fun m => { m with functions := m.functions.insert f.name f } : Eval Unit)
      (modify fun m => { m with functions := m.functions.insert g.name g }) := by
    refine evalsAligned_modify fun m m' hm => ?_
    rw [← h.name]
    exact ⟨hm.scopes, hm.channel, hm.depth, hm.streams, hm.functions.insert f.name h⟩
  refine evalsAligned_get fun m m' _ => ?_
  dsimp only
  split <;> split
  all_goals exact (evalsAligned_log _ _).bind fun _ => hinsert

theorem evalsAligned_callee (name : String) {k k' : UserFunction → Eval Unit} {z z' : Eval Unit}
    (hk : ∀ f g, f.Aligned R g → EvalsAligned R (k f) (k' g)) (hz : EvalsAligned R z z') :
    EvalsAligned R (do match (← get).functions.find? name with | some f => k f | none => z)
      (do match (← get).functions.find? name with | some f => k' f | none => z') := by
  refine evalsAligned_get fun m m' hm => ?_
  have hfind := hm.functions.find? name
  generalize m.functions.find? name = found, m'.functions.find? name = found' at hfind
  cases hfind with
  | none => exact hz
  | some h => exact hk _ _ h

theorem evalsAligned_callFunction (f : LibraryFunction) (name : String) (args : List Value)
    {p q : Pos} (h : R p q) :
    EvalsAligned R (callFunction f name args p) (callFunction f name args q) := by
  have hset (streams : Streams) : EvalsAligned R
      (modify fun m => { m with streams := streams } : Eval Unit)
      (modify fun m => { m with streams := streams }) :=
    evalsAligned_modify fun _ _ h => ⟨h.scopes, h.channel, h.depth, rfl, h.functions⟩
  have htake : EvalsAligned R
      (modifyGet fun m => (m.streams, { m with streams := default }) : Eval Streams)
      (modifyGet fun m => (m.streams, { m with streams := default })) := fun _ _ h =>
    ⟨h.streams, h.scopes, h.channel, h.depth, rfl, h.functions⟩
  refine htake.bind fun streams => ?_
  cases f args streams with
  | ok result streams => exact (hset streams).bind fun _ => evalsAligned_pure result
  | error fault streams =>
    refine (hset streams).bind fun _ => ?_
    cases fault with
    | error e => exact evalsAligned_fail _ h
    | crash c => exact evalsAligned_throw (.crashed c)

theorem evalsAligned_checkDepth (env : Env) (name : String) {p q : Pos} (h : R p q) :
    EvalsAligned R (checkDepth env name p) (checkDepth env name q) := by
  refine evalsAligned_get fun m m' hm => ?_
  rw [hm.depth]
  split
  · exact evalsAligned_fail _ h
  · exact evalsAligned_pure ()

theorem evalsAligned_leave : EvalsAligned R leave leave := by
  refine evalsAligned_get fun m m' hm => ?_
  rw [hm.scopes]
  cases m'.scopes.pop with
  | ok scopes =>
    refine evalsAligned_modify fun _ _ h => ⟨rfl, h.channel, ?_, h.streams, h.functions⟩
    exact congrArg (· - 1) h.depth
  | error c => exact evalsAligned_throw (.crashed c)

theorem EvalsAligned.attempt {p q : Eval α} (h : EvalsAligned R p q)
    {f g : Except Interrupt α → Eval β} (hok : ∀ a, EvalsAligned R (f (.ok a)) (g (.ok a)))
    (herror : ∀ e e', e.Aligned R e' → EvalsAligned R (f (.error e)) (g (.error e'))) :
    EvalsAligned R (Eval.attempt p >>= f) (Eval.attempt q >>= g) := by
  intro m m' hm
  have hpq := h m m' hm
  change OutcomesAligned R (EStateM.bind (Eval.attempt p) f m) (EStateM.bind (Eval.attempt q) g m')
  rw [EStateM.bind, EStateM.bind, Eval.attempt, Eval.attempt]
  cases hp : p m <;> cases hq : q m' <;> rw [hp, hq] at hpq
  case ok.ok a m₁ b m₁' =>
    obtain ⟨rfl, hm₁⟩ := hpq
    exact hok a m₁ m₁' hm₁
  case error.error e m₁ e' m₁' => exact herror e e' hpq.1 m₁ m₁' hpq.2
  all_goals cases hpq

theorem EvalsAligned.inFrame {p q : Eval Unit} (h : EvalsAligned R p q) :
    EvalsAligned R (inFrame p) (inFrame q) := by
  have henter : EvalsAligned R enter enter := evalsAligned_modify fun _ _ h =>
    ⟨congrArg Scopes.push h.scopes, h.channel, congrArg (· + 1) h.depth, h.streams, h.functions⟩
  refine henter.bind fun _ => h.attempt (fun _ => ?_) fun e e' he => ?_
  · exact evalsAligned_leave.bind fun _ => evalsAligned_pure none
  · refine evalsAligned_leave.bind fun _ => ?_
    cases he with
    | returned v => exact evalsAligned_pure (some v)
    | failed cause hp => exact evalsAligned_throw (.failed cause hp)
    | crashed c => exact evalsAligned_throw (.crashed c)
    | outOfRounds => exact evalsAligned_throw .outOfRounds

theorem alignedCongruence (R : Pos → Pos → Prop) (env : Env) :
    Congruence R env env (EvalsAligned R) where
  library := rfl
  rounds := rfl
  pure := evalsAligned_pure
  bind := EvalsAligned.bind
  throw := evalsAligned_throw
  log r := evalsAligned_log r r
  push := evalsAligned_push
  pop role _ _ h := evalsAligned_pop role h
  height := evalsAligned_height
  truncate := evalsAligned_truncate
  settle name before _ _ h := evalsAligned_settle name before h
  lookup := evalsAligned_lookup
  assign := evalsAligned_assign
  declare := evalsAligned_declare
  callee name _ _ _ _ hk hz := evalsAligned_callee name hk hz
  callFunction _ args _ _ h := evalsAligned_callFunction _ _ args h
  checkDepth name _ _ h := evalsAligned_checkDepth env name h
  inFrame := EvalsAligned.inFrame

theorem statements_aligned (env : Env) (frames : Nat) {body body' : List Node}
    (hbody : List.Forall₂ (Node.Aligned R) body body') (hm : m.Aligned R m') :
    OutcomesAligned R (body.forM (exec env frames) m) (body'.forM (exec env frames) m') :=
  ((alignedCongruence R env).congruent (frames + 1)).body hbody m m' hm

end Eval

end ExScript
