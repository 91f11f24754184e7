import ExScript.Proofs.RelatedTrees

/-!
# The same run with other functions

A map on functions and a map on positions take a machine to a machine and an outcome to an outcome.
`Carries` relates two evaluations if the second one does on every mapped machine what the first one
does on the machine itself, mapped as well.  All steps of an evaluation are related to themselves in
this way (`carries_steps`); declaring and looking up functions goes through the map.
-/

namespace ExScript

/-! ## Machines and outcomes -/

def Table.map {α β : Type} (f : α → β) (t : Table α) : Table β :=
  ⟨t.entries.map fun entry => (entry.1, f entry.2)⟩

namespace Table

variable {α β : Type} (f : α → β) (t : Table α) (name : String)

theorem find?_map : (t.map f).find? name = (t.find? name).map f := by
  cases t with
  | mk entries =>
    change (List.map _ entries).lookup name = (entries.lookup name).map f
    induction entries with
    | nil => rfl
    | cons entry rest ih =>
      rw [List.map_cons, List.lookup_cons, List.lookup_cons, ih]
      split <;> rfl

theorem contains_map : (t.map f).contains name = t.contains name := by
  rw [contains, find?_map, Option.isSome_map, contains]

theorem map_insert (a : α) : (t.insert name a).map f = (t.map f).insert name (f a) := by
  cases t with
  | mk entries =>
    refine congrArg Table.mk ?_
    change List.map _ (insertEntry name a entries) = insertEntry name (f a) (List.map _ entries)
    induction entries with
    | nil => rfl
    | cons entry rest ih =>
      obtain ⟨n, b⟩ := entry
      by_cases h : n = name
      · simp [insertEntry, h]
      · simp [insertEntry, h, ih]

end Table

def Machine.mapFunctions (g : UserFunction → UserFunction) (m : Machine) : Machine :=
  { m with functions := m.functions.map g }

/-- Whether there is a position is kept. -/
def RunError.mapPos (f : Pos → Pos) (e : RunError) : RunError := { e with pos := e.pos.map f }

def Abort.mapPos (f : Pos → Pos) : Abort → Abort
  | .failed e => .failed (e.mapPos f)
  | a => a

theorem Abort.mapPos_id (a : Abort) : a.mapPos id = a := by
  cases a with
  | failed e => rw [mapPos, RunError.mapPos, Option.map_id_fun, id]
  | crashed c => rfl
  | outOfRounds => rfl

def Interrupt.mapPos (f : Pos → Pos) : Interrupt → Interrupt
  | .abort a => .abort (a.mapPos f)
  | .returned v => .returned v

theorem Interrupt.Aligned.eq_mapPos {R : Pos → Pos → Prop} {f : Pos → Pos}
    (hR : ∀ p q, R p q → q = f p) {e e' : Interrupt} (h : e.Aligned R e') : e' = e.mapPos f := by
  cases h with
  | failed cause hp =>
    cases hp with
    | none => rfl
    | some hp => exact hR _ _ hp ▸ rfl
  | crashed c => rfl
  | outOfRounds => rfl
  | returned v => rfl

namespace Eval

variable {α β : Type} {g : UserFunction → UserFunction} {f : Pos → Pos}

def mapOutcome (g : UserFunction → UserFunction) (f : Pos → Pos) : Outcome α → Outcome α
  | .ok a m => .ok a (m.mapFunctions g)
  | .error e m => .error (e.mapPos f) (m.mapFunctions g)

/-- On a mapped machine the second evaluation ends like the first one, but for the maps. -/
def Carries (g : UserFunction → UserFunction) (f : Pos → Pos) (p q : Eval α) : Prop :=
  ∀ m : Machine, q (m.mapFunctions g) = mapOutcome g f (p m)

/-! ## Steps -/

theorem carries_pure (a : α) : Carries g f (pure a : Eval α) (pure a) := fun _ => rfl

theorem Carries.bind {p q : Eval α} {k k' : α → Eval β} (h : Carries g f p q)
    (hk : ∀ a, Carries g f (k a) (k' a)) : Carries g f (p >>= k) (q >>= k') := by
  intro m
  change EStateM.bind q k' (m.mapFunctions g) = mapOutcome g f (EStateM.bind p k m)
  rw [EStateM.bind, EStateM.bind, h m]
  cases p m with
  | ok a m₁ => exact hk a m₁
  | error e m₁ => rfl

/-- Behind an evaluation that never comes to its end anything may follow. -/
theorem Carries.bind_of_stops {p q : Eval α} (h : Carries g f p q) (hs : ∀ m a m', p m ≠ .ok a m')
    (k k' : α → Eval β) : Carries g f (p >>= k) (q >>= k') := by
  intro m
  change EStateM.bind q k' (m.mapFunctions g) = mapOutcome g f (EStateM.bind p k m)
  rw [EStateM.bind, EStateM.bind, h m]
  cases hp : p m with
  | ok a m₁ => exact absurd hp (hs m a m₁)
  | error e m₁ => rfl

/-- What is observed of the machine may be anything that the map does not change. -/
theorem carries_get {k k' : Machine → Eval α} (h : ∀ m, Carries g f (k m) (k' (m.mapFunctions g))) :
    Carries g f (get >>= k) (get >>= k') :=
  fun m => h m m

theorem carries_modify {k k' : Machine → Machine}
    (h : ∀ m, k' (m.mapFunctions g) = (k m).mapFunctions g) :
    Carries g f (modify k : Eval Unit) (modify k') :=
  fun m => congrArg (EStateM.Result.ok ()) (h m)

theorem carries_throw (e : Interrupt) : Carries g f (throw e : Eval α) (throw (e.mapPos f)) :=
  fun _ => rfl

theorem carries_fail (cause : Cause) {p q : Pos} (h : q = f p) :
    Carries g f (fail cause (some p) : Eval α) (fail cause (some q)) := by
  rw [h]
  exact carries_throw (.abort (.failed ⟨cause, some p⟩))

theorem carries_crash (c : Crash) : Carries g f (crash c : Eval α) (crash c) :=
  carries_throw (.abort (.crashed c))

theorem carries_setChannel (channel : List Value) :
    Carries g f (modify fun m => { m with channel := channel } : Eval Unit)
      (modify fun m => { m with channel := channel }) :=
  carries_modify fun _ => rfl

theorem carries_assign (name : String) (v : Value) :
    Carries g f (Eval.bind name v) (Eval.bind name v) :=
  carries_modify fun _ => rfl

theorem carries_log (r : LogRecord) : Carries g f (log r) (log r) := carries_modify fun _ => rfl

theorem carries_pop (role : Role) {p q : Pos} (h : q = f p) :
    Carries g f (pop role (some p)) (pop role (some q)) := by
  refine carries_get fun m => ?_
  dsimp only [Machine.mapFunctions]
  cases m.channel with
  | nil => exact carries_fail _ h
  | cons v rest => exact (carries_setChannel rest).bind fun _ => carries_pure v

theorem carries_settle (name : String) (before : Nat) {p q : Pos} (h : q = f p) :
    Carries g f (settle name p before) (settle name q before) := by
  refine carries_get fun m => ?_
  dsimp only [Machine.mapFunctions]
  cases m.channel with
  | nil => exact carries_fail _ h
  | cons v rest =>
    dsimp only
    split
    · exact carries_fail _ h
    · exact (carries_setChannel rest).bind fun _ => carries_assign name v

theorem carries_callFunction (c : LibraryFunction) (name : String) (args : List Value) {p q : Pos}
    (h : q = f p) : Carries g f (callFunction c name args p) (callFunction c name args q) := by
  have hset (streams : Streams) : Carries g f
      (modify fun m => { m with streams := streams } : Eval Unit)
      (modify fun m => { m with streams := streams }) := carries_modify fun _ => rfl
  have htake : Carries g f
      (modifyGet fun m => (m.streams, { m with streams := default }) : Eval Streams)
      (modifyGet fun m => (m.streams, { m with streams := default })) := fun _ => rfl
  refine htake.bind fun streams => ?_
  cases c args streams with
  | ok result streams => exact (hset streams).bind fun _ => carries_pure result
  | error fault streams =>
    refine (hset streams).bind fun _ => ?_
    cases fault with
    | error e => exact carries_fail _ h
    | crash c => exact carries_crash c

theorem carries_checkDepth (env : Env) (name : String) {p q : Pos} (h : q = f p) :
    Carries g f (checkDepth env name p) (checkDepth env name q) := by
  refine carries_get fun m => ?_
  change Carries g f _ (if env.maxDepth ≤ (m.depth : Int) then _ else _)
  split
  · exact carries_fail _ h
  · exact carries_pure ()

theorem carries_leave : Carries g f leave leave := by
  refine carries_get fun m => ?_
  dsimp only [Machine.mapFunctions]
  cases m.scopes.pop with
  | ok scopes => exact carries_modify fun _ => rfl
  | error c => exact carries_crash c

theorem inFrame_run (p : Eval Unit) (m : Machine) :
    inFrame p m = match p (calling m) with
      | .ok () m' => (do leave; return none : Eval (Option Value)) m'
      | .error (.returned v) m' => (do leave; return some v : Eval (Option Value)) m'
      | .error (.abort a) m' => (do leave; throw (.abort a) : Eval (Option Value)) m' := by
  unfold inFrame
  change EStateM.bind (attempt p) _ (calling m) = _
  rw [EStateM.bind, attempt]
  cases p (calling m) with
  | ok a m' => rfl
  | error e m' => cases e <;> rfl

theorem Carries.inFrame {p q : Eval Unit} (h : Carries g f p q) :
    Carries g f (inFrame p) (inFrame q) := by
  intro m
  have hstart : calling (m.mapFunctions g) = (calling m).mapFunctions g := rfl
  rw [inFrame_run, inFrame_run, hstart, h]
  cases p (calling m) with
  | ok a m' => exact carries_leave.bind (fun _ => carries_pure none) m'
  | error e m' =>
    cases e with
    | abort a => exact carries_leave.bind (fun _ => carries_throw (.abort a)) m'
    | returned v => exact carries_leave.bind (fun _ => carries_pure (some v)) m'

theorem carries_steps {R : Pos → Pos → Prop} (hR : ∀ p q, R p q → q = f p) (env : Env) :
    StepClosed R env env (Carries g f) where
  library := rfl
  rounds := rfl
  pure := carries_pure
  bind := Carries.bind
  throw h := h.eq_mapPos hR ▸ carries_throw _
  log := carries_log
  push _ := carries_modify fun _ => rfl
  pop role _ _ h := carries_pop role (hR _ _ h)
  height := carries_get fun m => carries_pure m.channel.length
  truncate _ := carries_modify fun _ => rfl
  settle name before _ _ h := carries_settle name before (hR _ _ h)
  lookup name := carries_get fun m => carries_pure (m.scopes.get? name)
  assign := carries_assign
  callFunction _ args _ _ h := carries_callFunction _ _ args (hR _ _ h)
  checkDepth name _ _ h := carries_checkDepth env name (hR _ _ h)
  inFrame := Carries.inFrame

/-! ## Functions -/

theorem carries_declare {u : UserFunction} (hname : (g u).name = u.name)
    (hparams : (g u).params = u.params) : Carries g f (declare u) (declare (g u)) := by
  have hinsert : Carries g f
      (modify fun m => { m with functions := m.functions.insert u.name u } : Eval Unit)
      (modify fun m => { m with functions := m.functions.insert u.name (g u) }) := by
    refine carries_modify fun m => ?_
    rw [Machine.mapFunctions, Machine.mapFunctions, Table.map_insert]
  rw [declare, declare, hname, hparams]
  refine carries_get fun m => ?_
  change Carries g f _ (if (m.functions.map g).contains u.name = true then _ else _)
  rw [Table.contains_map]
  split
  · exact (carries_log _).bind fun _ => hinsert
  · exact (carries_log _).bind fun _ => hinsert

/-- A function of the program is looked up. -/
theorem carries_callee (name : String) {k k' : UserFunction → Eval Unit} {z z' : Eval Unit}
    (hk : ∀ u, Carries g f (k u) (k' (g u))) (hz : Carries g f z z') :
    Carries g f (do match (← get).functions.find? name with | some u => k u | none => z)
      (do match (← get).functions.find? name with | some u => k' u | none => z') := by
  refine carries_get fun m => ?_
  change Carries g f _ (match (m.functions.map g).find? name with | some u => _ | none => _)
  rw [Table.find?_map]
  cases m.functions.find? name with
  | none => exact hz
  | some u => exact hk u

end Eval

end ExScript
