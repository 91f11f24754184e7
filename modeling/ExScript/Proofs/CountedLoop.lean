import ExScript.Proofs.Confinement
import ExScript.Session

/-!
# Loops that count

A `for` loop evaluates its bounds once and then counts on its own: the body is executed on one
machine after the other, and each of them has the variable bound to the counter, whatever the body
does to it.  `CountedLoop` says which machines these are and how the loop ends.  It holds of
whatever is repeated (`countUp_counts`), and so of all loops with integral bounds
(`exec_forLoop_counts`).
-/

namespace ExScript

/-- An integer, or a finite double without fraction. -/
inductive Value.Whole : Value → Int → Prop
  | int (n : Int) : Whole (.int n) n
  | float {x : Float} (h : Number.isIntegral x = true) : Whole (.float x) (Number.truncate x)

/-- The variable of a loop is bound to its counter. -/
def Machine.counting (m : Machine) (name : String) (i : Int) : Machine :=
  { m with scopes := m.scopes.bind name (.int i) }

/-- What was put on the channel since the start is dropped. -/
def Machine.cutTo (m start : Machine) : Machine :=
  { m with channel := m.channel.drop (m.channel.length - start.channel.length) }

theorem Machine.get?_counting (m : Machine) (name : String) (i : Int) :
    (m.counting name i).scopes.get? name = some (.int i) :=
  (Scopes.get?_bind _ _ _ _).trans (if_pos rfl)

namespace Eval

/-- A loop that counts from `lo` up to `hi`, on a machine where the variable is bound to `lo`.  The
body is executed on the machines `starts`, one after the other. -/
structure CountedLoop (name : String) (body : Eval Unit) (lo hi : Int) (m : Machine)
    (starts : List Machine) (r : EStateM.Result Interrupt Machine Unit) : Prop where
  length_le : starts.length ≤ (hi - lo).toNat
  first : lo < hi → starts[0]? = some m
  bound : ∀ (k : Nat) (s : Machine), starts[k]? = some s →
    s.scopes.get? name = some (.int (lo + k))
  /-- A round that is completed is followed by the next one, if the counter is below `hi`. -/
  next : ∀ (k : Nat) (s s' : Machine), starts[k]? = some s → body s = .ok () s' →
    lo + k + 1 < hi → starts[k + 1]? = some ((s'.cutTo s).counting name (lo + k + 1))
  last : ∀ (k : Nat) (s s' : Machine), starts[k]? = some s → body s = .ok () s' →
    lo + k + 1 = hi → r = .ok () ((s'.cutTo s).counting name hi)
  empty : hi ≤ lo → r = .ok () m
  /-- If all rounds are completed, there are as many as there are integers from `lo` up to `hi`. -/
  completed : (∀ s ∈ starts, ∃ s', body s = .ok () s') →
    starts.length = max 0 (hi - lo) ∧
      ∃ m', r = .ok () m' ∧ m'.scopes.get? name = some (.int (max lo hi))
  /-- An interrupt of one round is that of the loop, and its machine is left as it is. -/
  interrupted : ∀ (k : Nat) (s : Machine) (e : Interrupt) (s' : Machine), starts[k]? = some s →
    body s = .error e s' → starts.length = k + 1 ∧ r = .error e s'

variable {name : String} {body : Eval Unit} {lo hi : Int} {m m' : Machine}

theorem countUp_round (h : body m = .ok () m') (rounds : Nat) (i : Int) :
    countUp name body (rounds + 1) i m
      = countUp name body rounds (i + 1) ((m'.cutTo m).counting name (i + 1)) := by
  change EStateM.bind (EStateM.bind body fun _ => truncate m.channel.length) _ m = _
  simp only [EStateM.bind, h]
  rfl

theorem countUp_interrupted {e : Interrupt} (h : body m = .error e m') (rounds : Nat) (i : Int) :
    countUp name body (rounds + 1) i m = .error e m' := by
  change EStateM.bind (EStateM.bind body fun _ => truncate m.channel.length) _ m = _
  simp only [EStateM.bind, h]

theorem countedLoop_nil (hle : hi ≤ lo) (hm : m.scopes.get? name = some (.int lo)) :
    CountedLoop name body lo hi m [] (.ok () m) where
  length_le := Nat.zero_le _
  first h := absurd h (Int.not_lt.mpr hle)
  bound := nofun
  next := nofun
  last := nofun
  empty _ := rfl
  completed _ := by
    refine ⟨(Int.max_eq_left (Int.sub_nonpos_of_le hle)).symm, m, rfl, ?_⟩
    rwa [Int.max_eq_left hle]
  interrupted := nofun

/-- The first round is interrupted. -/
theorem countedLoop_interrupted (hlt : lo < hi) (hm : m.scopes.get? name = some (.int lo))
    {e : Interrupt} (hb : body m = .error e m') :
    CountedLoop name body lo hi m [m] (.error e m') := by
  have hne (s' : Machine) : body m ≠ .ok () s' := by simp [hb]
  constructor
  case length_le =>
    rw [List.length_singleton]
    omega
  case first => exact fun _ => rfl
  case empty => exact fun h => absurd hlt (Int.not_lt.mpr h)
  case completed =>
    intro h
    obtain ⟨s', hs⟩ := h m List.mem_cons_self
    exact absurd hs (hne s')
  case bound =>
    rintro (_ | k) s ⟨⟩
    rwa [Int.natCast_zero, Int.add_zero]
  case next =>
    rintro (_ | k) s s' ⟨⟩ h
    exact absurd h (hne s')
  case last =>
    rintro (_ | k) s s' ⟨⟩ h
    exact absurd h (hne s')
  case interrupted =>
    rintro (_ | k) s e' s' ⟨⟩ h
    cases hb.symm.trans h
    exact ⟨rfl, rfl⟩

/-- The first round is completed, and the loop goes on. -/
theorem CountedLoop.cons {starts : List Machine} {r : EStateM.Result Interrupt Machine Unit}
    (hlt : lo < hi) (hm : m.scopes.get? name = some (.int lo)) (hb : body m = .ok () m')
    (h : CountedLoop name body (lo + 1) hi ((m'.cutTo m).counting name (lo + 1)) starts r) :
    CountedLoop name body lo hi m (m :: starts) r := by
  have hshift (k : Nat) : lo + ((k + 1 : Nat) : Int) = lo + 1 + k := by omega
  constructor
  case length_le =>
    have hle := h.length_le
    rw [List.length_cons]
    omega
  case first => exact fun _ => rfl
  case empty => exact fun h => absurd hlt (Int.not_lt.mpr h)
  case completed =>
    intro hall
    obtain ⟨hlen, m₁, hr, hbound⟩ := h.completed fun s hs => hall s (List.mem_cons_of_mem _ hs)
    refine ⟨?_, m₁, hr, ?_⟩
    · rw [List.length_cons]
      omega
    · rwa [show max lo hi = max (lo + 1) hi by omega]
  case bound =>
    rintro (_ | k) s hs
    · cases hs
      rwa [Int.natCast_zero, Int.add_zero]
    · rw [hshift]
      exact h.bound k s hs
  case next =>
    rintro (_ | k) s s' hs hok hlast
    · cases hs
      cases hb.symm.trans hok
      simp only [Int.natCast_zero, Int.add_zero] at hlast ⊢
      exact h.first hlast
    · rw [hshift] at hlast ⊢
      exact h.next k s s' hs hok hlast
  case last =>
    rintro (_ | k) s s' hs hok hlast
    · cases hs
      cases hb.symm.trans hok
      simp only [Int.natCast_zero, Int.add_zero] at hlast
      rw [← hlast]
      exact h.empty (Int.le_of_eq hlast.symm)
    · rw [hshift] at hlast
      exact h.last k s s' hs hok hlast
  case interrupted =>
    rintro (_ | k) s e s' hs herr
    · cases hs
      cases hb.symm.trans herr
    · obtain ⟨hlen, hr⟩ := h.interrupted k s e s' hs herr
      exact ⟨congrArg (· + 1) hlen, hr⟩

/-- However often something is repeated, the repetitions are those of a loop. -/
theorem countUp_counts {rounds : Nat} (hr : (hi - lo).toNat = rounds)
    (hm : m.scopes.get? name = some (.int lo)) :
    ∃ starts, CountedLoop name body lo hi m starts (countUp name body rounds lo m) := by
  induction rounds generalizing lo m with
  | zero => exact ⟨[], countedLoop_nil (by omega) hm⟩
  | succ rounds ih =>
    have hlt : lo < hi := by omega
    cases hb : body m with
    | ok _ m' =>
      rw [countUp_round hb]
      obtain ⟨starts, h⟩ := ih (show (hi - (lo + 1)).toNat = rounds by omega)
        (Machine.get?_counting (m'.cutTo m) name (lo + 1))
      exact ⟨m :: starts, h.cons hlt hm hb⟩
    | error e m' =>
      rw [countUp_interrupted hb]
      exact ⟨[m], countedLoop_interrupted hlt hm hb⟩

theorem discarding_ok_iff : discarding body m = .ok () m' ↔
    ∃ m₁, body m = .ok () m₁ ∧ m' = m₁.cutTo m := by
  change (body >>= fun _ => truncate m.channel.length) m = _ ↔ _
  rw [bind_ok_iff]
  constructor
  · rintro ⟨_, m₁, hb, h⟩
    cases h
    exact ⟨m₁, hb, rfl⟩
  · rintro ⟨m₁, hb, rfl⟩
    exact ⟨(), m₁, hb, rfl⟩

/-- The machine of a round is the one on which the loop arrives after all rounds before it. -/
theorem CountedLoop.getElem?_iff {starts : List Machine}
    {r : EStateM.Result Interrupt Machine Unit} (h : CountedLoop name body lo hi m starts r)
    {k : Nat} {s : Machine} :
    starts[k]? = some s ↔ k < (hi - lo).toNat ∧ countUp name body k lo m = .ok () s := by
  have hlt {k : Nat} {s : Machine} (hk : starts[k]? = some s) : k < (hi - lo).toNat :=
    Nat.lt_of_lt_of_le (List.getElem?_eq_some_iff.mp hk).1 h.length_le
  induction k generalizing s with
  | zero =>
    constructor
    · intro hs
      have hpos := hlt hs
      rw [h.first (by omega)] at hs
      cases hs
      exact ⟨hpos, rfl⟩
    · rintro ⟨hpos, hs⟩
      cases hs
      exact h.first (by omega)
  | succ k ih =>
    have hcast : lo + ((k + 1 : Nat) : Int) = lo + k + 1 := by omega
    rw [countUp_succ, hcast]
    constructor
    · intro hs
      have hk := hlt hs
      obtain ⟨t, ht⟩ : ∃ t, starts[k]? = some t :=
        ⟨_, List.getElem?_eq_getElem (Nat.lt_of_succ_lt (List.getElem?_eq_some_iff.mp hs).1)⟩
      cases hb : body t with
      | error e t' =>
        have hlen := (h.interrupted k t e t' ht hb).1
        have := (List.getElem?_eq_some_iff.mp hs).1
        omega
      | ok _ t' =>
        rw [h.next k t t' ht hb (by omega)] at hs
        cases hs
        refine ⟨hk, bind_ok_iff.mpr ⟨(), t, (ih.mp ht).2, bind_ok_iff.mpr ⟨(), _, ?_, rfl⟩⟩⟩
        exact discarding_ok_iff.mpr ⟨t', hb, rfl⟩
    · rintro ⟨hk, hs⟩
      obtain ⟨_, t, ht, hs⟩ := bind_ok_iff.mp hs
      obtain ⟨_, _, hd, hs⟩ := bind_ok_iff.mp hs
      obtain ⟨t', hb, rfl⟩ := discarding_ok_iff.mp hd
      cases hs
      exact h.next k t t' (ih.mpr ⟨by omega, ht⟩) hb (by omega)

theorem CountedLoop.mem_iff {starts : List Machine}
    {r : EStateM.Result Interrupt Machine Unit} (h : CountedLoop name body lo hi m starts r)
    {s : Machine} :
    s ∈ starts ↔ ∃ k < (hi - lo).toNat, countUp name body k lo m = .ok () s := by
  rw [List.mem_iff_getElem?]
  exact exists_congr fun k => h.getElem?_iff

/-! ## Bounds -/

variable {env : Env} {frames : Nat} {pos : Pos} {low high : Node} {stmts : List Node}
  {m₁ m₂ : Machine} {v w : Value} {rest : List Value}

theorem boundOf_whole {n : Int} (h : v.Whole n) (pos : Pos) (m : Machine) :
    boundOf v pos m = .ok n m := by
  cases h with
  | int n => rfl
  | float h => simp only [boundOf, if_pos h]; rfl

theorem boundsOf_ok (hlow : exec env frames low m = .ok () m₁)
    (hhigh : exec env frames high m₁ = .ok () m₂) (hc : m₂.channel = w :: v :: rest)
    (hv : v.Whole lo) (hw : w.Whole hi) :
    boundsOf env frames pos low high m = .ok (lo, hi) { m₂ with channel := rest } := by
  refine bind_ok_iff.mpr ⟨_, _, hlow, bind_ok_iff.mpr ⟨_, _, hhigh, ?_⟩⟩
  refine bind_ok_iff.mpr ⟨_, _, pop_of_cons hc _ _, ?_⟩
  refine bind_ok_iff.mpr ⟨_, _, boundOf_whole hw _ _, ?_⟩
  refine bind_ok_iff.mpr ⟨_, _, pop_of_cons rfl _ _, ?_⟩
  exact bind_ok_iff.mpr ⟨_, _, boundOf_whole hv _ _, rfl⟩

/-- What a `for` loop with whole bounds does: the lower bound is evaluated, then the upper one, and
then the loop counts. -/
theorem exec_forLoop_counts (hlow : exec env frames low m = .ok () m₁)
    (hhigh : exec env frames high m₁ = .ok () m₂) (hc : m₂.channel = w :: v :: rest)
    (hv : v.Whole lo) (hw : w.Whole hi) :
    ∃ starts,
      CountedLoop name (execBody env frames stmts) lo hi
        ({ m₂ with channel := rest }.counting name lo) starts
        (exec env (frames + 2) (.forLoop pos name low high stmts) m) ∧
      ∀ t s, Starts env frames (.loop pos name low high stmts) m t s ↔
        t = .node low ∧ s = m ∨ t = .node high ∧ s = m₁ ∨ t = .statements stmts ∧ s ∈ starts := by
  have hbounds : boundsOf env frames pos low high m = _ := boundsOf_ok hlow hhigh hc hv hw
  have hrun : exec env (frames + 2) (.forLoop pos name low high stmts) m =
      countUp name (execBody env frames stmts) (hi - lo).toNat lo
        ({ m₂ with channel := rest }.counting name lo) := by
    rw [exec, execFor_succ]
    change EStateM.bind (boundsOf env frames pos low high) _ m = _
    simp only [EStateM.bind, hbounds]
    rfl
  obtain ⟨starts, hloop⟩ := countUp_counts rfl
    (Machine.get?_counting { m₂ with channel := rest } name lo)
  refine ⟨starts, hrun ▸ hloop, fun t s => ⟨fun hs => ?_, ?_⟩⟩
  · cases hs with
    | low => exact .inl ⟨rfl, rfl⟩
    | high h =>
      cases hlow.symm.trans h
      exact .inr (.inl ⟨rfl, rfl⟩)
    | round hb hr h =>
      cases hbounds.symm.trans hb
      exact .inr (.inr ⟨rfl, hloop.mem_iff.mpr ⟨_, hr, h⟩⟩)
  · rintro (⟨rfl, rfl⟩ | ⟨rfl, rfl⟩ | ⟨rfl, hs⟩)
    · exact .low
    · exact .high hlow
    · obtain ⟨k, hk, h⟩ := hloop.mem_iff.mp hs
      exact .round hbounds hk h

/-- The body of this loop assigns to its variable and to the one that is its lower bound.  Still it
is executed for one and for two. -/
theorem exec_forLoop_counts_assigned :
    let env := Env.standard 256
    let m := (Machine.initial ⟨[], ""⟩).counting "x" 1
    let low : Node := .var default "x"
    let high : Node := .float default (Number.ofInt 3)
    let stmts : List Node :=
      [.assign default "x" (.int default 8), .assign default "i" (.var default "x")]
    exec env 3 low m = .ok () { m with channel := [.int 1] } ∧
      (Value.float (Number.ofInt 3)).Whole 3 ∧
        ∃ starts, starts.length = 2 ∧
          CountedLoop "i" (execBody env 3 stmts) 1 3 (m.counting "i" 1) starts
            (exec env 5 (.forLoop default "i" low high stmts) m) := by
  intro env m low high stmts
  have htruncate : Number.truncate (Number.ofInt 3) = 3 := by decide +kernel
  have hintegral : Number.isIntegral (Number.ofInt 3) = true := by decide +kernel
  have hwhole := Value.Whole.float hintegral
  rw [htruncate] at hwhole
  have hlow : exec env 3 low m = .ok () { m with channel := [.int 1] } := rfl
  have hhigh : exec env 3 high { m with channel := [.int 1] }
      = .ok () { m with channel := [.float (Number.ofInt 3), .int 1] } := rfl
  obtain ⟨starts, h, _⟩ := exec_forLoop_counts hlow hhigh rfl (.int 1) hwhole
  refine ⟨hlow, hwhole, starts, ?_, h⟩
  have hall : ∀ s ∈ starts, ∃ s', execBody env 3 stmts s = .ok () s' := by
    intro s hs
    obtain ⟨k, hk, hs⟩ := h.mem_iff.mp hs
    match k, hk with
    | 0, _ | 1, _ =>
      cases hs
      exact ⟨_, rfl⟩
  have hlength := (h.completed hall).1
  omega

end Eval

end ExScript
