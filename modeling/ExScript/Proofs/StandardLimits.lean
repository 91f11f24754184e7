import ExScript.Proofs.Confinement
import ExScript.Session

/-!
# The standard library keeps to limits

The methods are kept by the kind of their receiver, so that none is ever called on a value of
another kind.  All integers that they give are checked but for the length of a text, and the only
crashes are those of an integer too large for a double and of two conversions of texts
(`yields_standard`).  So all that is left to ask of an evaluation is about its counters, the texts
that it measures and those that it converts (`throughout_standard`).
-/

namespace ExScript

namespace Table

variable {α : Type}

theorem mem_or_find?_of_foldl {entries : List (String × α)} {t : Table α} {name : String} {a : α}
    (h : (entries.foldl (fun t entry => t.insert entry.1 entry.2) t).find? name = some a) :
    (name, a) ∈ entries ∨ t.find? name = some a := by
  induction entries generalizing t with
  | nil => exact .inr h
  | cons entry entries ih =>
    rcases ih h with hm | hf
    · exact .inl (List.mem_cons_of_mem _ hm)
    · rw [find?_insert] at hf
      split at hf
      next hn =>
        cases hf
        exact .inl (hn ▸ List.mem_cons_self)
      · exact .inr hf

/-- What is found in a table was put there under this name. -/
theorem mem_of_find?_ofList {entries : List (String × α)} {name : String} {a : α}
    (h : (ofList entries).find? name = some a) : (name, a) ∈ entries :=
  (mem_or_find?_of_foldl h).resolve_right nofun

end Table

namespace Library

open Eval

variable {L : Limits} {method : String} {this : Value} {given : List Value}

/-! ## Functions -/

theorem yields_write (s : Streams) : YieldsOn L (write given s) := nofun

theorem yields_writeln (s : Streams) : YieldsOn L (writeln given s) := nofun

theorem bind_modifyGet {ε σ α β : Type} (g : σ → α × σ) (f : α → EStateM ε σ β) (s : σ) :
    ((modifyGet g : EStateM ε σ α) >>= f) s = f (g s).1 (g s).2 := rfl

theorem yields_read (s : Streams) : YieldsOn L (read given s) := by
  unfold read
  split
  · trivial
  · simp only [modify, takeLine, bind_modifyGet]
    cases (writeAll s given).takeLine.1 with
    | none => trivial
    | some line =>
      rintro _ ⟨⟩
      trivial

theorem yields_console {name : String} {f : LibraryFunction}
    (hf : standard.functions.find? name = some f) (s : Streams) : YieldsOn L (f given s) := by
  have hmem := Table.mem_of_find?_ofList (show consoleTable.find? name = some f from hf)
  simp only [List.mem_cons, Prod.mk.injEq, List.not_mem_nil, or_false] at hmem
  rcases hmem with ⟨_, rfl⟩ | ⟨_, rfl⟩ | ⟨_, rfl⟩
  · exact yields_write s
  · exact yields_writeln s
  · exact yields_read s

/-! ## Methods -/

/-- The host crashes on the conversion of the text. -/
def Unconvertible (method text : String) (c : Crash) : Prop :=
  (method = "to_int" ∧ readInt text = .error (.crash c)) ∨
    (method = "to_float" ∧ readFloat text = .error (.crash c))

theorem yields_checked {name : String} {count : Nat}
    {rest : Unit → Except LibraryFault (Option Value)}
    (h : given.length = count → Yields L (rest ())) :
    Yields L (checkCount name given count >>= rest) := by
  unfold checkCount
  split
  next hl => exact h hl
  · trivial

theorem yields_checkedInt (n : Int) : Yields L (checkedInt n) := by
  unfold checkedInt
  split
  next hn =>
    rintro _ ⟨⟩
    exact L.fit_of_inIntRange hn
  · trivial

theorem yields_power (base exponent : Int) : Yields L (power base exponent) := by
  have hsmall {n : Int} (h : n.natAbs ≤ 1) : Yields L (.ok (some (.int n))) := by
    rintro _ ⟨⟩
    refine L.fit_of_inIntRange (inIntRange_iff.mpr ?_)
    simp only [minInt, maxInt]
    omega
  unfold power
  split
  · trivial
  · split
    · split
      · trivial
      · exact yields_checkedInt _
    · split
      · exact hsmall (Nat.le_refl 1)
      · refine hsmall ?_
        split <;> omega

theorem yields_pow : Yields L (pow this given) := by
  refine yields_checked fun _ => ?_
  split
  · exact yields_power _ _
  · trivial
  · exact nofun

theorem yields_toString : Yields L (toStringMethod this given) := by
  refine yields_checked fun _ => ?_
  rintro _ ⟨⟩
  trivial

theorem yields_intToFloat {n : Int} (hn : L.Fit n) : Yields L (intToFloat (.int n) given) := by
  refine yields_checked fun _ => ?_
  change Yields L (if Number.isFinite (Number.ofInt n) then _ else _)
  split
  · rintro _ ⟨⟩
    trivial
  next hx => exact (L.nearest hn).resolve_left hx

theorem yields_floatToInt (x : Float) : Yields L (floatToInt (.float x) given) := by
  refine yields_checked fun _ => ?_
  change Yields L (if Number.isFinite x then _ else _)
  split
  · exact yields_checkedInt _
  · trivial

/-- Reading an integer: a library error, a crash for too many digits, or an integer in range. -/
theorem readInt_cases (text : String) :
    (∃ e, readInt text = .error (.error e)) ∨
      (∃ count, readInt text = .error (.crash (.tooManyDigits count))) ∨
        ∃ n, inIntRange n = true ∧ readInt text = .ok (some (.int n)) := by
  unfold readInt
  split
  · exact .inl ⟨_, rfl⟩
  next t _ =>
    dsimp only
    split
    · exact .inl ⟨_, rfl⟩
    · split
      · exact .inr (.inl ⟨_, rfl⟩)
      · split
        next hn => exact .inr (.inr ⟨_, hn, rfl⟩)
        · exact .inl ⟨_, rfl⟩

theorem readFloat_cases (text : String) :
    (∃ e, readFloat text = .error (.error e)) ∨
      (∃ quoted, readFloat text = .error (.crash (.unreadableFloat quoted))) ∨
        ∃ x, readFloat text = .ok (some (.float x)) := by
  unfold readFloat
  split
  · exact .inl ⟨_, rfl⟩
  · exact .inr (.inr ⟨_, rfl⟩)
  · exact .inr (.inr ⟨_, rfl⟩)
  · exact .inr (.inl ⟨_, rfl⟩)

theorem yields_readInt {text : String}
    (h : ∀ c, readInt text = .error (.crash c) → L.Allowed c) : Yields L (readInt text) := by
  rcases readInt_cases text with ⟨e, he⟩ | ⟨count, he⟩ | ⟨n, hn, he⟩
  · rw [he]
    trivial
  · have hc := h _ he
    rwa [he]
  · rw [he]
    rintro _ ⟨⟩
    exact L.fit_of_inIntRange hn

theorem yields_readFloat {text : String}
    (h : ∀ c, readFloat text = .error (.crash c) → L.Allowed c) : Yields L (readFloat text) := by
  rcases readFloat_cases text with ⟨e, he⟩ | ⟨quoted, he⟩ | ⟨x, he⟩
  · rw [he]
    trivial
  · have hc := h _ he
    rwa [he]
  · rw [he]
    rintro _ ⟨⟩
    trivial

/-- What a method of the standard library gives fits, if the length of a text fits that it measures,
and crashes are allowed on a text that it converts. -/
theorem yields_standard {table : Table LibraryMethod} {f : LibraryMethod}
    (ht : standard.methods.find? this.kind = some table) (hf : table.find? method = some f)
    (hthis : this.Meets L.Fit)
    (hlen : ∀ text, this = .string text → given = [] → method = "len" → L.Fit text.length)
    (hcrash : ∀ text c, this = .string text → given = [] → Unconvertible method text c →
      L.Allowed c) : Yields L (f this given) := by
  cases this with
  | int n =>
    cases (show some intTable = some table from ht)
    have hmem := Table.mem_of_find?_ofList hf
    simp only [List.mem_cons, Prod.mk.injEq, List.not_mem_nil, or_false] at hmem
    rcases hmem with ⟨_, rfl⟩ | ⟨_, rfl⟩ | ⟨_, rfl⟩
    · exact yields_pow
    · exact yields_intToFloat hthis
    · exact yields_toString
  | float x =>
    cases (show some floatTable = some table from ht)
    have hmem := Table.mem_of_find?_ofList hf
    simp only [List.mem_cons, Prod.mk.injEq, List.not_mem_nil, or_false] at hmem
    rcases hmem with ⟨_, rfl⟩ | ⟨_, rfl⟩
    · exact yields_floatToInt x
    · exact yields_toString
  | string text =>
    cases (show some stringTable = some table from ht)
    have hmem := Table.mem_of_find?_ofList hf
    simp only [List.mem_cons, Prod.mk.injEq, List.not_mem_nil, or_false] at hmem
    rcases hmem with ⟨hn, rfl⟩ | ⟨hn, rfl⟩ | ⟨hn, rfl⟩
    · refine yields_checked fun hl => yields_readInt fun c hc => ?_
      exact hcrash text c rfl (List.length_eq_zero_iff.mp hl) (.inl ⟨hn, hc⟩)
    · refine yields_checked fun hl => yields_readFloat fun c hc => ?_
      exact hcrash text c rfl (List.length_eq_zero_iff.mp hl) (.inr ⟨hn, hc⟩)
    · refine yields_checked fun hl => ?_
      rintro _ ⟨⟩
      exact hlen text rfl (List.length_eq_zero_iff.mp hl) hn
  | bool b =>
    cases (show some boolTable = some table from ht)
    have hmem := Table.mem_of_find?_ofList hf
    simp only [List.mem_cons, Prod.mk.injEq, List.not_mem_nil, or_false] at hmem
    obtain ⟨_, rfl⟩ := hmem
    exact yields_toString

end Library

namespace Eval

variable {L : Limits} {env : Env} {frames : Nat} {t : Task} {m : Machine}

/-- With the standard library, an evaluation is within the limits if its counters are, and so are
the lengths of the texts that it measures and the crashes on texts that it converts. -/
theorem throughout_standard (henv : env.library = Library.standard)
    (hcount : ∀ k u m₁ first last rounds m₂, During env frames t m (k + 1) u m₁ →
      Counts env k u m₁ first last rounds m₂ → L.Bound first → L.Bound last →
        L.Fit (first + rounds))
    (hlen : ∀ k f text pos m₁,
      During env frames t m k (.operation f "len" (.string text) [] pos) m₁ → L.Fit text.length)
    (hcrash : ∀ k f method text pos m₁ c,
      During env frames t m k (.operation f method (.string text) [] pos) m₁ →
        Library.Unconvertible method text c → L.Allowed c) :
    Throughout L env frames t m := by
  intro k u m₁ hd
  constructor
  case counter => exact fun hc => hcount _ _ _ _ _ _ _ hd hc
  case function =>
    intro f name given pos m₂ hs _
    cases hs with
    | function hf _ => exact Library.yields_console (henv ▸ hf)
  case operation =>
    intro f method this given pos m₂ hs hthis _
    have hd' := hd.started hs
    cases hs with
    | operation ht hf _ =>
      refine Library.yields_standard (henv ▸ ht) hf hthis ?_ ?_
      · rintro text rfl rfl rfl
        exact hlen _ _ _ _ _ hd'
      · rintro text c rfl rfl hu
        exact hcrash _ _ _ _ _ _ _ hd' hu

/-! ## Runs -/

theorem Contained.runHosted {program : Node}
    (h : Contained L (fun _ => True) (exec env (Session.frameLimit env.maxDepth) program m)) :
    (∀ v, (Session.runHosted env program m).1 = .ok (some v) → v.Meets L.Fit) ∧
      (∀ c, (Session.runHosted env program m).1 = .error (.crashed c) → L.Allowed c) ∧
        (Session.runHosted env program m).2.Fits L := by
  have hfinish {m : Machine} (hm : m.Fits L) :
      (∀ v, (Session.finish m).1 = some v → v.Meets L.Fit) ∧ (Session.finish m).2.Fits L :=
    ⟨fun v hv => hm.channel v (List.mem_of_head? hv), ⟨⟨hm.channel, hm.scopes⟩, hm.functions⟩⟩
  rw [Session.runHosted]
  cases hr : exec env (Session.frameLimit env.maxDepth) program m with
  | ok a m₁ =>
    rw [hr] at h
    have hf := hfinish h.2
    exact ⟨fun v hv => hf.1 v (Except.ok.inj hv), nofun, hf.2⟩
  | error e m₁ =>
    rw [hr] at h
    cases e with
    | returned v =>
      have hf := hfinish (h.2.withChannel (List.forall_mem_cons.mpr ⟨h.1, h.2.channel⟩))
      exact ⟨fun v hv => hf.1 v (Except.ok.inj hv), nofun, hf.2⟩
    | abort a =>
      refine ⟨nofun, ?_, h.2⟩
      rintro c ⟨⟩
      exact h.1

/-- How a run ends whose program ends within limits, if it is begun at all. -/
theorem Contained.runMachine {program : Node} (hm : m.Fits L)
    (h : Contained L (fun _ => True) (exec env (Session.frameLimit env.maxDepth) program m)) :
    (∀ v, (Session.runMachine env program m).1 = .ok (some v) → v.Meets L.Fit) ∧
      (∀ c, (Session.runMachine env program m).1 = .error (.crashed c) →
        L.Allowed c ∨ c = .tooManyFrames ∧ ¬ Session.Hosted env.maxDepth) ∧
        (Session.runMachine env program m).2.Fits L := by
  by_cases hhost : Session.Hosted env.maxDepth
  · obtain ⟨hvalue, hcrash, hfits⟩ := h.runHosted
    rw [Session.runMachine_of_hosted hhost]
    exact ⟨hvalue, fun c hc => .inl (hcrash c hc), hfits⟩
  · rw [Session.runMachine_of_not_hosted hhost]
    refine ⟨nofun, ?_, hm⟩
    rintro c ⟨⟩
    exact .inr ⟨rfl, hhost⟩

end Eval

end ExScript
