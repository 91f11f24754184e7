import ExScript.CommandLine
import Mathlib

/-!
# The order of arguments

Accepted arguments fall into groups: single options, depths with their option, and plain arguments.
What they ask for is read off kind by kind (`ofArgs_joined_iff`): an option counts wherever it is, of
the depths the last one counts, and of the plain arguments only the last one may be the name of a
file, since an empty one leaves the place of the file empty.

So groups may be put in any order in which the depths keep theirs, except that an empty argument
must not come to stand behind the name of the file (`arguments_commute`).
-/

namespace ExScript.CommandLine

/-! ## Groups -/

/-- The options without a value. -/
inductive Flag where
  | tokens | ast | verbose
  deriving DecidableEq

namespace Flag

def text : Flag → String
  | tokens => "--tokens"
  | ast => "--ast"
  | verbose => "--verbose"

def argument : Flag → Argument
  | tokens => .tokens
  | ast => .ast
  | verbose => .verbose

def set (o : Options) : Flag → Options
  | tokens => { o with tokens := true }
  | ast => { o with ast := true }
  | verbose => { o with verbose := true }

end Flag

/-- Arguments that are read together. -/
inductive Group where
  | flag (f : Flag)
  | maxDepth (text : String)
  | plain (text : String) (h : text.toList.head? ≠ some '-')
  deriving DecidableEq

namespace Group

/-- The argument by which the group is known. -/
def first : Group → String
  | flag f => f.text
  | maxDepth _ => "--max-depth"
  | plain text _ => text

/-- What follows without being looked at. -/
def value : Group → List String
  | maxDepth text => [text]
  | _ => []

def args (g : Group) : List String := g.first :: g.value

def argument : Group → Argument
  | flag f => f.argument
  | maxDepth _ => .maxDepth
  | plain text _ => .plain text

def depth? : Group → Option String
  | maxDepth text => some text
  | _ => none

def plain? : Group → Option String
  | plain text _ => some text
  | _ => none

/-- The effect of the group on the options. -/
def apply (o : Options) : Group → Except Refusal Options
  | flag f => .ok (f.set o)
  | maxDepth text => (readDepth text).map fun n => { o with maxDepth := n }
  | plain text _ =>
    if o.file = "" then .ok { o with file := text } else .error (.unexpectedArgument text)

end Group

def joined (gs : List Group) : List String := gs.flatMap Group.args

/-- The values of the depth options from left to right. -/
def depths (gs : List Group) : List String := gs.filterMap Group.depth?

/-- The plain arguments from left to right. -/
def plains (gs : List Group) : List String := gs.filterMap Group.plain?

variable {gs hs : List Group} {args : List String} {o o' : Options} {text : String}

@[simp]
theorem plains_cons (g : Group) (gs : List Group) :
    plains (g :: gs) = g.plain?.toList ++ plains gs := by
  cases g <;> rfl

theorem joined_cons (g : Group) (gs : List Group) :
    joined (g :: gs) = g.first :: (g.value ++ joined gs) := rfl

theorem ofText_plain (h : text.toList.head? ≠ some '-') : Argument.ofText text = .plain text := by
  have hne (flag : String) (hf : flag.toList.head? = some '-') : text ≠ flag := by
    rintro rfl
    exact h hf
  simp [Argument.ofText, h, hne "--help" (by decide), hne "-h" (by decide),
    hne "--tokens" (by decide), hne "--ast" (by decide), hne "--verbose" (by decide),
    hne "--max-depth" (by decide)]

theorem ofText_first (g : Group) : Argument.ofText g.first = g.argument := by
  cases g with
  | flag f => cases f <;> rfl
  | maxDepth text => rfl
  | plain text h => exact ofText_plain h

/-- Which text an argument has. -/
theorem ofText_spells (text : String) : match Argument.ofText text with
    | .tokens => text = "--tokens"
    | .ast => text = "--ast"
    | .verbose => text = "--verbose"
    | .maxDepth => text = "--max-depth"
    | .plain plain => plain = text ∧ text.toList.head? ≠ some '-'
    | _ => True := by
  unfold Argument.ofText
  split_ifs <;> simp_all

theorem eq_first (g : Group) (h : Argument.ofText text = g.argument) : text = g.first := by
  have hspells := ofText_spells text
  rw [h] at hspells
  cases g with
  | flag f => cases f <;> exact hspells
  | maxDepth _ => exact hspells
  | plain _ _ => exact hspells.1.symm

/-- Arguments fall into groups in one way only. -/
theorem joined_injective (h : joined gs = joined hs) : gs = hs := by
  induction gs generalizing hs with
  | nil =>
    cases hs with
    | nil => rfl
    | cons g hs => cases h
  | cons g gs ih =>
    cases hs with
    | nil => cases h
    | cons g' hs =>
      rw [joined_cons, joined_cons, List.cons.injEq] at h
      have hargument := congrArg Argument.ofText h.1
      rw [ofText_first, ofText_first] at hargument
      cases g with
      | flag f =>
        cases g' with
        | flag f' =>
          have hf : f = f' := by cases f <;> cases f' <;> first | rfl | cases hargument
          rw [hf, ih h.2]
        | maxDepth text => cases f <;> cases hargument
        | plain text hplain => cases f <;> cases hargument
      | maxDepth text =>
        cases g' with
        | flag f => cases f <;> cases hargument
        | maxDepth text' =>
          obtain ⟨rfl, hrest⟩ := List.cons.inj h.2
          rw [ih hrest]
        | plain text' hplain => cases hargument
      | plain text hplain =>
        cases g' with
        | flag f => cases f <;> cases hargument
        | maxDepth text' => cases hargument
        | plain text' hplain' =>
          cases hargument
          rw [ih h.2]

/-- A group is read as a whole. -/
theorem ofArgs_cons (g : Group) (gs : List Group) (o : Options) :
    Options.ofArgs (joined (g :: gs)) o = g.apply o >>= Options.ofArgs (joined gs) := by
  rw [joined_cons, Options.ofArgs.eq_def]
  simp only [ofText_first]
  cases g with
  | flag f => cases f <;> rfl
  | maxDepth text =>
    simp only [Group.argument, Group.value, Group.apply, List.singleton_append]
    cases readDepth text <;> rfl
  | plain text h =>
    simp only [Group.argument, Group.value, Group.apply, List.nil_append]
    split <;> rfl

theorem exists_joined (h : Options.ofArgs args o = .ok o') : ∃ gs, joined gs = args := by
  have hcons (g : Group) {rest : List String} :
      (∃ gs, joined gs = rest) → ∃ gs, joined gs = g.first :: (g.value ++ rest) := by
    rintro ⟨gs, rfl⟩
    exact ⟨g :: gs, rfl⟩
  fun_induction Options.ofArgs args o with
  | case1 o => exact ⟨[], rfl⟩
  | case2 | case6 | case8 | case9 | case11 => cases h
  | case3 arg rest o harg ih =>
    rw [eq_first (.flag .tokens) harg]
    exact hcons (.flag .tokens) (ih h)
  | case4 arg rest o harg ih =>
    rw [eq_first (.flag .ast) harg]
    exact hcons (.flag .ast) (ih h)
  | case5 arg rest o harg ih =>
    rw [eq_first (.flag .verbose) harg]
    exact hcons (.flag .verbose) (ih h)
  | case7 arg o harg text rest n hn ih =>
    rw [eq_first (.maxDepth text) harg]
    exact hcons (.maxDepth text) (ih h)
  | case10 arg rest o text harg hfile ih =>
    have hspells := ofText_spells arg
    rw [harg] at hspells
    obtain ⟨rfl, hplain⟩ := hspells
    exact hcons (.plain text hplain) (ih h)

/-! ## What groups ask for -/

/-- The depth is the last one, and the file the last plain argument. -/
def asked (gs : List Group) (depthValues : List Int) (o : Options) : Options where
  file := (plains gs).getLastD o.file
  tokens := o.tokens || .flag .tokens ∈ gs
  ast := o.ast || .flag .ast ∈ gs
  verbose := o.verbose || .flag .verbose ∈ gs
  maxDepth := depthValues.getLastD o.maxDepth

theorem asked_nil (o : Options) : asked [] [] o = o := by
  simp [asked, plains]

theorem asked_flag (f : Flag) (gs : List Group) (ns : List Int) (o : Options) :
    asked (.flag f :: gs) ns o = asked gs ns (f.set o) := by
  cases f <;> simp [asked, Flag.set, Group.plain?]

theorem asked_maxDepth (text : String) (gs : List Group) (n : Int) (ns : List Int) (o : Options) :
    asked (.maxDepth text :: gs) (n :: ns) o = asked gs ns { o with maxDepth := n } := by
  simp [asked, Group.plain?, -List.getLastD_eq_getLast?, List.getLastD_cons]

theorem asked_plain (h : text.toList.head? ≠ some '-') (gs : List Group) (ns : List Int)
    (o : Options) : asked (.plain text h :: gs) ns o = asked gs ns { o with file := text } := by
  simp [asked, Group.plain?, -List.getLastD_eq_getLast?, List.getLastD_cons]

/-- No text stands behind one that is not empty. -/
def FileLast (texts : List String) : Prop := texts.Pairwise fun first _ => first = ""

/-- Groups are accepted if their depths can be read and no plain argument stands behind a file. -/
theorem ofArgs_joined_iff : Options.ofArgs (joined gs) o = .ok o' ↔
    ∃ ns, List.Forall₂ (fun text n => readDepth text = .ok n) (depths gs) ns ∧
      FileLast (o.file :: plains gs) ∧ o' = asked gs ns o := by
  induction gs generalizing o with
  | nil =>
    have hnil : Options.ofArgs (joined []) o = .ok o := rfl
    rw [hnil, Except.ok.injEq]
    constructor
    · rintro rfl
      exact ⟨[], .nil, List.pairwise_singleton _ _, (asked_nil o).symm⟩
    · rintro ⟨ns, hns, -, rfl⟩
      cases hns
      exact (asked_nil o).symm
  | cons g gs ih =>
    rw [ofArgs_cons]
    cases g with
    | flag f =>
      simp only [asked_flag]
      have hfile : (f.set o).file = o.file := by cases f <;> rfl
      rw [← hfile]
      exact ih
    | maxDepth text =>
      cases hread : readDepth text with
      | error e =>
        have happly : Group.apply o (.maxDepth text) = .error e := by rw [Group.apply, hread]; rfl
        rw [happly]
        constructor
        · exact nofun
        · rintro ⟨ns, hns, -⟩
          cases hns with
          | cons hn _ => cases hread.symm.trans hn
      | ok n =>
        have happly : Group.apply o (.maxDepth text) = .ok { o with maxDepth := n } := by
          rw [Group.apply, hread]
          rfl
        rw [happly]
        refine Iff.trans ih ⟨?_, ?_⟩
        · rintro ⟨ns, hns, hplains, rfl⟩
          exact ⟨n :: ns, .cons hread hns, hplains, (asked_maxDepth text gs n ns o).symm⟩
        · rintro ⟨ns, hns, hplains, rfl⟩
          cases hns with
          | cons hn hns =>
            cases hread.symm.trans hn
            exact ⟨_, hns, hplains, asked_maxDepth text gs n _ o⟩
    | plain text h =>
      simp only [asked_plain, plains_cons, Group.plain?, Option.toList_some, List.singleton_append]
      by_cases hfile : o.file = ""
      · have happly : Group.apply o (.plain text h) = .ok { o with file := text } := if_pos hfile
        have hempty : FileLast (o.file :: text :: plains gs) ↔ FileLast (text :: plains gs) :=
          List.pairwise_cons.trans (and_iff_right fun _ _ => hfile)
        rw [happly, hempty]
        exact ih
      · have happly : Group.apply o (.plain text h) = .error (.unexpectedArgument text) :=
          if_neg hfile
        rw [happly]
        constructor
        · exact nofun
        · rintro ⟨_, _, hplains, _⟩
          exact absurd (List.rel_of_pairwise_cons hplains List.mem_cons_self) hfile

/-! ## Other orders -/

/-- There is one order of the plain arguments at most that is accepted. -/
theorem plains_eq (hperm : hs.Perm gs) (hgs : FileLast (plains gs)) (hhs : FileLast (plains hs)) :
    plains hs = plains gs :=
  (hperm.filterMap _).eq_of_pairwise (fun _ _ _ _ hx hy => hx.trans hy.symm) hhs hgs

/-- If none of them is empty, there is one at most. -/
theorem fileLast_of_nonempty (hperm : hs.Perm gs) (hgs : FileLast (plains gs))
    (hempty : "" ∉ plains gs) : FileLast (plains hs) := by
  have hplains : (plains hs).Perm (plains gs) := hperm.filterMap _
  generalize plains gs = texts at *
  cases texts with
  | nil =>
    rw [hplains.eq_nil]
    exact .nil
  | cons text more =>
    cases more with
    | nil =>
      rw [List.perm_singleton.mp hplains]
      exact List.pairwise_singleton _ _
    | cons text' more =>
      have htext := List.rel_of_pairwise_cons hgs List.mem_cons_self
      exact absurd (htext ▸ List.mem_cons_self) hempty

theorem asked_perm (hperm : hs.Perm gs) (hplains : plains hs = plains gs) (ns : List Int)
    (o : Options) : asked hs ns o = asked gs ns o := by
  simp only [asked, hplains, hperm.mem_iff]

/-- Arguments that are accepted fall into groups in one way.  Another order of the groups, in which
the depths keep theirs, is accepted unless an empty argument comes to stand behind the name of the
file.  If it is accepted, it gives the same options and has the same outcome. -/
theorem arguments_commute (h : Options.ofArgs args .initial = .ok o) :
    ∃ gs, joined gs = args ∧ (∀ gs', joined gs' = args → gs' = gs) ∧
      ∀ hs, hs.Perm gs → depths hs = depths gs →
        ((∃ o', Options.ofArgs (joined hs) .initial = .ok o') ↔ FileLast (plains hs)) ∧
        ("" ∉ plains gs → FileLast (plains hs)) ∧
        ∀ o', Options.ofArgs (joined hs) .initial = .ok o' → o' = o ∧
          ∀ contents streams prompts,
            (Command.ofArgs (joined hs)).execute contents streams prompts =
              (Command.ofArgs args).execute contents streams prompts := by
  obtain ⟨gs, rfl⟩ := exists_joined h
  refine ⟨gs, rfl, fun gs' => joined_injective, fun hs hperm hdepths => ?_⟩
  obtain ⟨ns, hns, hfiles, rfl⟩ := ofArgs_joined_iff.mp h
  have hgs := (List.pairwise_cons.mp hfiles).2
  have hinitial (hhs : FileLast (plains hs)) :
      Options.ofArgs (joined hs) .initial = .ok (asked gs ns .initial) := by
    have hlast : FileLast (Options.initial.file :: plains hs) :=
      List.pairwise_cons.mpr ⟨fun _ _ => rfl, hhs⟩
    rw [← asked_perm hperm (plains_eq hperm hgs hhs)]
    exact ofArgs_joined_iff.mpr ⟨ns, hdepths ▸ hns, hlast, rfl⟩
  have haccepted {o' : Options} (ho : Options.ofArgs (joined hs) .initial = .ok o') :
      FileLast (plains hs) := by
    obtain ⟨_, _, hfiles, _⟩ := ofArgs_joined_iff.mp ho
    exact (List.pairwise_cons.mp hfiles).2
  refine ⟨⟨fun ⟨o', ho⟩ => haccepted ho, fun hhs => ⟨_, hinitial hhs⟩⟩,
    fileLast_of_nonempty hperm hgs, fun o' ho => ?_⟩
  have hsame := hinitial (haccepted ho)
  refine ⟨Except.ok.inj (ho.symm.trans hsame), fun contents streams prompts => ?_⟩
  rw [Command.ofArgs, Command.ofArgs, hsame, h]

theorem arguments_commute_file :
    Options.ofArgs ["a.ex", "--max-depth", "9", "--verbose"] .initial =
        .ok ⟨"a.ex", false, false, true, 9⟩ ∧
      Options.ofArgs ["--verbose", "--max-depth", "9", "a.ex"] .initial =
        .ok ⟨"a.ex", false, false, true, 9⟩ := by
  have h : Options.ofArgs ["a.ex", "--max-depth", "9", "--verbose"] .initial =
      .ok ⟨"a.ex", false, false, true, 9⟩ := by decide +kernel
  obtain ⟨gs, -, hunique, horder⟩ := arguments_commute h
  obtain rfl := hunique [.plain "a.ex" (by decide), .maxDepth "9", .flag .verbose] rfl
  obtain ⟨haccepted, hnonempty, hsame⟩ := horder _ (List.reverse_perm _) rfl
  obtain ⟨o, ho⟩ := haccepted.mpr (hnonempty (by decide))
  obtain ⟨rfl, -⟩ := hsame o ho
  exact ⟨h, ho⟩

/-- An empty argument leaves the place of the file empty, but is one too many behind the file. -/
theorem empty_argument_order :
    let empty : Group := .plain "" (by decide)
    let file : Group := .plain "a.ex" (by decide)
    [file, empty].Perm [empty, file] ∧ depths [file, empty] = depths [empty, file] ∧
      Options.ofArgs (joined [empty, file]) .initial =
        .ok { Options.initial with file := "a.ex" } ∧
      ∀ contents streams prompts, (Command.ofArgs (joined [file, empty])).execute contents streams
        prompts = ⟨.exit 2, "", "exlang: unexpected argument ''\n"⟩ := by
  refine ⟨.swap _ _ _, rfl, by decide +kernel, fun contents streams prompts => ?_⟩
  have hrefused : Command.ofArgs (joined [.plain "a.ex" (by decide), .plain "" (by decide)]) =
      .refuse (.unexpectedArgument "") := by decide +kernel
  rw [hrefused]
  rfl

end ExScript.CommandLine
