import ExScript.Node.Printer
import ExScript.Proofs.Lexemes
import ExScript.Proofs.Spelling

/-!
# The printed text is read as the tree is spelled

With a large enough stack a well-formed tree is always printed, and the lexer makes the lexemes of
its spelling of the text.  For expressions this holds before any text that does not go on with a word
or a number (`Spells`), for statements line by line (`LinesRead`).
-/

namespace ExScript

namespace Printer

open Lexer Lexeme

/-- What a rule of the printer returns on a stack without a limit. -/
def Prints {α : Type} (rule : Printing α) (a : α) : Prop := rule none = .ok a

section Prints

variable {α β : Type} {rule : Printing α} {f : α → Printing β} {a : α} {b : β}

theorem Prints.pure (a : α) : Prints (Pure.pure a) a := rfl

@[simp]
theorem prints_pure {a' : α} : Prints (pure a) a' ↔ a = a' := by
  simp [Prints, Pure.pure, ReaderT.pure, Except.pure]

theorem Prints.lift {r : Except PrintError α} (h : r = .ok a) : Prints (liftM r) a := h

theorem prints_lift {r : Except PrintError α} : Prints (liftM r) a ↔ r = .ok a := Iff.rfl

theorem not_prints_throw (e : PrintError) (a : α) : ¬ Prints (throw e) a := by
  intro h
  cases h

@[simp]
theorem prints_nested : Prints (nested rule) a ↔ Prints rule a := Iff.rfl

theorem Prints.nested (h : Prints rule a) : Prints (nested rule) a := h

theorem Prints.unique {a' : α} (h : Prints rule a) (h' : Prints rule a') : a = a' :=
  Except.ok.inj (h.symm.trans h')

theorem Prints.bind (h : Prints rule a) (hf : Prints (f a) b) : Prints (rule >>= f) b := by
  change (rule none >>= fun a => f a none) = _
  rw [show rule none = _ from h]
  exact hf

theorem Prints.bind_iff : Prints (rule >>= f) b ↔ ∃ a, Prints rule a ∧ Prints (f a) b := by
  refine ⟨fun h => ?_, fun ⟨a, ha, hb⟩ => ha.bind hb⟩
  change (rule none >>= fun a => f a none) = _ at h
  cases ha : rule none with
  | error e =>
    rw [ha] at h
    cases h
  | ok a =>
    rw [ha] at h
    exact ⟨a, ha, h⟩

end Prints

/-- A rule of the printer returns a text that is read as some lexemes. -/
def Spells (text : Printing String) (ls : List Lexeme) : Prop :=
  ∃ t, Prints text t ∧ ∀ rest, Ends rest → Reads t.toList ls rest

/-! ## What ends a word -/

theorem ends_cons {c : Char} (rest : List Char) (hc : Text.isWordChar c = false) (hd : c ≠ '.') :
    Ends (c :: rest) := by
  refine ⟨by simpa using hc, fun more h => ?_⟩
  cases h
  exact absurd rfl hd

theorem ends_dot {rest : List Char} (h : ∀ c ∈ rest.head?, c.isDigit = false) :
    Ends ('.' :: rest) := by
  have hdot : Text.isWordChar '.' = false := by decide
  refine ⟨by simpa using hdot, fun more heq => ?_⟩
  cases heq
  exact h

theorem ends_method {method : String} (rest : List Char) (h : IsName method) :
    Ends ('.' :: (method.toList ++ rest)) := by
  refine ends_dot fun c hc => h.noDigit c ?_
  obtain ⟨d, more, hd⟩ := List.exists_cons_of_ne_nil h.nonempty
  rw [hd] at hc ⊢
  exact hc

theorem reads_parens {text rest : List Char} {ls : List Lexeme}
    (h : Reads text ls (')' :: rest)) :
    Reads ('(' :: (text ++ [')'])) (inParens ls) rest := by
  have hopen := reads_closed (text ++ [')'] ++ rest) (c := '(') rfl (by decide)
  have hclose := reads_closed rest (c := ')') rfl (by decide)
  exact hopen.append (h.append hclose)

theorem reads_operator {op : BinaryOp} (rest : List Char) (h : op.Known) :
    Reads op.text.toList [op.lexeme] (' ' :: rest) := by
  cases op with
  | equal => exact reads_pair _ (c := '=') rfl
  | notEqual => exact reads_pair _ (c := '!') rfl
  | atLeast => exact reads_pair _ (c := '>') rfl
  | atMost => exact reads_pair _ (c := '<') rfl
  | greater => exact reads_symbol (c := '>') rfl rfl
  | less => exact reads_symbol (c := '<') rfl rfl
  | add => exact reads_closed _ (c := '+') rfl (by decide)
  | sub => exact reads_closed _ (c := '-') rfl (by decide)
  | mul => exact reads_closed _ (c := '*') rfl (by decide)
  | div => exact reads_closed _ (c := '/') rfl (by decide)
  | other => exact h.elim

theorem reads_sign {op : UnaryOp} (rest : List Char) (h : op.Known) :
    Reads op.text.toList [op.lexeme] rest := by
  cases op with
  | plus => exact reads_closed _ (c := '+') rfl (by decide)
  | minus => exact reads_closed _ (c := '-') rfl (by decide)
  | other => exact h.elim

/-! ## Levels -/

theorem operatorLevel_eq {op : BinaryOp} (h : op.Known) : operatorLevel op = .ok op.level := by
  cases op with
  | other => exact h.elim
  | _ => rfl

theorem level_eq {n : Node} (h : n.WellFormed) : level n = .ok n.level := by
  cases n with
  | binary _ op left right => exact operatorLevel_eq h.proper.1
  | _ => rfl

theorem needsParens_left (own outer : Nat) :
    needsParens own outer false = decide (own < outer) := by
  simp [needsParens]

theorem needsParens_right {outer : Nat} (own : Nat) (h : outer < 5) :
    needsParens own outer true = decide (own < outer + 1) := by
  have h5 : unaryLevel = 5 := rfl
  rw [needsParens, Bool.eq_iff_iff]
  simp only [Bool.or_eq_true, Bool.and_eq_true, decide_eq_true_eq, and_true]
  omega

theorem needsParens_unary (own : Nat) :
    needsParens own unaryLevel true = decide (own < 5) := by
  have h5 : unaryLevel = 5 := rfl
  rw [needsParens, Bool.eq_iff_iff]
  simp only [Bool.or_eq_true, Bool.and_eq_true, decide_eq_true_eq, and_true]
  omega

/-! ## Expressions -/

theorem Prints.enclose {n : Node} {own : Nat} {text : Printing String} {t : String}
    (h : Prints text t) (hn : level n = .ok own) (outer : Nat) (onRight : Bool) :
    Prints (enclose n outer onRight text)
      (if needsParens own outer onRight then "(" ++ t ++ ")" else t) := by
  rw [Printer.enclose, hn]
  exact .nested (.bind (.nested (.lift rfl)) (.bind h.nested (.pure _)))

theorem enclose_spells {n : Node} {outer place : Nat} {onRight : Bool}
    {text : Printing String} {ls : List Lexeme} (hw : n.WellFormed)
    (hp : needsParens n.level outer onRight = decide (n.level < place)) (h : Spells text ls) :
    Spells (enclose n outer onRight text) (placed place n.level ls) := by
  obtain ⟨t, heq, ht⟩ := h
  refine ⟨if n.level < place then "(" ++ t ++ ")" else t, ?_, fun rest hr => ?_⟩
  · simpa only [hp, decide_eq_true_eq] using heq.enclose (level_eq hw) outer onRight
  · rw [placed]
    split
    · have hinner := ht (')' :: rest) (ends_cons rest (by decide) (by decide))
      simpa using reads_parens hinner
    · exact ht rest hr

/-- A place that every expression fits. -/
theorem render_spells {n : Node} (hw : n.WellFormed)
    (h : Spells (exprText n) n.exprLexemes) : Spells (render n) n.exprLexemes := by
  have hp := enclose_spells hw (needsParens_left n.level 1) h
  rwa [placed, if_neg (Nat.not_lt.mpr (Node.one_le_level hw))] at hp

theorem unary_spells {pos : Pos} {op : UnaryOp} {operand : Node}
    (hw : (Node.unary pos op operand).WellFormed)
    (ih : Spells (exprText operand) operand.exprLexemes) :
    Spells (exprText (.unary pos op operand)) (Node.unary pos op operand).exprLexemes := by
  have hchild := hw.child (List.mem_singleton.mpr rfl)
  obtain ⟨t, heq, ht⟩ := enclose_spells hchild (needsParens_unary _) ih
  refine ⟨op.text ++ t, by rw [exprText]; exact heq.bind (.pure _), fun rest hr => ?_⟩
  rw [String.toList_append, Node.exprLexemes]
  exact (reads_sign _ hw.proper.1).append (ht rest hr)

theorem binary_spells {pos : Pos} {op : BinaryOp} {left right : Node}
    (hw : (Node.binary pos op left right).WellFormed)
    (hl : Spells (exprText left) left.exprLexemes)
    (hr : Spells (exprText right) right.exprLexemes) :
    Spells (exprText (.binary pos op left right)) (Node.binary pos op left right).exprLexemes := by
  have hknown := hw.proper.1
  have hop : op.level < 5 := by cases op <;> first | exact hknown.elim | decide
  have hlw : left.WellFormed := hw.child (List.mem_cons_self ..)
  have hrw : right.WellFormed := hw.child (List.mem_cons_of_mem _ (List.mem_singleton.mpr rfl))
  obtain ⟨a, ha, hleft⟩ := enclose_spells hlw (needsParens_left _ op.level) hl
  obtain ⟨b, hb, hright⟩ := enclose_spells hrw (needsParens_right _ hop) hr
  refine ⟨a ++ " " ++ op.text ++ " " ++ b, ?_, fun rest hrest => ?_⟩
  · rw [exprText, operatorLevel_eq hknown]
    exact .bind (.lift rfl) (ha.bind (hb.bind (.pure _)))
  · have hspace (more : List Char) := ends_cons more (c := ' ') (by decide) (by decide)
    have htail := (reads_operator _ hknown).append ((reads_space _).append (hright rest hrest))
    have hall := (hleft _ (hspace _)).append ((reads_space _).append htail)
    simpa [Node.exprLexemes] using hall

theorem literal_spells {value : Float} (h : IsFloatLiteral value) :
    Spells (nested (floatText value)) [.float value] := by
  obtain ⟨text, whole, fraction, ht, hsplit, hw, hf, hb, hv⟩ :=
    Number.literalText?_split h.1 h.2
  refine ⟨text, .nested (.lift (by rw [floatText, ht])), fun rest hr => ?_⟩
  rw [hsplit, ← hv]
  exact reads_float hw hf hr hb

theorem stringText_spells {text : String} (h : IsStringLiteral text) :
    Spells (stringText text) [.string text] := by
  refine ⟨_, .lift (if_neg ?_), fun rest _ => reads_string rest h⟩
  intro hany
  obtain ⟨c, hc, hbad⟩ := List.any_eq_true.mp hany
  have hgood := h c hc
  simp [hgood] at hbad

/-! ## Calls -/

theorem reads_comma (rest : List Char) : Reads [',', ' '] [ofSymbol .comma] rest :=
  (reads_closed _ rfl (by decide)).append (reads_space rest)

/-- Texts that are read as some items, one by one. -/
def ItemsRead : List String → List (List Lexeme) → Prop :=
  List.Forall₂ fun text ls => ∀ rest, Ends rest → Reads text.toList ls rest

theorem reads_intercalate {texts : List String} {items : List (List Lexeme)}
    (h : ItemsRead texts items) {rest : List Char} (hr : Ends rest) :
    Reads (String.intercalate ", " texts).toList (separated items) rest := by
  induction h with
  | nil => simpa [separated] using reads_nil rest
  | @cons text ls texts items hread hitems ih =>
    cases hitems with
    | nil => simpa [separated] using hread rest hr
    | @cons next ls' texts items hnext hmore =>
      have hcomma (more : List Char) := ends_cons more (c := ',') (by decide) (by decide)
      have hall := (hread _ (hcomma _)).append ((reads_comma _).append ih)
      simpa [separated] using hall

theorem argTexts_ok (args : List Node) (hw : ∀ a ∈ args, a.WellFormed)
    (h : ∀ a ∈ args, Spells (exprText a) a.exprLexemes) :
    ∃ texts, Prints (argTexts args) texts ∧ ItemsRead texts (Node.argLexemes args) := by
  induction args with
  | nil => exact ⟨[], by rw [argTexts]; exact .pure _, by rw [Node.argLexemes]; exact .nil⟩
  | cons a args ih =>
    obtain ⟨haw, hw⟩ := List.forall_mem_cons.mp hw
    obtain ⟨ha, hargs⟩ := List.forall_mem_cons.mp h
    obtain ⟨text, htext, hread⟩ := render_spells haw ha
    obtain ⟨texts, htexts, hreads⟩ := ih hw hargs
    refine ⟨text :: texts, ?_, by rw [Node.argLexemes]; exact .cons hread hreads⟩
    rw [argTexts]
    exact htext.bind (htexts.bind (.pure _))

theorem reads_call {own : String} {ls : List Lexeme} {texts : List String}
    {items : List (List Lexeme)} (hown : ∀ rest, Ends rest → Reads own.toList ls rest)
    (h : ItemsRead texts items) (rest : List Char) :
    Reads (callText own texts).toList (ls ++ inParens (separated items)) rest := by
  have hargs := reads_intercalate h (ends_cons rest (c := ')') (by decide) (by decide))
  have hall := (hown _ (ends_cons _ (by decide) (by decide))).append (reads_parens hargs)
  simpa [callText] using hall

theorem reads_dotted {own method : String} {ls : List Lexeme} (hm : IsName method)
    (hown : ∀ rest, Ends rest → Reads own.toList ls rest) {rest : List Char} (hr : Ends rest) :
    Reads (own ++ "." ++ method).toList (ls ++ [ofSymbol .dot, .name method]) rest := by
  have hdot := reads_closed (method.toList ++ rest) (c := '.') rfl (by decide)
  have hall := (hown _ (ends_method rest hm)).append (hdot.append (reads_name hm hr))
  simpa [ofSymbol] using hall

theorem receiver_spells {receiver : Node} (hw : receiver.WellFormed)
    (h : Spells (exprText receiver) receiver.exprLexemes) :
    Spells (receiverText receiver (exprText receiver))
      (receiver.receiverLexemes receiver.exprLexemes) := by
  cases receiver with
  | var pos name =>
    refine ⟨"(" ++ name ++ ")", rfl, fun rest _ => ?_⟩
    have hname := reads_name hw.proper (ends_cons rest (c := ')') (by decide) (by decide))
    simpa [Node.receiverLexemes, Node.exprLexemes] using reads_parens hname
  | _ => exact enclose_spells hw (needsParens_left _ 6) h

/-- The printed text of an expression is read as its spelling. -/
theorem exprText_spells {n : Node} (hw : n.WellFormed) (he : n.isExpr = true) :
    Spells (exprText n) n.exprLexemes := by
  induction n using Node.childInduction with
  | step n ih =>
  have child {m : Node} (hm : m ∈ n.children) (he : m.isExpr = true) :=
    ih m hm (hw.child hm) he
  cases n with
  | int pos value => exact ⟨_, rfl, fun rest hr => reads_int hw.proper hr⟩
  | float pos value => exact literal_spells hw.proper
  | string pos text => exact stringText_spells hw.proper
  | bool pos value =>
    cases value with
    | true => exact ⟨_, rfl, fun rest hr => reads_keyword .trueWord hr⟩
    | false => exact ⟨_, rfl, fun rest hr => reads_keyword .falseWord hr⟩
  | var pos name => exact ⟨_, rfl, fun rest hr => reads_name hw.proper hr⟩
  | unary pos op operand => exact unary_spells hw (child (List.mem_singleton.mpr rfl) hw.proper.2)
  | binary pos op left right =>
    exact binary_spells hw (child (List.mem_cons_self ..) hw.proper.2.1)
      (child (List.mem_cons_of_mem _ (List.mem_singleton.mpr rfl)) hw.proper.2.2)
  | call pos name args =>
    obtain ⟨hname, hargs⟩ := hw.proper
    obtain ⟨texts, htexts, hitems⟩ := argTexts_ok args (fun a ha => hw.child ha)
      fun a ha => child ha (hargs a ha)
    refine ⟨callText name texts, ?_, fun rest _ => ?_⟩
    · rw [exprText]
      exact htexts.nested.bind (.pure _)
    · exact reads_call (fun rest hr => reads_name hname hr) hitems rest
  | methodCall pos receiver method args =>
    obtain ⟨hreceiver, hmethod, hargs⟩ := hw.proper
    obtain ⟨texts, htexts, hitems⟩ := argTexts_ok args (fun a ha => hw.child ha)
      fun a ha => child ha (hargs a ha)
    refine ⟨callText (receiver ++ "." ++ method) texts, ?_, fun rest _ => ?_⟩
    · rw [exprText]
      exact htexts.nested.bind (.pure _)
    · have hown {rest : List Char} (hr : Ends rest) :=
        reads_dotted hmethod (fun rest hr => reads_name hreceiver hr) hr
      exact reads_call (fun rest hr => hown hr) hitems rest
  | exprMethodCall pos receiver method args =>
    obtain ⟨hreceiver, hmethod, hargs⟩ := hw.proper
    have hrw := hw.child (List.mem_cons_self (l := args))
    obtain ⟨texts, htexts, hitems⟩ := argTexts_ok args
      (fun a ha => hw.child (List.mem_cons_of_mem _ ha))
      fun a ha => child (List.mem_cons_of_mem _ ha) (hargs a ha)
    obtain ⟨own, hown, hread⟩ := receiver_spells hrw (child (List.mem_cons_self ..) hreceiver)
    refine ⟨callText (own ++ "." ++ method) texts, ?_, fun rest _ => ?_⟩
    · rw [exprText]
      exact hown.bind (htexts.nested.bind (.pure _))
    · have hcall := reads_call (fun rest hr => reads_dotted hmethod hread hr) hitems rest
      simpa [Node.exprLexemes] using hcall
  | unknown pos sort expr => exact hw.proper.elim
  | _ => cases he

/-! ## Lines -/

def linesText (lines : List Line) : List Char := lines.flatMap fun l => l.toText.toList ++ ['\n']

/-- Lines are read as some lexemes, the ends of the lines included. -/
def LinesRead (lines : List Line) (ls : List Lexeme) : Prop :=
  ∀ rest, Reads (linesText lines) ls rest

theorem linesRead_nil : LinesRead [] [] := reads_nil

theorem LinesRead.append {lines lines' : List Line} {ls ls' : List Lexeme}
    (h : LinesRead lines ls) (h' : LinesRead lines' ls') :
    LinesRead (lines ++ lines') (ls ++ ls') := by
  intro rest
  rw [linesText, List.flatMap_append]
  exact (h _).append (h' rest)

theorem linesText_cons (indent : Nat) (text : String) (lines : List Line) :
    linesText (⟨indent, text⟩ :: lines) =
      List.replicate (4 * indent) ' ' ++ (text.toList ++ '\n' :: linesText lines) := by
  simp [linesText, Line.toText]

theorem linesRead_line (indent : Nat) {text : String} {ls : List Lexeme}
    (h : ∀ rest, Ends rest → Reads text.toList ls rest) :
    LinesRead [⟨indent, text⟩] (ls ++ [newline]) := by
  intro rest
  have hline := (h _ (ends_cons rest (by decide) (by decide))).append (reads_newline rest)
  exact linesText_cons indent text [] ▸ (reads_spaces _ _).append hline

/-- Text in front of the first line is read in front of all lines. -/
theorem LinesRead.inFront {first : Line} {lines : List Line} {ls ls' : List Lexeme} {text : String}
    (h : LinesRead (first :: lines) ls) (ht : ∀ rest, Reads text.toList ls' rest) :
    LinesRead (⟨first.indent, text ++ first.text⟩ :: lines) (ls' ++ ls) := by
  intro rest
  have hbare : Reads (first.text.toList ++ '\n' :: linesText lines) ls rest := by
    have hfull := h rest
    rw [linesText_cons, Reads, List.append_assoc, reads_spaces _ _] at hfull
    simpa [Reads] using hfull
  rw [linesText_cons, String.toList_append, List.append_assoc]
  exact (reads_spaces _ _).append ((ht _).append hbare)

/-- Lines that are read as something are not missing. -/
theorem LinesRead.exists_cons {lines : List Line} {ls : List Lexeme} (h : LinesRead lines ls)
    (hne : ls ≠ []) : ∃ first rest, lines = first :: rest := by
  refine List.exists_cons_of_ne_nil ?_
  rintro rfl
  have hempty := h []
  simp only [Reads, linesText, List.flatMap_nil, List.append_nil, lexemes, Option.map_some,
    Option.some.injEq] at hempty
  exact hne (by simpa using hempty)

/-! ## Statements -/

theorem reads_word_space {text : String} {l : Lexeme} (rest : List Char)
    (h : ∀ rest, Ends rest → Reads text.toList [l] rest) :
    Reads (text ++ " ").toList [l] rest := by
  have hspace := ends_cons rest (c := ' ') (by decide) (by decide)
  simpa using (h _ hspace).append (reads_space rest)

/-- A header behind a keyword. -/
theorem reads_header {k : Keyword} {text : String} {ls : List Lexeme}
    (h : ∀ rest, Ends rest → Reads text.toList ls rest) (rest : List Char) (hr : Ends rest) :
    Reads (k.text ++ " " ++ text).toList (ofKeyword k :: ls) rest := by
  have hk := reads_word_space (text.toList ++ rest) fun rest hr => reads_keyword k hr
  rw [String.toList_append]
  exact hk.append (h rest hr)

theorem reads_opening {text : String} {ls : List Lexeme}
    (h : ∀ rest, Ends rest → Reads text.toList ls rest) (rest : List Char) (_ : Ends rest) :
    Reads (text ++ " \x7b").toList (ls ++ [ofSymbol .openBrace]) rest := by
  have hspace := ends_cons ('\x7b' :: rest) (c := ' ') (by decide) (by decide)
  have hbrace : Reads ['\x7b'] [ofSymbol .openBrace] rest := reads_closed rest rfl (by decide)
  have hall := (h _ hspace).append ((reads_space _).append hbrace)
  simpa using hall

theorem reads_closing (rest : List Char) :
    Reads "\x7d".toList [ofSymbol .closeBrace] rest :=
  reads_closed rest (c := '\x7d') rfl (by decide)

theorem braced_read (indent : Nat) {header : String} {hls bls : List Lexeme} {body : List Line}
    (hh : ∀ rest, Ends rest → Reads header.toList hls rest) (hb : LinesRead body bls) :
    LinesRead (braced indent header body) (hls ++ inBraces bls ++ [newline]) := by
  have hopen := linesRead_line indent (reads_opening hh)
  have hclose := linesRead_line indent fun rest _ => reads_closing rest
  simpa [braced, inBraces] using hopen.append (hb.append hclose)

/-- A statement is printed on lines that are read as its spelling. -/
def StmtRead (n : Node) : Prop :=
  ∀ indent, ∃ lines, Prints (stmtLines indent n) lines ∧
    LinesRead lines (n.stmtLexemes ++ [newline])

theorem bodyLines_read {body : List Node} (h : ∀ n ∈ body, StmtRead n) (indent : Nat) :
    ∃ lines, Prints (bodyLines indent body) lines ∧ LinesRead lines (Node.bodyLexemes body) := by
  induction body with
  | nil =>
    refine ⟨[], ?_, ?_⟩
    · rw [bodyLines]
      exact .pure _
    · rw [Node.bodyLexemes]
      exact linesRead_nil
  | cons n body ih =>
    obtain ⟨hn, hbody⟩ := List.forall_mem_cons.mp h
    obtain ⟨lines, hlines, hread⟩ := hn indent
    obtain ⟨more, hmore, hreads⟩ := ih hbody
    refine ⟨lines ++ more, ?_, ?_⟩
    · rw [bodyLines]
      exact hlines.nested.bind (hmore.bind (.pure _))
    · simpa [Node.bodyLexemes] using hread.append hreads

theorem stmtLines_of_isExpr (indent : Nat) {n : Node} (h : n.isExpr = true) :
    stmtLines indent n = return [⟨indent, ← render n⟩] := by
  cases n with
  | assign | fnDecl | ret | cond | whileLoop | forLoop | block => cases h
  | unknown => cases h; simp only [stmtLines]
  | _ => simp only [stmtLines]

theorem expression_read {n : Node} (hw : n.WellFormed) (he : n.isExpr = true) : StmtRead n := by
  intro indent
  obtain ⟨text, htext, hread⟩ := render_spells hw (exprText_spells hw he)
  refine ⟨[⟨indent, text⟩], ?_, ?_⟩
  · rw [stmtLines_of_isExpr indent he]
    exact htext.bind (.pure _)
  · rw [Node.stmtLexemes_of_isExpr he]
    exact linesRead_line indent hread

theorem assign_read {pos : Pos} {name : String} {value : Node} (hn : IsName name)
    (hv : StmtRead value) : StmtRead (.assign pos name value) := by
  intro indent
  obtain ⟨lines, hlines, hread⟩ := hv indent
  obtain ⟨first, rest, rfl⟩ := hread.exists_cons (by simp)
  refine ⟨⟨first.indent, name ++ " = " ++ first.text⟩ :: rest, ?_, ?_⟩
  · rw [stmtLines]
    exact hlines.nested.bind (.lift rfl)
  · have hname (rest : List Char) :
        Reads (name ++ " = ").toList [.name name, ofSymbol .assign] rest := by
      have hspace := ends_cons ('=' :: ' ' :: rest) (c := ' ') (by decide) (by decide)
      have hsign : Reads ['='] [ofSymbol .assign] (' ' :: rest) := reads_symbol rfl rfl
      have hall := (reads_name hn hspace).append
        ((reads_space _).append (hsign.append (reads_space _)))
      simpa using hall
    simpa [Node.stmtLexemes] using hread.inFront hname

theorem ret_read {pos : Pos} {value : Node} (hw : value.WellFormed) (he : value.isExpr = true) :
    StmtRead (.ret pos value) := by
  intro indent
  obtain ⟨text, htext, hread⟩ := render_spells hw (exprText_spells hw he)
  refine ⟨[⟨indent, "return " ++ text⟩], ?_, ?_⟩
  · rw [stmtLines]
    exact htext.bind (.pure _)
  · rw [Node.stmtLexemes]
    exact linesRead_line indent (reads_header (k := .returnWord) hread)

theorem fnDecl_read {pos : Pos} {name : String} {params : List String} {body : List Node}
    (hn : IsName name) (hp : ∀ p ∈ params, IsName p) (hb : ∀ n ∈ body, StmtRead n) :
    StmtRead (.fnDecl pos name params body) := by
  intro indent
  obtain ⟨lines, hlines, hread⟩ := bodyLines_read hb (indent + 1)
  refine ⟨braced indent ("fn " ++ callText name params) lines, ?_, ?_⟩
  · rw [stmtLines]
    exact hlines.nested.bind (.pure _)
  · have hitems : ItemsRead params (params.map fun p => [.name p]) := by
      refine List.forall₂_map_right_iff.mpr (List.forall₂_same.mpr fun p h rest hr => ?_)
      exact reads_name (hp p h) hr
    have hcall := reads_call (fun rest hr => reads_name hn hr) hitems
    have hall := braced_read indent (reads_header (k := .fnWord) fun rest _ => hcall rest) hread
    simpa [Node.stmtLexemes, Keyword.text] using hall

theorem whileLoop_read {pos : Pos} {test : Node} {body : List Node} (hw : test.WellFormed)
    (he : test.isExpr = true) (hb : ∀ n ∈ body, StmtRead n) :
    StmtRead (.whileLoop pos test body) := by
  intro indent
  obtain ⟨text, htext, htest⟩ := render_spells hw (exprText_spells hw he)
  obtain ⟨lines, hlines, hread⟩ := bodyLines_read hb (indent + 1)
  refine ⟨braced indent ("while " ++ text) lines, ?_, ?_⟩
  · rw [stmtLines]
    exact htext.bind (hlines.nested.bind (.pure _))
  · have hall := braced_read indent (reads_header (k := .whileWord) htest) hread
    simpa [Node.stmtLexemes, Keyword.text] using hall

theorem forLoop_read {pos : Pos} {x : String} {low high : Node} {body : List Node}
    (hw : (Node.forLoop pos x low high body).WellFormed) (hb : ∀ n ∈ body, StmtRead n) :
    StmtRead (.forLoop pos x low high body) := by
  intro indent
  obtain ⟨hx, hle, hhe⟩ := hw.proper
  have hlw : low.WellFormed := hw.child (List.mem_cons_self ..)
  have hhw : high.WellFormed := hw.child (List.mem_cons_of_mem _ (List.mem_cons_self ..))
  obtain ⟨a, ha, hlow⟩ := render_spells hlw (exprText_spells hlw hle)
  obtain ⟨b, hb', hhigh⟩ := render_spells hhw (exprText_spells hhw hhe)
  obtain ⟨lines, hlines, hread⟩ := bodyLines_read hb (indent + 1)
  refine ⟨braced indent ("for " ++ x ++ " in [" ++ a ++ ", " ++ b ++ "]") lines, ?_, ?_⟩
  · rw [stmtLines]
    exact ha.bind (hb'.bind (hlines.nested.bind (.pure _)))
  · have hspace (more : List Char) := ends_cons more (c := ' ') (by decide) (by decide)
    have hrange (rest : List Char) (_ : Ends rest) : Reads (x ++ " in [" ++ a ++ ", " ++ b ++ "]").toList
        (.name x :: ofKeyword .inWord :: ofSymbol .openBracket ::
          (low.exprLexemes ++ ofSymbol .comma :: (high.exprLexemes ++ [ofSymbol .closeBracket])))
        rest := by
      have hclose : Reads [']'] [ofSymbol .closeBracket] rest := reads_closed rest rfl (by decide)
      have hcomma (more : List Char) := ends_cons more (c := ',') (by decide) (by decide)
      have hopen (more : List Char) : Reads ['['] [ofSymbol .openBracket] more :=
        reads_closed more rfl (by decide)
      have hend := (hhigh _ (ends_cons rest (by decide) (by decide))).append hclose
      have hbounds := (hlow _ (hcomma _)).append ((reads_comma _).append hend)
      have hkey (more : List Char) :
          Reads (Keyword.inWord.text ++ " ").toList [ofKeyword .inWord] more :=
        reads_word_space more fun rest hr => reads_keyword .inWord hr
      have hin := (hkey _).append ((hopen _).append hbounds)
      have hall := (reads_name hx (hspace _)).append ((reads_space _).append hin)
      simpa [Keyword.text] using hall
    have hall := braced_read indent (reads_header (k := .forWord) hrange) hread
    simpa [Node.stmtLexemes, Keyword.text, String.append_assoc] using hall

/-- An `else` is printed on lines that begin with the brace before it. -/
def ElseRead (elseBody : Option (List Node)) : Prop :=
  ∀ indent, ∃ lines, Prints (elseLines indent elseBody) lines ∧
    LinesRead lines (ofSymbol .closeBrace :: (Node.elseLexemes elseBody ++ [newline]))

theorem cond_read {pos : Pos} {test : Node} {thenBody : List Node}
    {elseBody : Option (List Node)} (hw : test.WellFormed) (he : test.isExpr = true)
    (hb : ∀ n ∈ thenBody, StmtRead n) (helse : ElseRead elseBody) :
    StmtRead (.cond pos test thenBody elseBody) := by
  intro indent
  obtain ⟨text, htext, htest⟩ := render_spells hw (exprText_spells hw he)
  obtain ⟨inner, hinner, hread⟩ := bodyLines_read hb (indent + 1)
  obtain ⟨more, hmore, hreads⟩ := helse indent
  refine ⟨⟨indent, "if " ++ text ++ " \x7b"⟩ :: (inner ++ more), ?_, ?_⟩
  · rw [stmtLines]
    exact .nested (htext.bind (hinner.nested.bind (hmore.bind (.pure _))))
  · have hheader := linesRead_line indent (reads_opening (reads_header (k := .ifWord) htest))
    have hall := hheader.append (hread.append hreads)
    simpa [Node.stmtLexemes, inBraces, Keyword.text] using hall

theorem reads_closing_else (rest : List Char) (hr : Ends rest) :
    Reads "\x7d else".toList [ofSymbol .closeBrace, ofKeyword .elseWord] rest :=
  (reads_closing _).append ((reads_space _).append (reads_keyword .elseWord hr))

theorem elseLines_cond (indent : Nat) (pos : Pos) (test : Node) (thenBody : List Node)
    (elseBody : Option (List Node)) {first : Line} {rest : List Line}
    (h : Prints (stmtLines indent (.cond pos test thenBody elseBody)) (first :: rest)) :
    Prints (elseLines indent (some [.cond pos test thenBody elseBody]))
      (⟨first.indent, "\x7d else " ++ first.text⟩ :: rest) := by
  rw [stmtLines] at h
  rw [elseLines]
  obtain ⟨text, htext, h⟩ := Prints.bind_iff.mp h
  obtain ⟨inner, hinner, h⟩ := Prints.bind_iff.mp h
  obtain ⟨more, hmore, h⟩ := Prints.bind_iff.mp h
  cases h
  simp only [← String.append_assoc]
  exact htext.bind (hinner.bind (hmore.bind (.pure _)))

theorem elseLines_block (indent : Nat) {body : List Node}
    (h : ∀ pos test thenBody elseBody, body ≠ [.cond pos test thenBody elseBody]) :
    elseLines indent (some body) =
      return braced indent "\x7d else" (← nested (bodyLines (indent + 1) body)) := by
  rw [elseLines.eq_def]
  split
  · next heq => cases heq
  · next heq => exact absurd (Option.some.inj heq) (h _ _ _ _)
  · next heq => cases heq; rfl

theorem else_block_read {body : List Node} (hb : ∀ n ∈ body, StmtRead n)
    (hne : ∀ pos test thenBody elseBody, body ≠ [.cond pos test thenBody elseBody]) :
    ElseRead (some body) := by
  intro indent
  obtain ⟨lines, hlines, hread⟩ := bodyLines_read hb (indent + 1)
  refine ⟨braced indent "\x7d else" lines, ?_, ?_⟩
  · rw [elseLines_block indent hne]
    exact hlines.nested.bind (.pure _)
  · rw [Node.elseLexemes_block hne]
    simpa using braced_read indent reads_closing_else hread

theorem else_read {elseBody : Option (List Node)} (hb : ∀ n ∈ elseBody.getD [], StmtRead n) :
    ElseRead elseBody := by
  intro indent
  cases elseBody with
  | none =>
    refine ⟨[⟨indent, "\x7d"⟩], by rw [elseLines]; exact .pure _, ?_⟩
    rw [Node.elseLexemes]
    exact linesRead_line indent fun rest _ => reads_closing rest
  | some body =>
    by_cases hcond : ∃ pos test thenBody elseBody, body = [.cond pos test thenBody elseBody]
    · obtain ⟨pos, test, thenBody, elseBody, rfl⟩ := hcond
      obtain ⟨lines, hlines, hread⟩ := hb _ (List.mem_singleton.mpr rfl) indent
      obtain ⟨first, rest, rfl⟩ := hread.exists_cons (by simp)
      refine ⟨_, elseLines_cond indent pos test thenBody elseBody hlines, ?_⟩
      have hword (rest : List Char) : Reads ("\x7d else" ++ " ").toList
          [ofSymbol .closeBrace, ofKeyword .elseWord] rest := by
        have hspace := ends_cons rest (c := ' ') (by decide) (by decide)
        simpa using (reads_closing_else _ hspace).append (reads_space rest)
      rw [Node.elseLexemes_cond]
      exact hread.inFront hword
    · exact else_block_read hb (fun _ _ _ _ h => hcond ⟨_, _, _, _, h⟩) indent

/-- The printed lines of a statement are read as its spelling. -/
theorem stmt_read {n : Node} (hw : n.WellFormed) : StmtRead n := by
  induction n using Node.childInduction with
  | step n ih =>
  have child {m : Node} (hm : m ∈ n.children) : StmtRead m := ih m hm (hw.child hm)
  cases n with
  | assign pos name value => exact assign_read hw.proper (child (List.mem_singleton.mpr rfl))
  | fnDecl pos name params body =>
    exact fnDecl_read hw.proper.1 hw.proper.2 fun n hn => child hn
  | ret pos value => exact ret_read (hw.child (List.mem_singleton.mpr rfl)) hw.proper
  | cond pos test thenBody elseBody =>
    refine cond_read (hw.child (List.mem_cons_self ..)) hw.proper (fun n hn => child ?_)
      (else_read fun n hn => child ?_)
    · exact List.mem_cons_of_mem _ (List.mem_append_left _ hn)
    · exact List.mem_cons_of_mem _ (List.mem_append_right _ hn)
  | whileLoop pos test body =>
    exact whileLoop_read (hw.child (List.mem_cons_self ..)) hw.proper
      fun n hn => child (List.mem_cons_of_mem _ hn)
  | forLoop pos x low high body =>
    exact forLoop_read hw fun n hn => child (List.mem_cons_of_mem _ (List.mem_cons_of_mem _ hn))
  | block => exact hw.proper.elim
  | unknown => exact hw.proper.elim
  | _ => exact expression_read hw rfl

/-! ## Programs -/

theorem toList_lines (first : Line) (rest : List Line) :
    (String.intercalate "\n" ((first :: rest).map Line.toText)).toList ++ ['\n'] =
      linesText (first :: rest) := by
  induction rest generalizing first with
  | nil => simp [linesText]
  | cons next rest ih =>
    rw [List.map_cons, List.map_cons, String.intercalate_cons_cons, String.toList_append,
      List.append_assoc, ← List.map_cons, ih]
    simp [linesText]

end Printer

theorem Printer.bodyLexemes_ne_newline {body : List Node} (h : ∀ n ∈ body, n.WellFormed) :
    Node.bodyLexemes body ≠ [.newline] := by
  cases body with
  | nil => simp [Node.bodyLexemes]
  | cons n rest =>
    obtain ⟨l, ls, hl, _⟩ := Node.begins_stmtLexemes (h n (List.mem_cons_self ..))
    simp [Node.bodyLexemes, hl]

/-- A well-formed program is printed, and its text is read as its spelling and a last line end. -/
theorem Program.print_reads {p : Program} (h : p.WellFormed) :
    ∃ text, p.print none = .ok text ∧
      Lexer.lexemes 0 text.toList = some (Node.bodyLexemes p.body ++ [.newline]) := by
  obtain ⟨lines, hlines, hread⟩ := Printer.bodyLines_read (fun n hn => Printer.stmt_read (h n hn)) 0
  have hend : Lexer.lexemes 0 (Printer.linesText lines) =
      some (Node.bodyLexemes p.body ++ [.newline]) := by
    simpa [Lexer.Reads, Lexer.lexemes, Lexeme.newline] using hread []
  refine ⟨_, hlines.bind (.pure _), ?_⟩
  cases lines with
  | nil => exact hend
  | cons first rest =>
    have htext := Printer.toList_lines first rest
    split
    · next hempty =>
      rw [← htext, hempty] at hend
      have hbody : [.newline] ++ [.newline] = Node.bodyLexemes p.body ++ [.newline] :=
        Option.some.inj hend
      exact absurd (List.append_cancel_right hbody).symm (Printer.bodyLexemes_ne_newline h)
    · rw [String.toList_append]
      exact htext ▸ hend

end ExScript
