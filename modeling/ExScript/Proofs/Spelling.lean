import ExScript.Proofs.Nesting
import ExScript.Proofs.WellFormed

/-!
# How a tree is spelled

`Node.exprLexemes` and `Node.stmtLexemes` are the lexemes of the printed text of a tree.  They stand
between the printer and the parser: the printed text is read as these lexemes, and the parser makes
the tree of them again.  Parentheses stand where an expression binds less tightly than its place
asks for.
-/

namespace ExScript

namespace Lexeme

def ofSymbol (s : Symbol) : Lexeme := .ofMark (.symbol s)

def ofKeyword (k : Keyword) : Lexeme := .ofMark (.keyword k)

def newline : Lexeme := .ofMark .newline

def inParens (ls : List Lexeme) : List Lexeme :=
  ofSymbol .openParen :: (ls ++ [ofSymbol .closeParen])

/-- The lines of a block, from its opening brace to its closing one. -/
def inBraces (ls : List Lexeme) : List Lexeme :=
  ofSymbol .openBrace :: newline :: (ls ++ [ofSymbol .closeBrace])

/-- An expression at a place where at least the level `outer` is wanted. -/
def placed (outer level : Nat) (ls : List Lexeme) : List Lexeme :=
  if level < outer then inParens ls else ls

/-- Items with commas between them. -/
def separated : List (List Lexeme) → List Lexeme
  | [] => []
  | first :: rest => first ++ rest.flatMap (ofSymbol .comma :: ·)

end Lexeme

def UnaryOp.lexeme : UnaryOp → Lexeme
  | .plus => .ofSymbol .plus
  | .minus => .ofSymbol .minus
  | .other text => .ofMark (.other text)

def BinaryOp.lexeme : BinaryOp → Lexeme
  | .equal => .ofSymbol .equal
  | .notEqual => .ofSymbol .notEqual
  | .greater => .ofSymbol .greater
  | .atLeast => .ofSymbol .atLeast
  | .less => .ofSymbol .less
  | .atMost => .ofSymbol .atMost
  | .add => .ofSymbol .plus
  | .sub => .ofSymbol .minus
  | .mul => .ofSymbol .star
  | .div => .ofSymbol .slash
  | .other text => .ofMark (.other text)

namespace Node

open Lexeme (ofSymbol ofKeyword newline inParens inBraces placed separated)

/-- A bare name before a method stands in parentheses. -/
def receiverLexemes (receiver : Node) (ls : List Lexeme) : List Lexeme :=
  match receiver with
  | var .. => inParens ls
  | n => placed 6 n.level ls

/-! ## Expressions -/

mutual

def exprLexemes : Node → List Lexeme
  | int _ value => [.int value]
  | float _ value => [.float value]
  | string _ text => [.string text]
  | bool _ value => [ofKeyword (if value then .trueWord else .falseWord)]
  | var _ name => [.name name]
  | unary _ op operand => op.lexeme :: placed 5 operand.level operand.exprLexemes
  | binary _ op left right =>
    placed op.level left.level left.exprLexemes ++
      op.lexeme :: placed (op.level + 1) right.level right.exprLexemes
  | call _ name args => .name name :: inParens (separated (argLexemes args))
  | methodCall _ receiver method args =>
    .name receiver :: ofSymbol .dot :: .name method :: inParens (separated (argLexemes args))
  | exprMethodCall _ receiver method args =>
    receiverLexemes receiver receiver.exprLexemes ++
      ofSymbol .dot :: .name method :: inParens (separated (argLexemes args))
  | _ => []

def argLexemes : List Node → List (List Lexeme)
  | [] => []
  | arg :: rest => arg.exprLexemes :: argLexemes rest

end

/-! ## Statements -/

mutual

/-- A statement up to the end of its last line. -/
def stmtLexemes : Node → List Lexeme
  | assign _ name value => .name name :: ofSymbol .assign :: value.stmtLexemes
  | fnDecl _ name params body =>
    ofKeyword .fnWord :: .name name ::
      (inParens (separated (params.map fun p => [.name p])) ++ inBraces (bodyLexemes body))
  | ret _ value => ofKeyword .returnWord :: value.exprLexemes
  | cond _ test thenBody elseBody =>
    ofKeyword .ifWord ::
      (test.exprLexemes ++ (inBraces (bodyLexemes thenBody) ++ elseLexemes elseBody))
  | whileLoop _ test body =>
    ofKeyword .whileWord :: (test.exprLexemes ++ inBraces (bodyLexemes body))
  | forLoop _ x low high body =>
    ofKeyword .forWord :: .name x :: ofKeyword .inWord :: ofSymbol .openBracket ::
      (low.exprLexemes ++ ofSymbol .comma ::
        (high.exprLexemes ++ ofSymbol .closeBracket :: inBraces (bodyLexemes body)))
  | n => n.exprLexemes

def bodyLexemes : List Node → List Lexeme
  | [] => []
  | n :: rest => n.stmtLexemes ++ newline :: bodyLexemes rest

/-- What follows the closing brace of an `if`. -/
def elseLexemes : Option (List Node) → List Lexeme
  | none => []
  | some [cond _ test thenBody elseBody] =>
    ofKeyword .elseWord :: ofKeyword .ifWord ::
      (test.exprLexemes ++ (inBraces (bodyLexemes thenBody) ++ elseLexemes elseBody))
  | some body => ofKeyword .elseWord :: inBraces (bodyLexemes body)

end

theorem elseLexemes_cond (pos : Pos) (test : Node) (thenBody : List Node)
    (elseBody : Option (List Node)) :
    elseLexemes (some [cond pos test thenBody elseBody]) =
      ofKeyword .elseWord :: (cond pos test thenBody elseBody).stmtLexemes := by
  rw [elseLexemes, stmtLexemes]

/-- Only an `if` that stands alone goes without braces. -/
theorem elseLexemes_block {body : List Node}
    (h : ∀ pos test thenBody elseBody, body ≠ [cond pos test thenBody elseBody]) :
    elseLexemes (some body) = ofKeyword .elseWord :: inBraces (bodyLexemes body) := by
  rw [elseLexemes.eq_def]
  split
  · next heq => cases heq
  · next heq => exact absurd (Option.some.inj heq) (h _ _ _ _)
  · next heq => cases heq; rfl

theorem stmtLexemes_of_isExpr {n : Node} (h : n.isExpr = true) :
    n.stmtLexemes = n.exprLexemes := by
  cases n with
  | assign | fnDecl | ret | cond | whileLoop | forLoop => cases h
  | _ => simp [stmtLexemes]

end Node

/-! ## First lexemes -/

namespace Kind

/-- The kinds of the first lexeme of a literal, a name or parentheses. -/
def beginsPrimary : Kind → Bool
  | int | float | string | name => true
  | mark (.keyword .trueWord) | mark (.keyword .falseWord) | mark (.symbol .openParen) => true
  | _ => false

def beginsExpr : Kind → Bool
  | mark (.symbol .plus) | mark (.symbol .minus) => true
  | k => k.beginsPrimary

def beginsStmt : Kind → Bool
  | mark (.keyword .fnWord) | mark (.keyword .whileWord) | mark (.keyword .forWord) => true
  | mark (.keyword .ifWord) | mark (.keyword .returnWord) => true
  | k => k.beginsExpr

theorem beginsExpr_of_beginsPrimary {k : Kind} (h : k.beginsPrimary = true) :
    k.beginsExpr = true := by
  unfold beginsExpr
  split
  · rfl
  · rfl
  · exact h

theorem beginsStmt_of_beginsExpr {k : Kind} (h : k.beginsExpr = true) : k.beginsStmt = true := by
  unfold beginsStmt
  split <;> first | rfl | exact h

end Kind

namespace Lexeme

/-- The first of some lexemes is of a kind with some property. -/
def Begins (P : Kind → Bool) (ls : List Lexeme) : Prop :=
  ∃ l rest, ls = l :: rest ∧ P l.kind = true

variable {P Q : Kind → Bool} {ls : List Lexeme}

theorem Begins.mono (h : Begins P ls) (hpq : ∀ k, P k = true → Q k = true) : Begins Q ls := by
  obtain ⟨l, rest, rfl, hl⟩ := h
  exact ⟨l, rest, rfl, hpq _ hl⟩

theorem Begins.append (h : Begins P ls) (more : List Lexeme) : Begins P (ls ++ more) := by
  obtain ⟨l, rest, rfl, hl⟩ := h
  exact ⟨l, rest ++ more, rfl, hl⟩

theorem begins_inParens (ls : List Lexeme) : Begins Kind.beginsPrimary (inParens ls) :=
  ⟨_, _, rfl, rfl⟩

theorem begins_placed (outer level : Nat) (h : Begins Kind.beginsExpr ls) :
    Begins Kind.beginsExpr (placed outer level ls) := by
  rw [placed]
  split
  · exact (begins_inParens ls).mono fun _ => Kind.beginsExpr_of_beginsPrimary
  · exact h

end Lexeme

namespace Node

open Lexeme (ofSymbol ofKeyword inParens placed separated Begins begins_inParens begins_placed)

/-- Signs stand in front of unary expressions, and of binary ones that begin with these. -/
theorem begins_exprLexemes {n : Node} (hw : n.WellFormed) (he : n.isExpr = true) :
    Begins Kind.beginsExpr n.exprLexemes ∧
      (6 ≤ n.level → Begins Kind.beginsPrimary n.exprLexemes) := by
  induction n using childInduction with
  | step n ih =>
  have primary (h : Begins Kind.beginsPrimary n.exprLexemes) :
      Begins Kind.beginsExpr n.exprLexemes ∧
        (6 ≤ n.level → Begins Kind.beginsPrimary n.exprLexemes) :=
    ⟨h.mono fun _ => Kind.beginsExpr_of_beginsPrimary, fun _ => h⟩
  cases n with
  | int | float | string | var | call | methodCall =>
    exact primary (by rw [exprLexemes]; exact ⟨_, _, rfl, rfl⟩)
  | bool pos value =>
    exact primary (by rw [exprLexemes]; exact ⟨_, _, rfl, by cases value <;> rfl⟩)
  | unary pos op operand =>
    rw [exprLexemes]
    refine ⟨⟨_, _, rfl, ?_⟩, fun h => absurd h (by simp [level])⟩
    have hop := hw.proper.1
    cases op <;> first | rfl | exact hop.elim
  | binary pos op left right =>
    obtain ⟨hop, hl, _⟩ := hw.proper
    have hleft := (ih left (List.mem_cons_self ..) (hw.child (List.mem_cons_self ..)) hl).1
    rw [exprLexemes]
    refine ⟨(begins_placed _ _ hleft).append _, fun h => ?_⟩
    cases op <;> first | exact hop.elim | simp [level, BinaryOp.level] at h
  | exprMethodCall pos receiver method args =>
    have hreceiver := ih receiver (List.mem_cons_self ..) (hw.child (List.mem_cons_self ..))
      hw.proper.1
    refine primary ?_
    rw [exprLexemes]
    refine Begins.append ?_ _
    cases receiver with
    | var => exact begins_inParens _
    | _ =>
      change Begins _ (placed 6 _ _)
      rw [placed]
      split
      · exact begins_inParens _
      · exact hreceiver.2 (by omega)
  | unknown => exact hw.proper.elim
  | _ => cases he

theorem begins_stmtLexemes {n : Node} (hw : n.WellFormed) :
    Begins Kind.beginsStmt n.stmtLexemes := by
  cases n with
  | block => exact hw.proper.elim
  | unknown => exact hw.proper.elim
  | assign | fnDecl | ret | cond | whileLoop | forLoop =>
    rw [stmtLexemes]
    exact ⟨_, _, rfl, rfl⟩
  | _ =>
    rw [stmtLexemes_of_isExpr rfl]
    exact (begins_exprLexemes hw rfl).1.mono fun _ => Kind.beginsStmt_of_beginsExpr

/-! ## No assignment sign inside an expression -/

def NoAssign (ls : List Lexeme) : Prop := ∀ l ∈ ls, l.kind ≠ .mark (.symbol .assign)

theorem noAssign_nil : NoAssign [] := fun _ h => absurd h List.not_mem_nil

theorem NoAssign.cons {l : Lexeme} {ls : List Lexeme} (h : NoAssign ls)
    (hl : l.kind ≠ .mark (.symbol .assign)) : NoAssign (l :: ls) :=
  List.forall_mem_cons.mpr ⟨hl, h⟩

theorem NoAssign.append {ls ls' : List Lexeme} (h : NoAssign ls) (h' : NoAssign ls') :
    NoAssign (ls ++ ls') :=
  List.forall_mem_append.mpr ⟨h, h'⟩

theorem NoAssign.inParens {ls : List Lexeme} (h : NoAssign ls) : NoAssign (inParens ls) :=
  (h.append (noAssign_nil.cons (by decide))).cons (by decide)

theorem NoAssign.placed {ls : List Lexeme} {outer level : Nat} (h : NoAssign ls) :
    NoAssign (placed outer level ls) := by
  rw [Lexeme.placed]
  split
  · exact h.inParens
  · exact h

theorem noAssign_args (args : List Node) (h : ∀ a ∈ args, NoAssign a.exprLexemes) :
    NoAssign (inParens (separated (argLexemes args))) := by
  have hmore (args : List Node) (h : ∀ a ∈ args, NoAssign a.exprLexemes) :
      NoAssign ((argLexemes args).flatMap (ofSymbol .comma :: ·)) := by
    induction args with
    | nil => exact noAssign_nil
    | cons a args ih =>
      obtain ⟨ha, hargs⟩ := List.forall_mem_cons.mp h
      exact (ha.cons (by decide)).append (ih hargs)
  cases args with
  | nil => exact noAssign_nil.inParens
  | cons a args =>
    obtain ⟨ha, hargs⟩ := List.forall_mem_cons.mp h
    exact (ha.append (hmore args hargs)).inParens

theorem noAssign_exprLexemes {n : Node} (hw : n.WellFormed) (he : n.isExpr = true) :
    NoAssign n.exprLexemes := by
  induction n using childInduction with
  | step n ih =>
  have child {m : Node} (hm : m ∈ n.children) (he : m.isExpr = true) :=
    ih m hm (hw.child hm) he
  cases n with
  | int | float | string | var =>
    rw [exprLexemes]
    exact noAssign_nil.cons Kind.noConfusion
  | bool pos value =>
    rw [exprLexemes]
    exact noAssign_nil.cons (by cases value <;> decide)
  | unary pos op operand =>
    obtain ⟨hop, ho⟩ := hw.proper
    have hlexeme : op.lexeme.kind ≠ .mark (.symbol .assign) := by
      cases op <;> first | decide | exact hop.elim
    rw [exprLexemes]
    exact (child (List.mem_cons_self ..) ho).placed.cons hlexeme
  | binary pos op left right =>
    obtain ⟨hop, hl, hr⟩ := hw.proper
    have hlexeme : op.lexeme.kind ≠ .mark (.symbol .assign) := by
      cases op <;> first | decide | exact hop.elim
    have hright := child (List.mem_cons_of_mem _ (List.mem_singleton.mpr rfl)) hr
    rw [exprLexemes]
    exact (child (List.mem_cons_self ..) hl).placed.append (hright.placed.cons hlexeme)
  | call pos name args =>
    rw [exprLexemes]
    exact (noAssign_args args fun a ha => child ha (hw.proper.2 a ha)).cons Kind.noConfusion
  | methodCall pos receiver method args =>
    have hargs := noAssign_args args fun a ha => child ha (hw.proper.2.2 a ha)
    rw [exprLexemes]
    exact ((hargs.cons Kind.noConfusion).cons (by decide)).cons Kind.noConfusion
  | exprMethodCall pos receiver method args =>
    obtain ⟨hr, _, ha⟩ := hw.proper
    have hreceiver := child (List.mem_cons_self ..) hr
    have hargs := noAssign_args args fun a hm => child (List.mem_cons_of_mem _ hm) (ha a hm)
    have hown : NoAssign (receiver.receiverLexemes receiver.exprLexemes) := by
      cases receiver with
      | var => exact hreceiver.inParens
      | _ => exact hreceiver.placed
    rw [exprLexemes]
    exact hown.append ((hargs.cons Kind.noConfusion).cons (by decide))
  | unknown => exact hw.proper.elim
  | _ => cases he

end Node

end ExScript
