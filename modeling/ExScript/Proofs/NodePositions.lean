import ExScript.Proofs.LexicalLayout
import ExScript.Proofs.PureExpressions
import ExScript.Proofs.RoundTrip

/-!
# Where nodes stand

A node of a parsed tree has the position of a token that belongs to it: its literal, its name, its
sign or its keyword, or what its left operand or its receiver begins with (`Node.lexeme?`).  By the
grammar there is such a token (`Node.Anchored`), and by the layout of the lines the text at its
position begins with the spelling of the lexeme (`positions_point`).  No node has the position of a
parenthesis around it.
-/

namespace ExScript

/-- A mark with the text that it has in a source. -/
def Lexeme.plain : Lexeme → Lexeme
  | .mark m _ => .ofMark m
  | l => l

theorem Token.plain_of_kind {t : Token} {m : Mark} (h : t.kind = .mark m) :
    t.lexeme.plain = .ofMark m := by
  obtain ⟨l, pos⟩ := t
  cases l with
  | mark m' text => cases h; rfl
  | _ => cases h

namespace Node

/-- The lexeme that a node begins with, parentheses left aside. -/
def lexeme? : Node → Option Lexeme
  | int _ value => some (.int value)
  | float _ value => some (.float value)
  | string _ text => some (.string text)
  | bool _ true => some (.ofMark (.keyword .trueWord))
  | bool _ false => some (.ofMark (.keyword .falseWord))
  | var _ name | call _ name _ | methodCall _ name _ _ | assign _ name _ => some (.name name)
  | unary _ .plus _ => some (.ofMark (.symbol .plus))
  | unary _ .minus _ => some (.ofMark (.symbol .minus))
  | binary _ _ left _ => left.lexeme?
  | exprMethodCall _ receiver _ _ => receiver.lexeme?
  | fnDecl .. => some (.ofMark (.keyword .fnWord))
  | ret .. => some (.ofMark (.keyword .returnWord))
  | cond .. => some (.ofMark (.keyword .ifWord))
  | whileLoop .. => some (.ofMark (.keyword .whileWord))
  | forLoop .. => some (.ofMark (.keyword .forWord))
  | unary _ (.other _) _ | block .. | unknown .. => none

/-- The part that gives a node its position. -/
def leading? : Node → Option Node
  | binary _ _ left _ => some left
  | exprMethodCall _ receiver _ _ => some receiver
  | _ => none

/-- Among the tokens is the one that the node begins with, and it has the position of the node. -/
structure Anchored (ts : List Token) (n : Node) : Prop where
  token : ∃ t ∈ ts, t.pos = n.pos ∧ n.lexeme? = some t.lexeme.plain
  leading : ∀ m ∈ n.leading?, n.pos = m.pos

def AllAnchored (ts : List Token) (root : Node) : Prop := ∀ n, Inside root n → n.Anchored ts

variable {ts us : List Token} {t : Token} {n : Node}

theorem AllAnchored.mono (h : AllAnchored us n) (hs : us <:+ ts) : AllAnchored ts n := by
  intro m hm
  obtain ⟨⟨t, ht, hpos, hl⟩, hlead⟩ := h m hm
  exact ⟨⟨t, hs.subset ht, hpos, hl⟩, hlead⟩

theorem anchored_head (hpos : t.pos = n.pos) (hl : n.lexeme? = some t.lexeme.plain)
    (hlead : n.leading? = none) : n.Anchored (t :: ts) :=
  ⟨⟨t, List.mem_cons_self, hpos, hl⟩, hlead ▸ nofun⟩

theorem allAnchored_of_children (hn : n.Anchored ts) (hc : ∀ c ∈ n.children, AllAnchored ts c) :
    AllAnchored ts n := by
  intro m hm
  rcases hm.root_or_below with rfl | ⟨c, hmem, hm⟩
  · exact hn
  · exact hc c hmem m hm

theorem allAnchored_leaf (hpos : t.pos = n.pos) (hl : n.lexeme? = some t.lexeme.plain)
    (hlead : n.leading? = none) (hc : n.children = []) : AllAnchored (t :: ts) n :=
  allAnchored_of_children (anchored_head hpos hl hlead) (hc ▸ List.forall_mem_nil _)

theorem AllAnchored.root (h : AllAnchored ts n) : n.Anchored ts := h n .root

end Node

namespace Grammar

open Node

mutual

theorem Tiered.anchored : ∀ {tier ts n rest}, Tiered tier ts n rest → AllAnchored ts n
  | _, _, _, _, .operand h => h.anchored
  | _, _, _, _, .binary ha _ _ hb =>
    allAnchored_of_children ⟨ha.anchored.root.token, by rintro _ ⟨⟩; rfl⟩ <|
      List.forall_mem_cons.mpr ⟨ha.anchored,
        List.forall_mem_singleton.mpr (hb.anchored.mono (suffix_of_cons ha.past.suffix))⟩

theorem Operand.anchored : ∀ {tier ts n rest}, Operand tier ts n rest → AllAnchored ts n
  | _, _, _, _, .comparison h => h.anchored
  | _, _, _, _, .sum h => h.anchored
  | _, _, _, _, .product h => h.anchored
  | _, _, _, _, .unary h => h.anchored

theorem Unary.anchored : ∀ {ts n rest}, Unary ts n rest → AllAnchored ts n
  | _, _, _, .sign ho ht h => by
    refine allAnchored_of_children (anchored_head rfl ?_ rfl)
      (List.forall_mem_singleton.mpr (h.anchored.mono (List.suffix_cons ..)))
    rw [Token.plain_of_kind ht]
    simp only [signs, List.mem_cons, Prod.mk.injEq, List.not_mem_nil, or_false] at ho
    rcases ho with ⟨rfl, rfl⟩ | ⟨rfl, rfl⟩ <;> rfl
  | _, _, _, .plain h => h.anchored

theorem Postfixed.anchored : ∀ {ts n rest}, Postfixed ts n rest → AllAnchored ts n
  | _, _, _, .primary h => h.anchored
  | _, _, _, .variableMethod _ _ ha _ =>
    allAnchored_of_children (anchored_head rfl rfl rfl) fun c hc =>
      (ha.anchored c hc).mono (List.suffix_append [_, _, _, _] _)
  | _, _, _, .method hr _ _ _ ha _ =>
    allAnchored_of_children ⟨hr.anchored.root.token, by rintro _ ⟨⟩; rfl⟩ <|
      List.forall_mem_cons.mpr ⟨hr.anchored, fun c hc => (ha.anchored c hc).mono
        ((List.suffix_append [_, _, _] _).trans hr.past.suffix)⟩

theorem Primary.anchored : ∀ {ts n rest}, Primary ts n rest → AllAnchored ts n
  | _, _, _, .int | _, _, _, .float | _, _, _, .string | _, _, _, .var =>
    allAnchored_leaf rfl rfl rfl rfl
  | _, _, _, .trueWord ht | _, _, _, .falseWord ht =>
    allAnchored_leaf rfl (congrArg some (Token.plain_of_kind ht).symm) rfl rfl
  | _, _, _, .call _ ha _ =>
    allAnchored_of_children (anchored_head rfl rfl rfl) fun c hc =>
      (ha.anchored c hc).mono (List.suffix_append [_, _] _)
  | _, _, _, .parens _ h _ => h.anchored.mono (List.suffix_cons ..)

theorem Arguments.anchored : ∀ {ts ns rest}, Arguments ts ns rest → ∀ n ∈ ns, AllAnchored ts n
  | _, _, _, .none => List.forall_mem_nil _
  | _, _, _, .some h hs => List.forall_mem_cons.mpr
    ⟨h.anchored, fun n hn => (hs.anchored n hn).mono h.past.suffix⟩

theorem MoreArguments.anchored :
    ∀ {ts ns rest}, MoreArguments ts ns rest → ∀ n ∈ ns, AllAnchored ts n
  | _, _, _, .nil => List.forall_mem_nil _
  | _, _, _, .cons _ h hs => List.forall_mem_cons.mpr
    ⟨h.anchored.mono (List.suffix_cons ..), fun n hn =>
      (hs.anchored n hn).mono (h.past.suffix.trans (List.suffix_cons ..))⟩

end

/-- A statement that begins with a keyword. -/
theorem anchored_keyword {k : Keyword} {t : Token} {ts : List Token} {n : Node} (ht : IsWord k t)
    (hpos : t.pos = n.pos) (hl : n.lexeme? = some (.ofMark (.keyword k)))
    (hlead : n.leading? = none) : n.Anchored (t :: ts) :=
  anchored_head hpos (hl.trans (congrArg some (Token.plain_of_kind ht).symm)) hlead

mutual

theorem Statement.anchored : ∀ {ts n rest}, Statement ts n rest → AllAnchored ts n
  | _, _, _, .assign _ h =>
    allAnchored_of_children (anchored_head rfl rfl rfl)
      (List.forall_mem_singleton.mpr (h.anchored.mono (List.suffix_append [_, _] _)))
  | _, _, _, .fnDecl hf _ hp _ hb =>
    allAnchored_of_children (anchored_keyword hf rfl rfl rfl) fun c hc => (hb.anchored c hc).mono
      ((suffix_of_cons hp.suffix).trans (List.suffix_append [_, _, _] _))
  | _, _, _, .whileLoop ht he hb =>
    allAnchored_of_children (anchored_keyword ht rfl rfl rfl) <| List.forall_mem_cons.mpr
      ⟨he.anchored.mono (List.suffix_cons ..), fun c hc => (hb.anchored c hc).mono
        (he.past.suffix.trans (List.suffix_cons ..))⟩
  | _, _, _, .forLoop ht _ _ hl _ hh _ hb =>
    have hs := List.suffix_append [_, _, _, _] _
    have hmid := (suffix_of_cons hl.past.suffix).trans hs
    allAnchored_of_children (anchored_keyword ht rfl rfl rfl) <| List.forall_mem_cons.mpr
      ⟨hl.anchored.mono hs, List.forall_mem_cons.mpr ⟨hh.anchored.mono hmid, fun c hc =>
        (hb.anchored c hc).mono ((suffix_of_cons hh.past.suffix).trans hmid)⟩⟩
  | _, _, _, .cond h => h.anchored
  | _, _, _, .ret ht h =>
    allAnchored_of_children (anchored_keyword ht rfl rfl rfl)
      (List.forall_mem_singleton.mpr (h.anchored.mono (List.suffix_cons ..)))
  | _, _, _, .expression h => Tiered.anchored h

theorem If.anchored : ∀ {ts n rest}, If ts n rest → AllAnchored ts n
  | _, _, _, .plain ht he hb =>
    allAnchored_of_children (anchored_keyword ht rfl rfl rfl) <| List.forall_mem_cons.mpr
      ⟨he.anchored.mono (List.suffix_cons ..), List.forall_mem_append.mpr
        ⟨fun c hc => (hb.anchored c hc).mono (he.past.suffix.trans (List.suffix_cons ..)), nofun⟩⟩
  | _, _, _, .elseBlock ht he hb hn _ ho =>
    have hs := he.past.suffix.trans (List.suffix_cons ..)
    have hmore := ((suffix_of_cons hn.suffix).trans hb.past.suffix).trans hs
    allAnchored_of_children (anchored_keyword ht rfl rfl rfl) <| List.forall_mem_cons.mpr
      ⟨he.anchored.mono (List.suffix_cons ..), List.forall_mem_append.mpr
        ⟨fun c hc => (hb.anchored c hc).mono hs, fun c hc => (ho.anchored c hc).mono hmore⟩⟩
  | _, _, _, .elseIf ht he hb hn _ ho =>
    have hs := he.past.suffix.trans (List.suffix_cons ..)
    have hmore := ((suffix_of_cons hn.suffix).trans hb.past.suffix).trans hs
    allAnchored_of_children (anchored_keyword ht rfl rfl rfl) <| List.forall_mem_cons.mpr
      ⟨he.anchored.mono (List.suffix_cons ..), List.forall_mem_append.mpr
        ⟨fun c hc => (hb.anchored c hc).mono hs,
          List.forall_mem_singleton.mpr (ho.anchored.mono hmore)⟩⟩

theorem Block.anchored : ∀ {ts body rest}, Block ts body rest → ∀ n ∈ body, AllAnchored ts n
  | _, _, _, .braces _ hn hs _ => fun n hmem =>
    (hs.anchored n hmem).mono (hn.suffix.trans (List.suffix_cons ..))

theorem Statements.anchored :
    ∀ {ts body rest}, Statements ts body rest → ∀ n ∈ body, AllAnchored ts n
  | _, _, _, .nil => List.forall_mem_nil _
  | _, _, _, .cons h hn hs => List.forall_mem_cons.mpr
    ⟨h.anchored, fun n hmem => (hs.anchored n hmem).mono (hn.suffix.trans h.past.suffix)⟩

end

end Grammar

/-! ## Texts -/

/-- What stands in a line of a text from a position on. -/
def TextAt (source : String) (pos : Pos) (cs : List Char) : Prop :=
  ∃ (k c : Nat) (line : List Char), (sourceLines source)[k]? = some line ∧
    pos = ⟨(k + 1 : Nat), (c + 1 : Nat)⟩ ∧ cs = line.drop c

/-- One of the tokens is the lexeme of the node at its position, and the text there begins with the
spelling of the lexeme.  No parenthesis stands there. -/
structure Node.PointsInto (source : String) (n : Node) : Prop where
  lexeme : ∃ ts l text after, tokenize source = .ok ts ∧ ⟨l, n.pos⟩ ∈ ts ∧ n.lexeme? = some l ∧
    TextAt source n.pos (text ++ after) ∧ l.SpelledBy text ∧ l.Munched text after
  leading : ∀ m ∈ n.leading?, n.pos = m.pos
  noParen : ∀ cs, TextAt source n.pos cs → cs.head? ≠ some '('

variable {source : String} {pos : Pos} {cs ds text after : List Char} {l : Lexeme}

theorem TextAt.unique (h : TextAt source pos cs) (h' : TextAt source pos ds) : cs = ds := by
  obtain ⟨k, c, line, hline, rfl, rfl⟩ := h
  obtain ⟨k', c', line', hline', hpos, rfl⟩ := h'
  simp only [Pos.mk.injEq] at hpos
  obtain ⟨rfl, rfl⟩ : k = k' ∧ c = c' := by omega
  cases hline.symm.trans hline'
  rfl

/-- The text of a span is followed by what stands behind the span. -/
theorem Span.text_append {s : Span} (h : s.start ≤ s.stop) (cs : List Char) :
    s.text cs ++ cs.drop s.stop = cs.drop s.start := by
  rw [Span.text, ← Nat.add_sub_cancel' h, ← List.drop_drop, Nat.add_sub_cancel_left,
    List.take_append_drop]

theorem Lexer.Rows.mem_flatten {lines : List (List Char)} {rows : List (List Token)} {t : Token}
    {first : Nat} (h : Lexer.Rows first lines rows) (ht : t ∈ rows.flatten) :
    ∃ k line row spans comment, lines[k]? = some line ∧ t ∈ row ∧
      Layout (first + k) line row spans comment := by
  obtain ⟨row, hrow, ht⟩ := List.mem_flatten.mp ht
  obtain ⟨k, hk, rfl⟩ := List.mem_iff_getElem.mp hrow
  obtain ⟨hlen, hrows⟩ := List.forall₂_iff_get.mp h
  rw [List.length_zipIdx] at hlen
  obtain ⟨spans, comment, hlayout⟩ := hrows k (by simpa [hlen] using hk) hk
  simp only [List.get_eq_getElem, List.getElem_zipIdx] at hlayout
  exact ⟨k, _, _, spans, comment, List.getElem?_eq_getElem (hlen ▸ hk), ht, hlayout⟩

/-- Every token but a line end stands in the text at its position. -/
theorem textAt_of_token {ts : List Token} {t : Token} (h : tokenize source = .ok ts) (ht : t ∈ ts)
    (hn : t.lexeme ≠ .ofMark .newline) :
    ∃ text after, TextAt source t.pos (text ++ after) ∧ t.lexeme.SpelledBy text ∧
      t.lexeme.Munched text after := by
  rw [Lexer.tokenize_eq_scanLines] at h
  obtain ⟨rows, hrows, rfl⟩ := Lexer.rows_of_scanLines (fun _ => sourceLines_noBreak) h
  obtain ⟨k, line, row, spans, comment, hline, ht, hlayout⟩ := hrows.mem_flatten ht
  rw [hlayout.tokens] at ht
  rcases List.mem_append.mp ht with ht | ht
  · obtain ⟨s, hs, rfl⟩ := List.mem_map.mp ht
    refine ⟨s.text line, line.drop s.stop, ?_, hlayout.laid.spelled s hs, hlayout.laid.munched s hs⟩
    refine ⟨k, s.start, line, hline, ?_, Span.text_append (hlayout.laid.within s hs).1.le line⟩
    rw [Span.token, Nat.add_comm k]
  · cases List.mem_singleton.mp ht
    exact absurd rfl hn

theorem Lexeme.SpelledBy.plain (h : l.SpelledBy text) : l.plain = l := by
  cases h <;> rfl

/-- Only a parenthesis begins like one. -/
theorem Lexeme.SpelledBy.head_ne (h : l.SpelledBy text) (hl : l ≠ .ofMark (.symbol .openParen))
    (after : List Char) : (text ++ after).head? ≠ some '(' := by
  have hdigits {digits : List Char} (hd : Number.IsDigitRun digits) (more : List Char) :
      (digits ++ more).head? ≠ some '(' := by
    cases digits with
    | nil => exact absurd rfl hd.nonempty
    | cons c digits =>
      rintro ⟨⟩
      exact absurd (hd.digits _ List.mem_cons_self) (by decide)
  cases h with
  | symbol s => cases s <;> first | exact absurd rfl hl | exact ne_of_beq_false rfl
  | keyword k => cases k <;> exact ne_of_beq_false rfl
  | @name text hname =>
    cases hcs : text.toList with
    | nil => exact absurd hcs hname.nonempty
    | cons c cs =>
      rintro ⟨⟩
      exact absurd (hname.word '(' (hcs ▸ List.mem_cons_self)) (by decide)
  | int hd _ => exact hdigits hd after
  | float hw _ _ =>
    rw [List.append_assoc]
    exact hdigits hw _
  | string _ => exact ne_of_beq_false rfl

/-- No node begins with a parenthesis or a line end. -/
theorem Node.lexeme?_ne (n : Node) :
    n.lexeme? ≠ some (.ofMark (.symbol .openParen)) ∧ n.lexeme? ≠ some (.ofMark .newline) := by
  induction n using childInduction with
  | step n ih =>
    cases n with
    | binary _ _ left _ => exact ih left List.mem_cons_self
    | exprMethodCall _ receiver _ _ => exact ih receiver List.mem_cons_self
    | bool _ value => cases value <;> exact ⟨nofun, nofun⟩
    | unary _ op _ => cases op <;> exact ⟨nofun, nofun⟩
    | _ => exact ⟨nofun, nofun⟩

theorem Node.Anchored.pointsInto {ts : List Token} {n : Node} (h : tokenize source = .ok ts)
    (hn : n.Anchored ts) : n.PointsInto source := by
  obtain ⟨⟨t, ht, hpos, hl⟩, hlead⟩ := hn
  have hne := n.lexeme?_ne
  have hnewline : t.lexeme ≠ .ofMark .newline := by
    intro heq
    rw [heq] at hl
    exact hne.2 hl
  obtain ⟨text, after, htext, hspelled, hmunched⟩ := textAt_of_token h ht hnewline
  rw [hspelled.plain] at hl
  rw [hpos] at htext
  refine ⟨⟨ts, t.lexeme, text, after, h, ?_, hl, htext, hspelled, hmunched⟩, hlead,
    fun cs hcs => ?_⟩
  · rwa [← hpos]
  rw [hcs.unique htext]
  exact hspelled.head_ne (fun heq => hne.1 (heq ▸ hl)) after

/-- Every node below the root of a parsed tree has the position where its own lexeme stands. -/
theorem positions_point {source : String} {p : Program} (h : parse source = .ok p) :
    ∀ s ∈ p.body, ∀ n, Node.Inside s n → n.PointsInto source := by
  obtain ⟨ts, hts, hp⟩ := parse_ok.mp h
  obtain ⟨_, _, hnewlines, hs, _⟩ := Parser.program_sound (parseTokens_ok.mp hp).1
  intro s hmem n hn
  exact (((hs.anchored s hmem).mono hnewlines.suffix) n hn).pointsInto hts

/-- The value that is assigned, a method of what stands in two pairs of parentheses, has the
position of the name inside of them. -/
theorem positions_point_parens :
    let source := "# twice\n  x = ((y)).pow(-2)"
    ∃ p, parse source = .ok p ∧ (∀ s ∈ p.body, ∀ n, Node.Inside s n → n.PointsInto source) ∧
      p.body.map Node.pos = [⟨2, 3⟩] ∧ (p.body.flatMap Node.children).map Node.pos = [⟨2, 9⟩] := by
  intro source
  have htest : (parse source).toOption.any (fun p => decide (p.body.map Node.pos = [⟨2, 3⟩] ∧
      (p.body.flatMap Node.children).map Node.pos = [⟨2, 9⟩])) = true := by decide +kernel
  obtain ⟨p, hp, hpos⟩ := parsed_of_any htest
  exact ⟨p, hp, positions_point hp, of_decide_eq_true hpos⟩

end ExScript
