import ExScript.Proofs.LargerBudget
import ExScript.Proofs.LongSums
import ExScript.Proofs.ParserOutput
import ExScript.Proofs.Positions
import ExScript.Proofs.ReadingStatements
import ExScript.Source

/-!
# Printing and parsing undo each other

A well-formed program is printed wherever the stack has room for it, and what is parsed of its text
is the program itself apart from positions, unless it nests too deeply (`parse_print`).  For a
program that was parsed this does not happen: its text nests no deeper than the text it comes from,
so that parsing and printing it again changes nothing (`parse_print_parse`).
-/

namespace ExScript

/-- Two programs are alike apart from positions: as trees, and as far as a test can tell. -/
structure Program.Alike (p q : Program) : Prop where
  erase : p.toNode.erase = q.toNode.erase
  same : p.same q = true

theorem Program.alike_of_erase_eq {p q : Program} (hw : p.WellFormed)
    (h : Node.eraseAll p.body = Node.eraseAll q.body) : p.Alike q :=
  ⟨congrArg (Node.block default) h, Program.same_of_erase_eq hw h⟩

theorem Program.WellFormed.of_parseTokens {ts : List Token} {p : Program}
    (ht : Parser.ProperTokens ts) (h : parseTokens ts = .ok p) :
    p.WellFormed ∧ p.nesting ≤ Parser.nestingLimit :=
  Parser.program_output ht (parseTokens_ok.mp h).1

theorem parseTokens_of_program {ts : List Token} {body : List Node}
    (h : Parser.program Parser.nestingLimit ts = .ok body) :
    ∃ pos, parseTokens ts = .ok ⟨pos, body⟩ :=
  ⟨_, parseTokens_ok.mpr ⟨h, rfl⟩⟩

theorem parse_ok {source : String} {p : Program} :
    parse source = .ok p ↔ ∃ ts, tokenize source = .ok ts ∧ parseTokens ts = .ok p := by
  rw [parse]
  cases ht : tokenize source with
  | error e => simp [Except.mapError, bind, Except.bind]
  | ok ts => cases hp : parseTokens ts <;> simp [Except.mapError, bind, Except.bind, hp]

/-- A test of what is parsed of a text. -/
theorem parsed_of_any {source : String} {f : Program → Bool}
    (h : (parse source).toOption.any f = true) : ∃ p, parse source = .ok p ∧ f p = true := by
  cases hp : parse source with
  | error e =>
    rw [hp] at h
    cases h
  | ok p =>
    rw [hp] at h
    exact ⟨p, rfl, h⟩

/-- A parsed program is well-formed, and its nesting is within the limit. -/
theorem Program.WellFormed.of_parse {source : String} {p : Program} (h : parse source = .ok p) :
    p.WellFormed ∧ p.nesting ≤ Parser.nestingLimit := by
  obtain ⟨ts, ht, hp⟩ := parse_ok.mp h
  exact of_parseTokens (Lexer.proper_of_tokenize ht) hp

theorem Program.print_tokens {p : Program} (h : p.WellFormed) :
    ∃ text ts, p.PrintedAs text ∧ tokenize text = .ok ts ∧
      ts.map Token.lexeme = Node.bodyLexemes p.body ++ [.newline] := by
  obtain ⟨text, hprint, hlexemes⟩ := p.print_reads h
  obtain ⟨ts, ht, hmap⟩ := Lexer.tokenizeFrom_of_lexemes hlexemes 1 1 []
  exact ⟨text, ts, printedAs_of_prints hprint, ht, hmap⟩

/-- The text of a well-formed program within the limit is parsed to that program. -/
theorem parse_print_of_nesting {p : Program} (h : p.WellFormed)
    (hn : p.nesting ≤ Parser.nestingLimit) :
    ∃ text q, p.PrintedAs text ∧ parse text = .ok q ∧
      Node.eraseAll q.body = Node.eraseAll p.body := by
  obtain ⟨text, ts, hprint, htokens, hmap⟩ := p.print_tokens h
  obtain ⟨body, hbody, herase⟩ := Parser.program_ok h hn hmap
  obtain ⟨pos, hparse⟩ := parseTokens_of_program hbody
  exact ⟨text, ⟨pos, body⟩, hprint, parse_ok.mpr ⟨ts, htokens, hparse⟩, herase⟩

/-- Parsing and printing a source text gives a text that stands for the same program, and parsing
and printing that text gives it back, on every stack that has room for the program. -/
theorem parse_print_parse {source : String} {p : Program} (h : parse source = .ok p) :
    ∃ text q, p.PrintedAs text ∧ parse text = .ok q ∧ q.Alike p ∧
      ∀ limit, Printer.Fits p.frames limit → q.print limit = .ok text := by
  obtain ⟨hw, hn⟩ := Program.WellFormed.of_parse h
  obtain ⟨text, q, hprint, hparse, herase⟩ := parse_print_of_nesting hw hn
  obtain ⟨hqw, _⟩ := Program.WellFormed.of_parse hparse
  refine ⟨text, q, hprint, hparse, Program.alike_of_erase_eq hqw herase, fun limit hl => ?_⟩
  rw [Program.print_eq_of_erase_eq herase]
  exact hprint.fits limit hl

theorem parse_print_parse_product : ∃ p, parse "a = -(1+ 2)*b .f( 3)" = .ok p ∧
    ∃ text q, p.PrintedAs text ∧ parse text = .ok q ∧ q.Alike p ∧
      ∀ limit, Printer.Fits p.frames limit → q.print limit = .ok text := by
  have htest : ((parse "a = -(1+ 2)*b .f( 3)").toOption.any fun _ => true) = true := by
    decide +kernel
  obtain ⟨p, h, _⟩ := parsed_of_any htest
  exact ⟨p, h, parse_print_parse h⟩

end ExScript
