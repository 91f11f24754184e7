import ExScript.Proofs.Concatenation
import ExScript.Proofs.NodePositions

/-!
# Line ends with a carriage return

A carriage return is a blank, and no lexeme goes on with it.  So a text with one before every line
feed is read like the text itself, faults included (`tokenize_withReturns`).  Only the ends of the
lines stand one column further, except for the last one, which has no line feed behind it.

The parser compares no positions, and no node has the position of a line end.  Since tokens of a
text have different positions, two token lists that agree apart from the columns of line ends are
parsed to the same statements (`program_of_alike`), hence both texts are (`line_endings_agree`).
-/

namespace ExScript

/-- The text with a carriage return before every line feed. -/
def withReturns (source : String) : String :=
  String.ofList (source.toList.flatMap fun c => if c = '\n' then ['\r', '\n'] else [c])

/-- A line end one column further to the right; other tokens stay. -/
def Token.pushed (t : Token) : Token :=
  if t.kind = .mark .newline then ⟨t.lexeme, t.pos.line, t.pos.col + 1⟩ else t

/-- The function is applied to all elements but the last. -/
def mapInit {α : Type} (f : α → α) : List α → List α
  | [] => []
  | [a] => [a]
  | a :: b :: more => f a :: mapInit f (b :: more)

section

variable {α : Type} {f : α → α}

theorem mapInit_cons (a : α) {as : List α} (h : as ≠ []) :
    mapInit f (a :: as) = f a :: mapInit f as := by
  cases as with
  | nil => exact absurd rfl h
  | cons b more => rfl

theorem mapInit_append (as : List α) {bs : List α} (h : bs ≠ []) :
    mapInit f (as ++ bs) = as.map f ++ mapInit f bs := by
  induction as with
  | nil => rfl
  | cons a as ih =>
    rw [List.cons_append, mapInit_cons a (List.append_ne_nil_of_right_ne_nil as h), ih]
    rfl

/-- What holds between an element and itself, and its image, holds along the lists. -/
theorem forall₂_mapInit {R : α → α → Prop} (hr : ∀ a, R a a) (hf : ∀ a, R a (f a)) (as : List α) :
    List.Forall₂ R as (mapInit f as) := by
  induction as with
  | nil => exact .nil
  | cons a as ih =>
    cases as with
    | nil => exact .cons (hr a) .nil
    | cons b more => exact .cons (hf a) ih

end

/-! ## Lines -/

/-- Every line but the last gets the carriage return before its line feed. -/
theorem splitOn_returns (cs : List Char) :
    (cs.flatMap fun c => if c = '\n' then ['\r', '\n'] else [c]).splitOn '\n' =
      mapInit (· ++ ['\r']) (cs.splitOn '\n') := by
  induction cs with
  | nil => rfl
  | cons c rest ih =>
    have hne := List.splitOn_ne_nil '\n' rest
    rw [List.flatMap_cons]
    by_cases hc : c = '\n'
    · subst hc
      have hleft := @splitOn_line [] List.not_mem_nil rest
      have hright := @splitOn_line ['\r'] (by decide)
      rw [List.nil_append] at hleft
      rw [if_pos rfl, hleft, mapInit_cons _ hne, ← ih]
      exact hright _
    · have hcons (more : List Char) :
          (c :: more).splitOn '\n' = (more.splitOn '\n').modifyHead (c :: ·) := by
        rw [List.splitOn_cons_eq_if_modifyHead, if_neg (by simpa using hc)]
      rw [if_neg hc, List.singleton_append, hcons, hcons, ih]
      obtain ⟨line, more, hsplit⟩ := List.exists_cons_of_ne_nil hne
      rw [hsplit]
      cases more <;> rfl

theorem sourceLines_withReturns (source : String) :
    sourceLines (withReturns source) = mapInit (· ++ ['\r']) (sourceLines source) := by
  rw [sourceLines, withReturns, String.toList_ofList, splitOn_returns, sourceLines]

namespace Lexer

variable {line col extra : Nat} {c : Char} {cs : List Char} {xs : List (List Char)}
  {ts : List Token}

theorem stops_return : Stops '\r' := ⟨rfl, by decide, by decide, by decide⟩

/-- A string that is not closed stays so. -/
theorem scanString_return (cs : List Char) : scanString (cs ++ ['\r']) = scanString cs := by
  simp only [scanString, drop_takeWhile]
  generalize hp : (fun c : Char => c != '\x22' && c != '\n') = p
  have hreturn : p '\r' = true := by
    subst hp
    rfl
  have hsplit := List.takeWhile_append_dropWhile (p := p) (l := cs)
  cases hdrop : cs.dropWhile p with
  | nil =>
    have hall : (cs ++ ['\r']).dropWhile p = [] := by
      rw [List.dropWhile_append, hdrop]
      simp [hreturn]
    rw [hall]
  | cons d after =>
    have htake : (cs ++ ['\r']).takeWhile p = cs.takeWhile p := by
      rw [List.takeWhile_append, if_neg]
      intro hlen
      have hlens := congrArg List.length hsplit
      rw [hdrop, List.length_append, List.length_cons] at hlens
      omega
    have hrest : (cs ++ ['\r']).dropWhile p = d :: (after ++ ['\r']) := by
      rw [List.dropWhile_append, hdrop]
      rfl
    rw [htake, hrest]
    by_cases hd : d = '\x22' <;> simp [hd]

theorem scan_return (hc : c ≠ '#') (cs : List Char) : scan c (cs ++ ['\r']) = scan c cs :=
  scan_stop stops_return hc (scanString_return cs)

/-- The rest of a line behind the character `c` that begins a comment. -/
theorem scan_comment (hn : '\n' ∉ cs) : scan '#' cs = .skip cs.length := by
  have hscan : scan '#' cs = scanComment cs := rfl
  rw [hscan, scanComment, takeWhile_noBreak hn]

theorem pushed_of_found {l : Lexeme} (h : scan c cs = .found l extra) :
    Token.pushed ⟨l, line, col⟩ = ⟨l, line, col⟩ :=
  if_neg (kind_of_scan h).1

/-- Behind a line, a carriage return does nothing but push its end. -/
theorem scanLine_return (hn : '\n' ∉ cs) (line col : Nat) (he : extra ≤ cs.length) :
    scanLine line col extra (cs ++ ['\r']) =
      (scanLine line col extra cs).map (List.map Token.pushed) := by
  induction cs generalizing col extra with
  | nil =>
    obtain rfl := Nat.le_zero.mp he
    rfl
  | cons c rest ih =>
    obtain ⟨-, hrest⟩ : '\n' ≠ c ∧ '\n' ∉ rest := by simpa using hn
    cases extra with
    | succ extra => exact ih hrest _ (Nat.le_of_succ_le_succ he)
    | zero =>
      by_cases hc : c = '#'
      · subst hc
        have hreturn : '\n' ∉ rest ++ ['\r'] := by simpa using hrest
        simp only [List.cons_append, scanLine, scan_comment hrest, scan_comment hreturn,
          scanLine_rest]
        simp [Token.pushed, Token.kind, Lexeme.kind, Lexeme.ofMark, Except.map]
        omega
      · have hfurther := scan_further c rest
        simp only [List.cons_append, scanLine, scan_return hc]
        cases hs : scan c rest with
        | skip extra =>
          rw [hs] at hfurther
          exact ih hrest _ hfurther
        | fault f => rfl
        | found l extra =>
          rw [hs] at hfurther
          have hnext := ih hrest (col + 1) hfurther
          simp only [Scan.further] at hnext ⊢
          rw [hnext]
          cases scanLine line (col + 1) extra rest with
          | error e => rfl
          | ok row => simp [Except.map, pushed_of_found hs]

/-- The only line end of a line is its last token. -/
theorem mapInit_row {row : List Token} (h : scanLine line col extra cs = .ok row) :
    mapInit Token.pushed row = row := by
  obtain ⟨before, rfl, hbefore⟩ := scanLine_ends h
  rw [mapInit_append before (List.cons_ne_nil _ _)]
  have hmap : before.map Token.pushed = before.map id :=
    List.map_congr_left fun t ht => if_neg (hbefore t ht).1
  rw [hmap, List.map_id, mapInit]

/-- The last line stays as it is. -/
theorem scanLines_returns (hn : ∀ cs ∈ xs, '\n' ∉ cs) (line : Nat) :
    scanLines line (mapInit (· ++ ['\r']) xs) =
      (scanLines line xs).map (mapInit Token.pushed) := by
  induction xs generalizing line with
  | nil => rfl
  | cons cs more ih =>
    obtain ⟨hcs, hmore⟩ := List.forall_mem_cons.mp hn
    by_cases hne : more = []
    · subst hne
      rw [mapInit, scanLines_singleton]
      cases hrow : scanLine line 1 0 cs with
      | error e => rfl
      | ok row => rw [Except.map, mapInit_row hrow]
    · rw [mapInit_cons _ hne, scanLines, scanLines, scanLine_return hcs _ _ (Nat.zero_le _),
        ih hmore]
      cases scanLine line 1 0 cs with
      | error e => rfl
      | ok row =>
        cases hts : scanLines (line + 1) more with
        | error e => rfl
        | ok ts =>
          have hts := (whole_of_scanLines hne hts).ended.ne_nil
          exact congrArg Except.ok (mapInit_append row hts).symm

end Lexer

theorem tokenize_withReturns (source : String) :
    tokenize (withReturns source) = (tokenize source).map (mapInit Token.pushed) := by
  rw [Lexer.tokenize_eq_scanLines, sourceLines_withReturns,
    Lexer.scanLines_returns fun _ => sourceLines_noBreak, Lexer.tokenize_eq_scanLines]

/-! ## Positions -/

namespace Lexer

variable {line : Nat} {cs : List Char} {xs : List (List Char)} {ts row : List Token}

theorem line_of_layout {spans : List Span} {comment : Nat}
    (h : Layout line cs row spans comment) : ∀ t ∈ row, t.pos.line = line := by
  rw [h.tokens]
  refine List.forall_mem_append.mpr ⟨fun t ht => ?_, List.forall_mem_singleton.mpr rfl⟩
  obtain ⟨s, -, rfl⟩ := List.mem_map.mp ht
  rfl

/-- The tokens of a line differ in their columns, and those of different lines in their lines. -/
theorem nodup_of_scanLines (hn : ∀ cs ∈ xs, '\n' ∉ cs) (h : scanLines line xs = .ok ts) :
    (ts.map Token.pos).Nodup ∧ ∀ t ∈ ts, line ≤ t.pos.line := by
  induction xs generalizing line ts with
  | nil =>
    cases h
    exact ⟨.nil, nofun⟩
  | cons cs more ih =>
    obtain ⟨hcs, hmore⟩ := List.forall_mem_cons.mp hn
    obtain ⟨row, rest, hrow, hrest, rfl⟩ := scanLines_cons_ok.mp h
    obtain ⟨spans, comment, hlayout⟩ := layout_of_scanLine hcs hrow
    obtain ⟨hnodup, hbelow⟩ := ih hmore hrest
    have hline := line_of_layout hlayout
    have hfirst : (row.map Token.pos).Nodup := by
      refine List.pairwise_map.mpr (hlayout.columns.imp fun hlt heq => ?_)
      rw [heq] at hlt
      exact lt_irrefl _ hlt
    refine ⟨?_, List.forall_mem_append.mpr ⟨fun t ht => (hline t ht).ge, fun t ht => ?_⟩⟩
    · rw [List.map_append]
      refine hfirst.append hnodup fun p hp hp' => ?_
      obtain ⟨t, ht, rfl⟩ := List.mem_map.mp hp
      obtain ⟨u, hu, heq⟩ := List.mem_map.mp hp'
      have hu := hbelow u hu
      rw [heq, hline t ht] at hu
      omega
    · have ht := hbelow t ht
      omega

theorem nodup_of_tokenize {source : String} (h : tokenize source = .ok ts) :
    (ts.map Token.pos).Nodup := by
  rw [tokenize_eq_scanLines] at h
  exact (nodup_of_scanLines (fun _ => sourceLines_noBreak) h).1

end Lexer

/-! ## Trees -/

/-- The same lexeme, and the same position unless it ends a line. -/
structure Token.Alike (t u : Token) : Prop where
  lexeme : t.lexeme = u.lexeme
  pos : t.kind ≠ .mark .newline → t.pos = u.pos

variable {ts us : List Token}

theorem Token.alike_refl (t : Token) : t.Alike t := ⟨rfl, fun _ => rfl⟩

theorem Token.Alike.symm {t u : Token} (h : t.Alike u) : u.Alike t := by
  refine ⟨h.lexeme.symm, fun hk => (h.pos ?_).symm⟩
  rwa [Token.kind, h.lexeme]

theorem Token.alike_pushed (t : Token) : t.Alike t.pushed := by
  unfold Token.pushed
  split
  next hk => exact ⟨rfl, fun hn => absurd hk hn⟩
  next => exact t.alike_refl

/-- Tokens with different positions are moved to any other positions by some map. -/
theorem exists_mapPos (h : List.Forall₂ (fun t u : Token => t.lexeme = u.lexeme) ts us)
    (hn : (ts.map Token.pos).Nodup) : ∃ f, us = ts.map (Token.mapPos f) := by
  induction h with
  | nil => exact ⟨id, rfl⟩
  | @cons t u ts us hl _ ih =>
    rw [List.map_cons, List.nodup_cons] at hn
    obtain ⟨f, rfl⟩ := ih hn.2
    refine ⟨fun p => if p = t.pos then u.pos else f p, ?_⟩
    have hrest : ts.map (Token.mapPos f) =
        ts.map (Token.mapPos fun p => if p = t.pos then u.pos else f p) := by
      refine List.map_congr_left fun v hv => ?_
      have hne : v.pos ≠ t.pos := fun heq => hn.1 (heq ▸ List.mem_map_of_mem hv)
      simp [Token.mapPos, hne]
    rw [List.map_cons, ← hrest]
    simp [Token.mapPos, hl]

namespace Parser

/-- The same program at other positions. -/
theorem program_mapPos (f : Pos → Pos) {limit : Nat} {body : List Node} (hts : Whole ts)
    (h : program limit ts = .ok body) :
    program limit (ts.map (Token.mapPos f)) = .ok (body.map (Node.mapPos f)) := by
  obtain ⟨left, -, hpos, hread⟩ := statements_moved f elseFollows_nil hts h
    (Nat.lt_succ_self _) (Nat.lt_succ_self _)
  obtain ⟨left, rfl⟩ := Nat.exists_eq_succ_of_ne_zero hpos.ne'
  have hread := hread []
  rw [moved_nil, List.append_nil] at hread
  rw [program, StateT.run', List.length_map, hread]
  exact congrArg Except.ok (List.reverse_reverse _)

/-- No node has the position of a line end. -/
theorem program_of_alike {limit : Nat} {body : List Node} (halike : List.Forall₂ Token.Alike ts us)
    (hts : Whole ts) (hn : (ts.map Token.pos).Nodup) (h : program limit ts = .ok body) :
    program limit us = .ok body := by
  obtain ⟨f, rfl⟩ := exists_mapPos (halike.imp fun _ _ h => h.lexeme) hn
  have hfix : ∀ t ∈ ts, t.kind ≠ .mark .newline → t.pos = f t.pos := fun t ht =>
    ((List.forall₂_same.mp (List.forall₂_map_right_iff.mp halike)) t ht).pos
  obtain ⟨_, _, hnewlines, hs, _⟩ := program_sound h
  have hnode : ∀ n ∈ body, n.mapPos f = n := by
    intro n hmem
    refine (Node.Aligned.eq (Node.aligned_mapPos fun k hk => ?_)).symm
    obtain ⟨⟨t, ht, hpos, hl⟩, -⟩ := ((hs.anchored n hmem).mono hnewlines.suffix) k hk
    rw [← hpos]
    refine hfix t ht fun hkind => k.lexeme?_ne.2 ?_
    rw [hl, Token.plain_of_kind hkind]
  have hbody : body.map (Node.mapPos f) = body := by
    rw [List.map_congr_left hnode]
    exact List.map_id _
  rw [program_mapPos f hts h, hbody]

end Parser

theorem parse_of_alike {s t : String} {p : Program} (hs : tokenize s = .ok ts)
    (ht : tokenize t = .ok us) (halike : List.Forall₂ Token.Alike ts us) (hp : parse s = .ok p) :
    ∃ q, parse t = .ok q ∧ q.body = p.body := by
  obtain ⟨ts', hts', hp⟩ := parse_ok.mp hp
  cases hs.symm.trans hts'
  have hbody := Parser.program_of_alike halike (Lexer.whole_of_tokenize hs)
    (Lexer.nodup_of_tokenize hs) (parseTokens_ok.mp hp).1
  let q : Program := ⟨(us.head?.map Token.pos).getD ⟨1, 1⟩, p.body⟩
  exact ⟨q, parse_ok.mpr ⟨us, ht, parseTokens_ok.mpr ⟨hbody, rfl⟩⟩, rfl⟩

/-- With a carriage return before every line feed, a text has the same tokens at the same positions,
or the same fault at the same position.  Only the line ends stand one column further, all but the
last one, which is the last token.  Both texts are parsed or both are not, and to the same
statements at the same positions. -/
theorem line_endings_agree (source : String) :
    tokenize (withReturns source) = (tokenize source).map (mapInit Token.pushed) ∧
      (∀ ts, tokenize source = .ok ts → Parser.Ended ts) ∧
      ∀ body, (∃ p, parse (withReturns source) = .ok p ∧ p.body = body) ↔
        ∃ p, parse source = .ok p ∧ p.body = body := by
  have htokens := tokenize_withReturns source
  refine ⟨htokens, fun ts hts => (Lexer.whole_of_tokenize hts).ended, fun body => ?_⟩
  constructor
  · rintro ⟨p, hp, rfl⟩
    obtain ⟨us, hus, -⟩ := parse_ok.mp hp
    cases hts : tokenize source with
    | error e =>
      rw [htokens, hts] at hus
      cases hus
    | ok ts =>
      rw [htokens, hts] at hus
      cases hus
      have halike := forall₂_mapInit Token.alike_refl Token.alike_pushed ts
      rw [hts] at htokens
      exact parse_of_alike htokens hts (halike.flip.imp fun _ _ h => h.symm) hp
  · rintro ⟨p, hp, rfl⟩
    obtain ⟨ts, hts, -⟩ := parse_ok.mp hp
    rw [hts] at htokens
    exact parse_of_alike hts htokens (forall₂_mapInit Token.alike_refl Token.alike_pushed ts) hp

/-- The program begins with the first line end, which stands further to the right, but its statement
does not move. -/
theorem line_endings_agree_comment :
    let source := "# one\r\nx = \"a\" # two"
    (∃ p q, parse source = .ok p ∧ parse (withReturns source) = .ok q ∧ q.body = p.body ∧
      p.pos = ⟨1, 7⟩ ∧ q.pos = ⟨1, 8⟩) ∧ ∃ ts, tokenize source = .ok ts ∧ Parser.Ended ts := by
  intro source
  have hfirst : (parse source).toOption.any (fun p => decide (p.pos = ⟨1, 7⟩)) = true := by
    decide +kernel
  have hsecond : (parse (withReturns source)).toOption.any (fun p => decide (p.pos = ⟨1, 8⟩)) =
      true := by
    decide +kernel
  obtain ⟨-, hended, hbodies⟩ := line_endings_agree source
  obtain ⟨p, hp, hpos⟩ := parsed_of_any hfirst
  obtain ⟨q, hq, hpos'⟩ := parsed_of_any hsecond
  obtain ⟨q', hq', hbody⟩ := (hbodies p.body).mpr ⟨p, hp, rfl⟩
  cases hq.symm.trans hq'
  obtain ⟨ts, hts, -⟩ := parse_ok.mp hp
  exact ⟨⟨p, q, hp, hq, hbody, of_decide_eq_true hpos, of_decide_eq_true hpos'⟩, ts, hts,
    hended ts hts⟩

end ExScript
