import AgentFlow.Proofs.Bracket.Pieces

/-!
# Where a bracket problem is reported

A problem names brackets by their lines. In terms of the pieces of the code, the line of a bracket is one more than the
number of newlines in the text before it (`lineOf`). A scan counts the newlines of the code and those of literals in
triple quotes, but not one that a backslash takes with it, so each newline of that kind makes the lines that it reports
afterwards one too small (`seenLine_add_hidden`). `problem_lines_iff` says what follows for a reported problem.
-/

namespace AgentFlow.Bracket

/-! ### Newlines of pieces -/

/-- The newlines of the pieces that a scan counts. -/
def counted : List Piece → Nat
  | [] => 0
  | p :: ps => p.breaks + counted ps

/-- What is written in a literal. -/
def Piece.glyphs : Piece → List Glyph
  | .literal l => l.contents
  | _ => []

/-- The newlines of literals that stand after a backslash. -/
def hidden (ps : List Piece) : Nat := (ps.flatMap Piece.glyphs).count (.escaped '\n')

/-- The text of the pieces. -/
def spelledOut (ps : List Piece) : List Char := ps.flatMap Piece.text

/-- The line on which a piece stands after `before`. -/
def lineOf (before : List Piece) : Nat := 1 + (spelledOut before).count '\n'

/-- The line on which a scan sees a piece after `before`. -/
def seenLine (before : List Piece) : Nat := 1 + counted before

theorem hidden_append (ps qs : List Piece) : hidden (ps ++ qs) = hidden ps + hidden qs := by
  rw [hidden, List.flatMap_append, List.count_append]
  rfl

theorem Cut.spelledOut_eq {code : List Char} {ps : List Piece} (h : Cut code ps) : spelledOut ps = code := by
  induction h with
  | nil => rfl
  | cons _ _ ih => rw [← ih]; rfl

/-- A newline in a literal is counted, or it is hidden behind a backslash. -/
theorem count_newline_glyph (g : Glyph) : g.text.count '\n' = [g].count .newline + [g].count (.escaped '\n') := by
  cases g with
  | plain c hback =>
    by_cases hc : c = '\n'
    · subst hc
      rfl
    · have hne : Glyph.plain c hback ≠ .newline := fun h => hc (Glyph.plain.inj h)
      simp [Glyph.text, hc, hne]
  | escaped c => by_cases hc : c = '\n' <;> simp [Glyph.text, Glyph.newline, hc]

theorem count_newline_glyphs (gs : List Glyph) :
    (gs.flatMap Glyph.text).count '\n' = gs.count .newline + gs.count (.escaped '\n') := by
  induction gs with
  | nil => rfl
  | cons g gs ih =>
    have hcons : ∀ x, (g :: gs).count x = [g].count x + gs.count x := by
      intro x
      rw [← List.count_append, List.singleton_append]
    rw [List.flatMap_cons, List.count_append, count_newline_glyph, ih, hcons, hcons]
    omega

/-- There is no newline in the quotes of a literal. -/
theorem Literal.count_newline (l : Literal) :
    l.text.count '\n' = l.contents.count .newline + l.contents.count (.escaped '\n') := by
  have hmarks : (l.quote.marks l.triple).count '\n' = 0 := by
    cases l.quote <;> cases l.triple <;> rfl
  have htail : l.tail.count '\n' = 0 := by
    rw [tail]
    cases l.ending with
    | closed => exact hmarks
    | cut => rfl
    | backslash => rfl
  rw [text, List.count_append, List.count_append, count_newline_glyphs, hmarks, htail]
  omega

/-- The newlines of a piece are those that a scan counts and those that are hidden. -/
theorem Piece.count_newline {p : Piece} {rest : List Char} (h : p.Stands rest) :
    p.text.count '\n' = p.breaks + p.glyphs.count (.escaped '\n') := by
  cases p with
  | comment body =>
    have hbody : body.count '\n' = 0 := List.count_eq_zero.mpr h.1
    rw [text, List.count_cons, hbody]
    rfl
  | literal l => exact l.count_newline
  | other c => by_cases hc : c = '\n' <;> simp [text, breaks, glyphs, hc]

/-- **What a scan does not count** are the newlines after a backslash. -/
theorem seenLine_add_hidden {code : List Char} {before after : List Piece} (h : Cut code (before ++ after)) :
    seenLine before + hidden before = lineOf before := by
  have hcount : (spelledOut before).count '\n' = counted before + hidden before := by
    induction before generalizing code with
    | nil => rfl
    | cons p ps ih =>
      rw [List.cons_append] at h
      cases h with
      | cons hstands hrest =>
        have hhidden : hidden (p :: ps) = p.glyphs.count (.escaped '\n') + hidden ps := List.count_append
        rw [spelledOut, List.flatMap_cons, List.count_append, p.count_newline hstands, counted, hhidden]
        have hps := ih hrest
        rw [spelledOut] at hps
        omega
  rw [lineOf, seenLine, hcount]
  omega

/-! ### Brackets among pieces -/

/-- A bracket is not the end of a line. -/
theorem breaks_of_isBracket {c : Char} (h : (isOpener c || isCloser c) = true) : (Piece.other c).breaks = 0 := by
  have hc : c ≠ '\n' := by
    rintro rfl
    cases h
  exact if_neg hc

/-- A bracket that is listed stands among the pieces, after those of the brackets listed before. -/
theorem exists_place {line : Nat} {ps : List Piece} {earlier later : List Bracket} {b : Bracket}
    (h : located line ps = earlier ++ b :: later) :
    ∃ before after, ps = before ++ .other b.char :: after ∧ b.line = line + counted before ∧
      located line before = earlier ∧ located b.line after = later := by
  induction ps generalizing line earlier with
  | nil => simp [located] at h
  | cons p ps ih =>
    rw [located] at h
    cases hbracket : p.bracket? with
    | none =>
      -- the first piece is no bracket, so the place is further on
      rw [hbracket] at h
      obtain ⟨before, after, rfl, hline, hearlier, hlater⟩ := ih h
      refine ⟨p :: before, after, rfl, by rw [hline, counted, Nat.add_assoc], ?_, hlater⟩
      rw [located, hbracket, hearlier]
      rfl
    | some c =>
      -- it is the first bracket listed: the one sought, or one of the earlier ones
      obtain ⟨rfl, hc⟩ : p = .other c ∧ (isOpener c || isCloser c) = true := by
        cases p with
        | other d =>
          rw [Piece.bracket?] at hbracket
          split_ifs at hbracket with hd
          obtain rfl := Option.some.inj hbracket
          exact ⟨rfl, hd⟩
        | comment body => cases hbracket
        | literal l => cases hbracket
      rw [hbracket, breaks_of_isBracket hc] at h
      cases earlier with
      | nil =>
        obtain ⟨rfl, hlater⟩ := List.cons.inj h
        exact ⟨[], ps, rfl, rfl, rfl, hlater⟩
      | cons e earlier =>
        obtain ⟨rfl, htail⟩ := List.cons.inj h
        obtain ⟨before, after, rfl, hline, hearlier, hlater⟩ := ih htail
        refine ⟨.other c :: before, after, rfl, ?_, ?_, hlater⟩
        · rw [hline, counted, breaks_of_isBracket hc, Nat.zero_add]
          rfl
        · rw [located, hbracket, breaks_of_isBracket hc, ← hearlier]
          rfl

/-! ### Problems among pieces -/

/-- The problem of the pieces, with the offending bracket after `before` and the lines of brackets as `lineAt` has
them. -/
inductive Pinpoints (lineAt : List Piece → Nat) (ps : List Piece) : List Piece → Problem → Prop
  /-- No bracket is open where `c` makes the brackets impossible to complete. -/
  | unmatched {before after : List Piece} {c : Char} :
    ps = before ++ .other c :: after → Breaks (brackets before) c → WellNested (brackets before) →
    Pinpoints lineAt ps before (.unmatched ⟨c, lineAt before⟩)
  /-- The innermost open bracket is `o` where `c` makes the brackets impossible to complete. -/
  | mismatch {outer inner after : List Piece} {o c : Char} :
    ps = (outer ++ .other o :: inner) ++ .other c :: after → Breaks (brackets (outer ++ .other o :: inner)) c →
    isOpener o = true → WellNested (brackets inner) →
    Pinpoints lineAt ps (outer ++ .other o :: inner)
      (.mismatch ⟨o, lineAt outer⟩ ⟨c, lineAt (outer ++ .other o :: inner)⟩)
  /-- The brackets could be completed: `o` is never closed, and all brackets opened after it are. -/
  | unclosed {before after : List Piece} {o : Char} :
    ps = before ++ .other o :: after → Completable (brackets ps) → isOpener o = true → ¬ ClosedIn o (brackets after) →
    (∀ mid p rest, brackets after = mid ++ p :: rest → isOpener p = true → ClosedIn p rest) →
    Pinpoints lineAt ps before (.unclosed ⟨o, lineAt before⟩)

/-- The line of a problem is that of the offending bracket. -/
theorem Pinpoints.line {lineAt : List Piece → Nat} {ps before : List Piece} {p : Problem}
    (h : Pinpoints lineAt ps before p) : p.line = lineAt before := by
  cases h <;> rfl

theorem Pinpoints.split {lineAt : List Piece → Nat} {ps before : List Piece} {p : Problem}
    (h : Pinpoints lineAt ps before p) : ∃ after, ps = before ++ after := by
  cases h with
  | unmatched hps _ _ => exact ⟨_, hps⟩
  | mismatch hps _ _ _ => exact ⟨_, hps⟩
  | unclosed hps _ _ _ _ => exact ⟨_, hps⟩

theorem counted_append (ps qs : List Piece) : counted (ps ++ qs) = counted ps + counted qs := by
  induction ps with
  | nil => exact (Nat.zero_add _).symm
  | cons p ps ih => rw [List.cons_append, counted, counted, ih, Nat.add_assoc]

theorem brackets_append (ps qs : List Piece) : brackets (ps ++ qs) = brackets ps ++ brackets qs := List.filterMap_append

theorem brackets_cons_opener {o : Char} (h : isOpener o = true) (ps : List Piece) :
    brackets (.other o :: ps) = o :: brackets ps :=
  List.filterMap_cons_some (if_pos (by rw [h, Bool.true_or]))

theorem counted_cons_opener {o : Char} (h : isOpener o = true) (ps : List Piece) :
    counted (.other o :: ps) = counted ps := by
  rw [counted, breaks_of_isBracket (by rw [h, Bool.true_or]), Nat.zero_add]

/-- The problem of the brackets that a scan lists is one of the pieces. -/
theorem Reports.pinpoints {ps : List Piece} {p : Problem} (h : Reports (located 1 ps) p) :
    ∃ before, Pinpoints seenLine ps before p := by
  cases h with
  | @unmatched earlier later b hsplit hbreaks hnested =>
    obtain ⟨before, after, hps, hline, rfl, -⟩ := exists_place hsplit
    rw [spelled_located] at hbreaks hnested
    obtain ⟨c, line⟩ := b
    obtain rfl : line = seenLine before := hline
    exact ⟨before, .unmatched hps hbreaks hnested⟩
  | @mismatch earlier mid later o b hsplit hbreaks hopener hnested =>
    -- two places: that of the open bracket, and after it that of the one that does not fit
    rw [List.append_assoc, List.cons_append] at hsplit
    obtain ⟨outer, rest, hps, holine, rfl, hrest⟩ := exists_place hsplit
    obtain ⟨inner, after, rfl, hline, rfl, -⟩ := exists_place hrest
    have hspelled : spelled (located 1 outer ++ o :: located o.line inner) =
        brackets (outer ++ .other o.char :: inner) := by
      rw [spelled_append, spelled_cons, spelled_located, spelled_located, brackets_append, brackets_cons_opener hopener]
    have hseen : b.line = seenLine (outer ++ .other o.char :: inner) := by
      rw [hline, holine, seenLine, counted_append, counted_cons_opener hopener, Nat.add_assoc]
    rw [hspelled] at hbreaks
    rw [spelled_located] at hnested
    obtain ⟨c, line⟩ := b
    obtain ⟨d, oline⟩ := o
    obtain rfl : oline = seenLine outer := holine
    obtain rfl : line = seenLine (outer ++ .other d :: inner) := hseen
    exact ⟨_, .mismatch (by rw [hps, List.append_assoc]; rfl) hbreaks hopener hnested⟩
  | @unclosed earlier later o hsplit hcompletable hopener hopen hinner =>
    obtain ⟨before, after, hps, hline, rfl, rfl⟩ := exists_place hsplit
    rw [spelled_located] at hcompletable hopen hinner
    obtain ⟨c, line⟩ := o
    obtain rfl : line = seenLine before := hline
    exact ⟨before, .unclosed hps hcompletable hopener hopen hinner⟩

/-- A problem stays one if the lines of what is before the offending bracket are the same. -/
theorem Pinpoints.congr {lineAt lineAt' : List Piece → Nat} {ps before : List Piece} {p : Problem}
    (h : Pinpoints lineAt ps before p) (hline : ∀ first, first <+: before → lineAt first = lineAt' first) :
    Pinpoints lineAt' ps before p := by
  cases h with
  | unmatched hps hbreaks hnested =>
    rw [hline _ List.prefix_rfl]
    exact .unmatched hps hbreaks hnested
  | mismatch hps hbreaks hopener hnested =>
    rw [hline _ List.prefix_rfl, hline _ (List.prefix_append ..)]
    exact .mismatch hps hbreaks hopener hnested
  | unclosed hps hcompletable hopener hopen hinner =>
    rw [hline _ List.prefix_rfl]
    exact .unclosed hps hcompletable hopener hopen hinner

/-- **When a problem is reported on the right line.** The problem is that of the code, with each bracket on the line
where the scan sees it: as many lines before its own as there are newlines after a backslash in the literals before it.
So the line that is reported, and the line of the opening bracket that the message quotes, are right exactly if no
literal before the offending bracket goes on after a backslash at the end of a line. -/
theorem problem_lines_iff {code : List Char} {p : Problem} (hp : problem? code = some p) :
    (∃ ps, Cut code ps) ∧ ∀ ps, Cut code ps →
      ∃ before, spelledOut before <+: code ∧ Pinpoints seenLine ps before p ∧
        p.line + hidden before = 1 + (spelledOut before).count '\n' ∧
        (Pinpoints lineOf ps before p ↔ hidden before = 0) := by
  refine ⟨exists_cut code, fun ps hps => ?_⟩
  have hreports : Reports (located 1 ps) p := by
    have hbrackets : ∀ b ∈ located 1 ps, (isOpener b.char || isCloser b.char) = true :=
      fun _ => isBracket_of_mem_located
    have hjudged := judged_nest hbrackets
    rw [problem?, scan_eq_located hps] at hp
    rwa [hp] at hjudged
  obtain ⟨before, hseen⟩ := hreports.pinpoints
  obtain ⟨after, rfl⟩ := hseen.split
  have hshort := seenLine_add_hidden hps
  refine ⟨before, ?_, hseen, by rw [hseen.line]; exact hshort, fun htrue => ?_, fun hnone => hseen.congr ?_⟩
  · rw [← hps.spelledOut_eq, spelledOut, spelledOut, List.flatMap_append]
    exact List.prefix_append ..
  · -- both lines are that of the offending bracket, and they differ by what is hidden before it
    have hline := hseen.line.symm.trans htrue.line
    omega
  · -- what is hidden before the offending bracket is hidden before none of the others
    rintro first ⟨rest, rfl⟩
    rw [List.append_assoc] at hps
    rw [hidden_append] at hnone
    have hfirst := seenLine_add_hidden hps
    omega

/-- A literal in triple quotes over two lines, between two brackets that do not match. -/
def manyLines : List Char := "x = (\"\"\"a\nb\"\"\",\n]".toList

theorem problem_lines_iff_manyLines :
    problem? manyLines = some (.mismatch ⟨'(', 1⟩ ⟨']', 3⟩) ∧
      ∃ ps before, Cut manyLines ps ∧ Pinpoints seenLine ps before (.mismatch ⟨'(', 1⟩ ⟨']', 3⟩) ∧
        (Pinpoints lineOf ps before (.mismatch ⟨'(', 1⟩ ⟨']', 3⟩) ↔ hidden before = 0) := by
  have hproblem : problem? manyLines = some (.mismatch ⟨'(', 1⟩ ⟨']', 3⟩) := by cbv
  obtain ⟨⟨ps, hps⟩, hall⟩ := problem_lines_iff hproblem
  obtain ⟨before, -, hseen, -, hiff⟩ := hall ps hps
  exact ⟨hproblem, ps, before, hps, hseen, hiff⟩

/-- A literal that goes on after a backslash at the end of its line, and one more line. -/
def continuedLiteral : List Char := "\"a\\\nb\"\n".toList

/-- A bracket on the third line that is reported on the second. -/
theorem continued_literal_misleads :
    problem? (continuedLiteral ++ [')']) = some (.unmatched ⟨')', 2⟩) ∧ 1 + continuedLiteral.count '\n' = 3 :=
  ⟨by cbv, by decide⟩

end AgentFlow.Bracket
