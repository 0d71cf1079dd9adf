import AgentFlow.Proofs.Bracket.Nesting
import AgentFlow.Proofs.Bracket.Reader

/-!
# Code in pieces

Python code is cut in comments, string literals and other characters. `Cut` says how, by what each piece looks like and
where it has to end: a comment with its line, a literal with the first closing quotes that no backslash precedes, or
with its line or the text if there are none. Every text can be cut so (`exists_cut`), and a scan goes from piece to
piece and lists the brackets among the other characters (`scan_eq_located`). With `Nesting` this says what
`Bracket.problem?` finds in terms of the code alone.
-/

namespace AgentFlow.Bracket

/-! ### Literals -/

/-- A character of a literal as it is written: as itself, or after a backslash, whatever it is. -/
inductive Glyph where
  | plain (c : Char) (h : c ≠ '\\')
  | escaped (c : Char)
  deriving DecidableEq

def Glyph.text : Glyph → List Char
  | .plain c _ => [c]
  | .escaped c => ['\\', c]

/-- A newline that no backslash precedes. -/
def Glyph.newline : Glyph := .plain '\n' (by decide)

/-- The quotes before and after a literal. -/
def Quote.marks (q : Quote) (triple : Bool) : List Char := if triple then [q.char, q.char, q.char] else [q.char]

/-- `gs` are the contents of a literal before `after`. -/
structure Contents (q : Quote) (triple : Bool) (gs : List Glyph) (after : List Char) : Prop where
  /-- The closing quotes begin nowhere among them. -/
  inside : ∀ hs, hs <:+ gs → hs ≠ [] → ¬ q.marks triple <+: hs.flatMap Glyph.text ++ after
  /-- Only in triple quotes does a literal go on after its line. -/
  oneLine : triple = false → .newline ∉ gs

/-- How a literal ends. -/
inductive Ending where
  /-- With its quotes. -/
  | closed
  /-- Without them, where its line or the text ends. -/
  | cut
  /-- Without them, with a backslash that is the last character of the text. -/
  | backslash
  deriving DecidableEq

def Ending.text (q : Quote) (triple : Bool) : Ending → List Char
  | .closed => q.marks triple
  | .cut => []
  | .backslash => ['\\']

/-- A literal may end so before `rest`. -/
def Ending.Stands (triple : Bool) (rest : List Char) : Ending → Prop
  | .closed => True
  | .cut => rest = [] ∨ triple = false ∧ rest.head? = some '\n'
  | .backslash => rest = []

/-- A string literal. -/
structure Literal where
  quote : Quote
  triple : Bool
  contents : List Glyph
  ending : Ending
  deriving DecidableEq

namespace Literal

def tail (l : Literal) : List Char := l.ending.text l.quote l.triple

def text (l : Literal) : List Char := l.quote.marks l.triple ++ (l.contents.flatMap Glyph.text ++ l.tail)

/-- The text `l.text ++ rest` begins with the literal. -/
structure Stands (l : Literal) (rest : List Char) : Prop where
  /-- Three quotes open a literal in triple quotes. -/
  opening : l.triple = false → ¬ l.quote.marks true <+: l.text ++ rest
  contents : Contents l.quote l.triple l.contents (l.tail ++ rest)
  ending : l.ending.Stands l.triple rest

end Literal

/-! ### Pieces -/

/-- A piece of code. -/
inductive Piece where
  /-- A number sign with what follows it. -/
  | comment (body : List Char)
  | literal (l : Literal)
  | other (c : Char)
  deriving DecidableEq

namespace Piece

def text : Piece → List Char
  | .comment body => '#' :: body
  | .literal l => l.text
  | .other c => [c]

/-- The text `p.text ++ rest` begins with the piece. -/
def Stands (rest : List Char) : Piece → Prop
  | .comment body => '\n' ∉ body ∧ (rest = [] ∨ rest.head? = some '\n')
  | .literal l => l.Stands rest
  | .other c => c ≠ '#' ∧ ∀ q : Quote, c ≠ q.char

def bracket? : Piece → Option Char
  | .other c => if isOpener c || isCloser c then some c else none
  | _ => none

end Piece

/-- `ps` are the pieces of the code. -/
inductive Cut : List Char → List Piece → Prop
  | nil : Cut [] []
  | cons {p : Piece} {rest : List Char} {ps : List Piece} : p.Stands rest → Cut rest ps → Cut (p.text ++ rest) (p :: ps)

/-- The brackets that are left without comments and literals. -/
def brackets (ps : List Piece) : List Char := ps.filterMap Piece.bracket?

/-! ### Every text can be cut -/

theorem Quote.marks_eq_cons (q : Quote) (triple : Bool) : ∃ more, q.marks triple = q.char :: more := by
  cases triple
  · exact ⟨[], rfl⟩
  · exact ⟨[q.char, q.char], rfl⟩

namespace Contents

variable {q : Quote} {triple : Bool} {g : Glyph} {gs : List Glyph} {after : List Char}

theorem nil (q : Quote) (triple : Bool) (after : List Char) : Contents q triple [] after where
  inside _ hsuffix hne := absurd (List.suffix_nil.mp hsuffix) hne
  oneLine _ := List.not_mem_nil

/-- The contents of a literal, character by character. -/
theorem cons_iff : Contents q triple (g :: gs) after ↔
    ¬ q.marks triple <+: g.text ++ (gs.flatMap Glyph.text ++ after) ∧ (triple = false → g ≠ .newline) ∧
      Contents q triple gs after := by
  constructor
  · intro h
    refine ⟨?_, ?_, ?_, ?_⟩
    · have hwhole := h.inside (g :: gs) (List.suffix_refl _) (List.cons_ne_nil g gs)
      rwa [List.flatMap_cons, List.append_assoc] at hwhole
    · rintro hone rfl
      exact h.oneLine hone List.mem_cons_self
    · exact fun hs hsuffix => h.inside hs (hsuffix.trans (List.suffix_cons g gs))
    · exact fun hone hmem => h.oneLine hone (List.mem_cons_of_mem g hmem)
  · rintro ⟨hfirst, hnewline, hrest⟩
    constructor
    · intro hs hsuffix hne
      rcases List.suffix_cons_iff.mp hsuffix with rfl | hsuffix
      · rwa [List.flatMap_cons, List.append_assoc]
      · exact hrest.inside hs hsuffix hne
    · intro hone hmem
      rcases List.mem_cons.mp hmem with rfl | hmem
      · exact hnewline hone rfl
      · exact hrest.oneLine hone hmem

end Contents

/-- The text begins with the contents of a literal and its end. -/
def GoesOn (q : Quote) (triple : Bool) (cs : List Char) : Prop :=
  ∃ gs ending rest, cs = gs.flatMap Glyph.text ++ (Ending.text q triple ending ++ rest) ∧
    Contents q triple gs (Ending.text q triple ending ++ rest) ∧ ending.Stands triple rest

/-- So does a text with one more character of a literal before it. -/
theorem GoesOn.glyph {q : Quote} {triple : Bool} {g : Glyph} {cs : List Char} (h : GoesOn q triple cs)
    (hopen : ¬ q.marks triple <+: g.text ++ cs) (hnewline : triple = false → g ≠ .newline) :
    GoesOn q triple (g.text ++ cs) := by
  obtain ⟨gs, ending, rest, rfl, hcontents, hending⟩ := h
  refine ⟨g :: gs, ending, rest, ?_, Contents.cons_iff.mpr ⟨hopen, hnewline, hcontents⟩, hending⟩
  rw [List.flatMap_cons, List.append_assoc]

/-- The induction is on the length, since a backslash takes the next character along. -/
theorem goesOn (q : Quote) (triple : Bool) (cs : List Char) : GoesOn q triple cs := by
  induction hlen : cs.length using Nat.strongRecOn generalizing cs with
  | _ n ih =>
    -- the closing quotes are here
    by_cases hmarks : q.marks triple <+: cs
    · obtain ⟨rest, rfl⟩ := hmarks
      exact ⟨[], .closed, rest, rfl, Contents.nil q triple _, trivial⟩
    cases cs with
    | nil => exact ⟨[], .cut, [], rfl, Contents.nil q triple _, .inl rfl⟩
    | cons c cs =>
      rw [List.length_cons] at hlen
      by_cases hback : c = '\\'
      · subst hback
        cases cs with
        | nil => exact ⟨[], .backslash, [], rfl, Contents.nil q triple _, rfl⟩
        | cons d cs =>
          have hrest : GoesOn q triple cs := ih _ (by rw [← hlen, List.length_cons]; omega) cs rfl
          exact hrest.glyph (g := .escaped d) hmarks fun _ h => by cases h
      -- the end of the line ends a literal in one quote on each side
      by_cases hnl : c = '\n' ∧ triple = false
      · obtain ⟨rfl, hone⟩ := hnl
        exact ⟨[], .cut, '\n' :: cs, rfl, Contents.nil q triple _, .inr ⟨hone, rfl⟩⟩
      · have hrest : GoesOn q triple cs := ih _ (by omega) cs rfl
        exact hrest.glyph (g := .plain c hback) hmarks fun hone h => hnl ⟨Glyph.plain.inj h, hone⟩

/-- Where a quote stands in code, a literal begins. -/
theorem exists_literal (q : Quote) (cs : List Char) :
    ∃ l : Literal, ∃ rest, q.char :: cs = l.text ++ rest ∧ l.Stands rest := by
  -- three quotes open a literal in triple quotes, even if two would make an empty one
  by_cases htriple : q.marks true <+: q.char :: cs
  · obtain ⟨cs', hcs⟩ := htriple
    obtain ⟨gs, ending, rest, rfl, hcontents, hending⟩ := goesOn q true cs'
    refine ⟨⟨q, true, gs, ending⟩, rest, ?_, fun h => (by cases h), hcontents, hending⟩
    rw [← hcs, Literal.text, List.append_assoc, List.append_assoc]
    rfl
  · obtain ⟨gs, ending, rest, rfl, hcontents, hending⟩ := goesOn q false cs
    have htext : q.char :: (gs.flatMap Glyph.text ++ (Ending.text q false ending ++ rest)) =
        (Literal.mk q false gs ending).text ++ rest := by
      rw [Literal.text, List.append_assoc, List.append_assoc]
      rfl
    exact ⟨⟨q, false, gs, ending⟩, rest, htext, fun _ => htext ▸ htriple, hcontents, hending⟩

/-- A comment goes on to the end of its line. -/
theorem exists_comment (cs : List Char) :
    ∃ body rest, cs = body ++ rest ∧ '\n' ∉ body ∧ (rest = [] ∨ rest.head? = some '\n') := by
  induction cs with
  | nil => exact ⟨[], [], rfl, List.not_mem_nil, .inl rfl⟩
  | cons c cs ih =>
    by_cases hnl : c = '\n'
    · exact ⟨[], c :: cs, rfl, List.not_mem_nil, .inr (by rw [hnl]; rfl)⟩
    · obtain ⟨body, rest, rfl, hbody, hrest⟩ := ih
      exact ⟨c :: body, rest, rfl, List.not_mem_cons_of_ne_of_not_mem (Ne.symm hnl) hbody, hrest⟩

/-- Text begins with a piece. -/
theorem exists_piece (c : Char) (cs : List Char) : ∃ p : Piece, ∃ rest, c :: cs = p.text ++ rest ∧ p.Stands rest := by
  by_cases hhash : c = '#'
  · obtain ⟨body, rest, rfl, hstands⟩ := exists_comment cs
    exact ⟨.comment body, rest, by rw [hhash]; rfl, hstands⟩
  by_cases hquote : ∃ q : Quote, c = q.char
  · obtain ⟨q, rfl⟩ := hquote
    obtain ⟨l, rest, htext, hstands⟩ := exists_literal q cs
    exact ⟨.literal l, rest, htext, hstands⟩
  · exact ⟨.other c, cs, rfl, hhash, fun q hq => hquote ⟨q, hq⟩⟩

theorem Piece.text_ne_nil (p : Piece) : p.text ≠ [] := by
  cases p with
  | comment body => exact List.cons_ne_nil _ _
  | literal l =>
    obtain ⟨more, hmarks⟩ := l.quote.marks_eq_cons l.triple
    rw [text, Literal.text, hmarks]
    exact List.cons_ne_nil _ _
  | other c => exact List.cons_ne_nil _ _

/-- Every text can be cut in pieces. -/
theorem exists_cut (code : List Char) : ∃ ps, Cut code ps := by
  induction hlen : code.length using Nat.strongRecOn generalizing code with
  | _ n ih =>
    cases code with
    | nil => exact ⟨[], .nil⟩
    | cons c cs =>
      obtain ⟨p, rest, htext, hstands⟩ := exists_piece c cs
      have hshort : rest.length < n := by
        have hpos := List.length_pos_iff.mpr p.text_ne_nil
        rw [← hlen, htext, List.length_append]
        omega
      obtain ⟨ps, hps⟩ := ih _ hshort rest rfl
      rw [htext]
      exact ⟨p :: ps, .cons hstands hps⟩

/-! ### A scan goes from piece to piece -/

/-- The newlines of a piece that a scan counts: it does not see one after a backslash. -/
def Piece.breaks : Piece → Nat
  | .comment _ => 0
  | .literal l => l.contents.count .newline
  | .other c => if c = '\n' then 1 else 0

/-- The brackets among the pieces, with the lines on which a scan that begins on `line` sees them. -/
def located (line : Nat) : List Piece → List Bracket
  | [] => []
  | p :: ps => p.bracket?.toList.map (⟨·, line⟩) ++ located (line + p.breaks) ps

section Scan

variable {q : Quote} {triple : Bool} {line : Nat} {rest : List Char}

/-- A scan lists nothing of a literal. -/
theorem scan_literal_cons (line : Nat) (q : Char) (triple : Bool) (c : Char) (cs : List Char) :
    scan line (.literal q triple) (c :: cs) = scan (((Mode.literal q triple).bite c cs).lineAfter line)
      ((Mode.literal q triple).bite c cs).mode (cs.drop ((Mode.literal q triple).bite c cs).extra) := by
  have hnone : (Mode.literal q triple).listed line c = [] := if_neg fun h => by cases h.1
  rw [scan_cons, hnone, List.nil_append]

/-- Where three quotes do not begin, two do not follow the first. -/
theorem not_isPrefixOf_pair (h : ¬ q.marks true <+: q.char :: rest) : ¬ [q.char, q.char].isPrefixOf rest = true :=
  fun hpair => h (List.cons_prefix_cons.mpr ⟨rfl, List.isPrefixOf_iff_prefix.mp hpair⟩)

/-- A scan goes past one character of a literal, and counts its newline unless a backslash precedes it. -/
theorem scan_glyph {g : Glyph} (hopen : ¬ q.marks triple <+: g.text ++ rest)
    (hnewline : triple = false → g ≠ .newline) :
    scan line (.literal q.char triple) (g.text ++ rest) =
      scan (line + [g].count .newline) (.literal q.char triple) rest := by
  by_cases hg : g = .newline
  · subst hg
    have htriple : triple = true := eq_true_of_ne_false fun hone => hnewline hone rfl
    subst htriple
    show scan line (.literal q.char true) ('\n' :: rest) = _
    rw [scan_literal_cons, List.count_singleton_self]
    rfl
  have hnone : [g].count .newline = 0 := List.count_eq_zero.mpr (by simpa using Ne.symm hg)
  rw [hnone, Nat.add_zero]
  cases g with
  | escaped c =>
    rw [Glyph.text, List.cons_append, List.cons_append, scan_literal_cons]
    rfl
  | plain c hback =>
    have hnl : c ≠ '\n' := by
      rintro rfl
      exact hg rfl
    rw [Glyph.text, List.singleton_append, scan_literal_cons]
    by_cases hq : c = q.char
    · subst hq
      cases triple with
      | false => exact absurd (List.cons_prefix_cons.mpr ⟨rfl, List.nil_prefix⟩) hopen
      | true =>
        -- a quote in triple quotes, with fewer than two behind it
        have hpair : ¬ [q.char, q.char].isPrefixOf rest = true := not_isPrefixOf_pair hopen
        simp only [Mode.bite, if_neg hback, if_neg hnl, if_true, if_neg hpair]
        rfl
    · simp only [Mode.bite, if_neg hback, if_neg hnl, if_neg hq]
      rfl

/-- So it goes past all of them. -/
theorem scan_contents {gs : List Glyph} {after : List Char} (h : Contents q triple gs after) (line : Nat) :
    scan line (.literal q.char triple) (gs.flatMap Glyph.text ++ after) =
      scan (line + gs.count .newline) (.literal q.char triple) after := by
  induction gs generalizing line with
  | nil => rfl
  | cons g gs ih =>
    obtain ⟨hopen, hnewline, hrest⟩ := Contents.cons_iff.mp h
    rw [List.flatMap_cons, List.append_assoc, scan_glyph hopen hnewline, ih hrest, Nat.add_assoc, ← List.count_append,
      List.singleton_append]

/-- After the end of a literal a scan is in code again, however the literal ends. -/
theorem scan_ending {ending : Ending} (h : ending.Stands triple rest) :
    scan line (.literal q.char triple) (ending.text q triple ++ rest) = scan line .code rest := by
  cases ending with
  | closed =>
    cases triple with
    | false =>
      show scan line (.literal q.char false) (q.char :: rest) = _
      rw [scan_literal_cons]
      simp only [Mode.bite, if_neg q.char_ne_backslash, if_neg q.char_ne_newline, if_true]
      rfl
    | true =>
      show scan line (.literal q.char true) (q.char :: q.char :: q.char :: rest) = _
      rw [scan_closing q.char_ne_backslash q.char_ne_newline, if_pos (by simp)]
      rfl
  | cut =>
    -- the literal is cut by the end of the text or of its line
    rcases h with rfl | ⟨rfl, hhead⟩
    · rw [scan_nil]
      exact scan_nil _ _
    · obtain ⟨rest, rfl⟩ := List.head?_eq_some_iff.mp hhead
      show scan line (.literal q.char false) ('\n' :: rest) = _
      rw [scan_literal_cons, scan_cons]
      rfl
  | backslash =>
    obtain rfl : rest = [] := h
    show scan line (.literal q.char triple) ['\\'] = _
    rw [scan_literal_cons, List.drop_nil, scan_nil, scan_nil]

theorem scan_opening {after : List Char} (h : triple = false → ¬ q.marks true <+: q.marks triple ++ after) :
    scan line .code (q.marks triple ++ after) = scan line (.literal q.char triple) after := by
  have hquote : (q.char = '"' || q.char = '\'') = true := by cases q <;> rfl
  cases triple with
  | false =>
    show scan line .code (q.char :: after) = _
    have hpair : ¬ [q.char, q.char].isPrefixOf after = true := not_isPrefixOf_pair (h rfl)
    rw [scan_quote hquote, if_neg hpair]
  | true =>
    show scan line .code (q.char :: q.char :: q.char :: after) = _
    rw [scan_quote hquote, if_pos (by simp)]
    rfl

theorem scan_literal {l : Literal} (h : l.Stands rest) :
    scan line .code (l.text ++ rest) = scan (line + l.contents.count .newline) .code rest := by
  have htext : l.text ++ rest = l.quote.marks l.triple ++ (l.contents.flatMap Glyph.text ++ (l.tail ++ rest)) := by
    rw [Literal.text, List.append_assoc, List.append_assoc]
  have hopening := h.opening
  rw [htext] at hopening ⊢
  rw [scan_opening hopening, scan_contents h.contents, Literal.tail, scan_ending h.ending]

/-- A comment is skipped. -/
theorem scan_comment {body : List Char} (hbody : '\n' ∉ body) (hrest : rest = [] ∨ rest.head? = some '\n') :
    scan line .comment (body ++ rest) = scan line .code rest := by
  induction body with
  | nil =>
    rcases hrest with rfl | hhead
    · rw [List.nil_append, scan_nil, scan_nil]
    · obtain ⟨rest, rfl⟩ := List.head?_eq_some_iff.mp hhead
      rw [List.nil_append, scan_cons, scan_cons]
      rfl
  | cons c body ih =>
    obtain ⟨hc, hbody⟩ := List.ne_and_not_mem_of_not_mem_cons hbody
    have hnone : Mode.comment.listed line c = [] := if_neg fun h => by cases h.1
    rw [List.cons_append, scan_cons, hnone, List.nil_append]
    simp only [Mode.bite, if_neg hc.symm]
    exact ih hbody

/-- What a scan does with one piece. -/
theorem scan_piece {p : Piece} (h : p.Stands rest) (line : Nat) :
    scan line .code (p.text ++ rest) =
      p.bracket?.toList.map (⟨·, line⟩) ++ scan (line + p.breaks) .code rest := by
  cases p with
  | comment body =>
    show scan line .code ('#' :: (body ++ rest)) = scan line .code rest
    rw [scan_cons]
    exact scan_comment h.1 h.2
  | literal l => exact scan_literal h
  | other c =>
    -- neither a comment nor a literal begins here, so it is a bracket, a newline or of no interest
    obtain ⟨hhash, hquotes⟩ := h
    have hquote : ¬ (c = '"' || c = '\'') = true := by simpa using ⟨hquotes .double, hquotes .single⟩
    have hlisted : Mode.code.listed line c = (Piece.other c).bracket?.toList.map (⟨·, line⟩) := by
      simp only [Mode.listed, Piece.bracket?, true_and]
      split_ifs <;> rfl
    show scan line .code (c :: rest) = _
    rw [scan_cons, hlisted]
    by_cases hnl : c = '\n'
    · simp only [Mode.bite, if_pos hnl, Piece.breaks]
      rfl
    · simp only [Mode.bite, if_neg hnl, if_neg hhash, if_neg hquote, Piece.breaks]
      rfl

end Scan

/-- A scan lists the brackets among the pieces of the code. -/
theorem scan_eq_located {code : List Char} {ps : List Piece} (h : Cut code ps) (line : Nat) :
    scan line .code code = located line ps := by
  induction h generalizing line with
  | nil => exact scan_nil line .code
  | cons hstands _ ih => rw [scan_piece hstands, ih, located]

/-- The brackets that a scan lists are those among the pieces. -/
theorem spelled_located (line : Nat) (ps : List Piece) : spelled (located line ps) = brackets ps := by
  induction ps generalizing line with
  | nil => rfl
  | cons p ps ih =>
    have hcons : brackets (p :: ps) = p.bracket?.toList ++ brackets ps := by
      rw [brackets, List.filterMap_cons]
      cases p.bracket? <;> rfl
    have hfirst : spelled (p.bracket?.toList.map (⟨·, line⟩)) = p.bracket?.toList := by
      cases p.bracket? <;> rfl
    rw [located, spelled_append, ih, hfirst, hcons]

theorem isBracket_of_mem_located {line : Nat} {ps : List Piece} {b : Bracket} (h : b ∈ located line ps) :
    (isOpener b.char || isCloser b.char) = true := by
  have hmem : b.char ∈ brackets ps := spelled_located line ps ▸ List.mem_map_of_mem h
  obtain ⟨p, -, hp⟩ := List.mem_filterMap.mp hmem
  cases p with
  | comment body => cases hp
  | literal l => cases hp
  | other c =>
    rw [Piece.bracket?] at hp
    split_ifs at hp with hc
    exact Option.some.inj hp ▸ hc

/-- **The scan decides whether the brackets of the code nest.** Every code can be cut in comments, literals and other
characters. There is no problem exactly if the brackets among the latter are well-nested; otherwise the problem is the
first closing bracket that makes it impossible to complete them, or else the innermost one that is never closed. -/
theorem problem_by_nesting (code : List Char) :
    (∃ ps, Cut code ps) ∧ ∀ ps, Cut code ps →
      (scan 1 .code code).map (·.char) = brackets ps ∧ (problem? code = none ↔ WellNested (brackets ps)) ∧
        ∀ p, problem? code = some p → Reports (scan 1 .code code) p := by
  refine ⟨exists_cut code, fun ps hps => ?_⟩
  have hscan := scan_eq_located hps 1
  have hspelled := spelled_located 1 ps
  have hbrackets : ∀ b ∈ located 1 ps, (isOpener b.char || isCloser b.char) = true := fun _ => isBracket_of_mem_located
  rw [problem?, hscan]
  refine ⟨hspelled, ?_, ?_⟩
  · rw [nest_eq_none_iff hbrackets, hspelled]
  · intro p hp
    have hjudged := judged_nest hbrackets
    rwa [hp] at hjudged

/-- Brackets in a literal and in a comment, between two that do not match. -/
def hiddenBrackets : List Char := "f(')\\'' # )\n]".toList

theorem problem_by_nesting_hiddenBrackets :
    problem? hiddenBrackets = some (.mismatch ⟨'(', 1⟩ ⟨']', 2⟩) ∧
      Reports (scan 1 .code hiddenBrackets) (.mismatch ⟨'(', 1⟩ ⟨']', 2⟩) := by
  have hproblem : problem? hiddenBrackets = some (.mismatch ⟨'(', 1⟩ ⟨']', 2⟩) := by cbv
  obtain ⟨ps, hps⟩ := (problem_by_nesting hiddenBrackets).1
  exact ⟨hproblem, ((problem_by_nesting hiddenBrackets).2 ps hps).2.2 _ hproblem⟩

end AgentFlow.Bracket
