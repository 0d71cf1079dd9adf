import AgentFlow.Proofs.Python.Faithful
import AgentFlow.Python.Layout

/-!
# The tokens of a layout

`tokens` reads the text of an expression as words, string literals and single marks, and skips the blanks between
them. A layout that is broken over lines has the tokens of the same layout on one line, with one more comma before each
closing bracket (`Layout.Lexical.render`). `dropCommas` takes those away. Both facts follow the recursion of layouts:
each text in a layout is read as its own tokens whatever follows it (`Spells`), or before anything that is no part of a
word (`SpellsApart`), and what is broken gives the tokens back piece by piece (`Restores`).
-/

namespace AgentFlow.Python

open Text
open AgentFlow.Bracket (Glyph isOpener isCloser)

/-! ### Reading tokens -/

/-- A token of an expression. -/
inductive Token where
  /-- A name, a keyword or the digits of a number. -/
  | word (text : List Char)
  /-- A string literal, with its quotes. -/
  | literal (text : List Char)
  | mark (c : Char)
  deriving DecidableEq, Repr

/-- Where the reading of tokens stands, with what it has seen of the token there. -/
inductive Lexer where
  | between
  | word (seen : List Char)
  /-- In a literal that `quote` ends, after a backslash or not. -/
  | literal (quote : Char) (seen : List Char) (escaped : Bool)
  deriving DecidableEq, Repr

namespace Lexer

/-- What a character between tokens begins. -/
def begin (c : Char) : List Token × Lexer :=
  if isWordChar c then ([], .word [c])
  else if c = '"' || c = '\'' then ([], .literal c [c] false)
  else if isBlank c then ([], .between)
  else ([.mark c], .between)

/-- The tokens that are complete with one more character, and where the reading stands then. -/
def step : Lexer → Char → List Token × Lexer
  | .between, c => begin c
  | .word seen, c => if isWordChar c then ([], .word (seen ++ [c])) else (.word seen :: (begin c).1, (begin c).2)
  | .literal q seen escaped, c =>
    if escaped then ([], .literal q (seen ++ [c]) false)
    else if c = q then ([.literal (seen ++ [c])], .between)
    else ([], .literal q (seen ++ [c]) (c = '\\'))

/-- The token that the end of the text completes. -/
def finish : Lexer → List Token
  | .between => []
  | .word seen => [.word seen]
  | .literal _ seen _ => [.literal seen]

/-- The tokens of the rest of a text. -/
def lex (l : Lexer) : List Char → List Token
  | [] => l.finish
  | c :: cs => (l.step c).1 ++ lex (l.step c).2 cs

end Lexer

/-- The tokens of a text. -/
def tokens (cs : List Char) : List Token := Lexer.between.lex cs

/-- The text does not go on with a word. -/
def Apart (cs : List Char) : Prop := (cs.head?.all fun c => !isWordChar c) = true

namespace Lexer

variable {rest : List Char}

/-- A word ends where the text goes on with something else. -/
theorem lex_apart (h : Apart rest) (seen : List Char) : lex (.word seen) rest = .word seen :: lex .between rest := by
  cases rest with
  | nil => rfl
  | cons c rest =>
    have hc : isWordChar c = false := by simpa [Apart] using h
    simp only [lex, step, hc, Bool.false_eq_true, if_false, List.cons_append]

/-- A word goes on as long as its characters do. -/
theorem lex_wordChars {more : List Char} (h : ∀ c ∈ more, isWordChar c = true) (seen : List Char) :
    lex (.word seen) (more ++ rest) = lex (.word (seen ++ more)) rest := by
  induction more generalizing seen with
  | nil => rw [List.append_nil, List.nil_append]
  | cons c more ih =>
    obtain ⟨hc, hmore⟩ := List.forall_mem_cons.mp h
    have hstep : lex (.word seen) (c :: (more ++ rest)) = lex (.word (seen ++ [c])) (more ++ rest) := by
      simp only [lex, step, hc, if_true, List.nil_append]
    rw [List.cons_append, hstep, ih hmore, List.append_assoc, List.singleton_append]

/-- What is written for one character stays inside a literal. -/
theorem lex_glyph {g : Glyph} (h : ∀ hback, g ≠ .plain '"' hback) (seen : List Char) :
    lex (.literal '"' seen false) (g.text ++ rest) = lex (.literal '"' (seen ++ g.text) false) rest := by
  cases g with
  | plain c hback =>
    have hc : c ≠ '"' := by
      rintro rfl
      exact h hback rfl
    simp only [Glyph.text, List.singleton_append, lex, step, Bool.false_eq_true, if_false, hc, List.nil_append,
      decide_eq_false hback]
  -- the backslash is read before the character, which ends nothing then
  | escaped c => simp [Glyph.text, lex, step]

theorem lex_glyphs {gs : List Glyph} (h : ∀ hback, .plain '"' hback ∉ gs) (seen : List Char) :
    lex (.literal '"' seen false) (gs.flatMap Glyph.text ++ rest) =
      lex (.literal '"' (seen ++ gs.flatMap Glyph.text) false) rest := by
  induction gs generalizing seen with
  | nil => rw [List.flatMap_nil, List.append_nil, List.nil_append]
  | cons g gs ih =>
    have hg : ∀ hback, g ≠ .plain '"' hback := fun hback hmem => h hback (hmem ▸ List.mem_cons_self)
    rw [List.flatMap_cons, List.append_assoc, lex_glyph hg,
      ih fun hback hmem => h hback (List.mem_cons_of_mem g hmem), List.append_assoc]

end Lexer

/-! ### Texts and their tokens -/

/-- The text is read as the tokens, whatever follows. -/
def Spells (t : String) (ts : List Token) : Prop :=
  ∀ rest, Lexer.between.lex (t.toList ++ rest) = ts ++ Lexer.between.lex rest

/-- The text is read as the tokens before anything that is no part of a word. -/
def SpellsApart (t : String) (ts : List Token) : Prop :=
  ∀ rest, Apart rest → Lexer.between.lex (t.toList ++ rest) = ts ++ Lexer.between.lex rest

section Spells

variable {s t : String} {ts us : List Token}

theorem Spells.apart (h : Spells t ts) : SpellsApart t ts := fun rest _ => h rest

theorem spells_empty : Spells "" [] := fun _ => rfl

theorem Spells.append (hs : Spells s ts) (ht : Spells t us) : Spells (s ++ t) (ts ++ us) := by
  intro rest
  rw [String.toList_append, List.append_assoc, hs, ht, List.append_assoc]

theorem Spells.appendApart (hs : Spells s ts) (ht : SpellsApart t us) : SpellsApart (s ++ t) (ts ++ us) := by
  intro rest hrest
  rw [String.toList_append, List.append_assoc, hs, ht rest hrest, List.append_assoc]

/-- A text that begins with no word may follow. -/
theorem SpellsApart.append (hs : SpellsApart s ts) (ht : Spells t us) (hne : t.toList ≠ []) (hapart : Apart t.toList) :
    Spells (s ++ t) (ts ++ us) := by
  intro rest
  have hrest : Apart (t.toList ++ rest) := by
    cases hcs : t.toList with
    | nil => exact absurd hcs hne
    | cons c cs =>
      rw [hcs] at hapart
      exact hapart
  rw [String.toList_append, List.append_assoc, hs _ hrest, ht, List.append_assoc]

theorem SpellsApart.tokens_eq (h : SpellsApart t ts) : tokens t.toList = ts := by
  have hread := h [] rfl
  rw [List.append_nil] at hread
  exact hread.trans (List.append_nil ts)

/-- A word is one token, unless it goes on behind the text. -/
theorem spellsApart_word (hne : t.toList ≠ []) (h : ∀ c ∈ t.toList, isWordChar c = true) :
    SpellsApart t [.word t.toList] := by
  intro rest hrest
  obtain ⟨c, w, ht⟩ := List.exists_cons_of_ne_nil hne
  rw [ht] at h ⊢
  obtain ⟨hc, hw⟩ := List.forall_mem_cons.mp h
  have hbegin : Lexer.between.lex (c :: (w ++ rest)) = Lexer.lex (.word [c]) (w ++ rest) := by
    simp only [Lexer.lex, Lexer.step, Lexer.begin, hc, if_true, List.nil_append]
  rw [List.cons_append, hbegin, Lexer.lex_wordChars hw, Lexer.lex_apart hrest]
  rfl

/-- A literal is one token. -/
theorem spells_quote (s : String) : Spells (quote s) [.literal (quote s).toList] := by
  intro rest
  obtain ⟨gs, hgs, hquote, -⟩ := Unquoted.flatMap unquoted_escapeChar s.toList
  have htext : (quote s).toList = '"' :: (gs.flatMap Glyph.text ++ ['"']) := by
    rw [← hgs]
    exact String.toList_ofList
  have hbegin : ∀ tail, Lexer.between.lex ('"' :: tail) = Lexer.lex (.literal '"' ['"'] false) tail := fun _ => rfl
  have hend : ∀ seen, Lexer.lex (.literal '"' seen false) ('"' :: rest) =
      .literal (seen ++ ['"']) :: Lexer.between.lex rest := fun _ => rfl
  rw [htext, List.cons_append, List.append_assoc, hbegin, Lexer.lex_glyphs hquote]
  exact hend _

end Spells

/-! ### Marks -/

/-- A character that is a token by itself. -/
def isMark (c : Char) : Bool := isOpener c || isCloser c || c = ',' || c = ':' || c = '=' || c = '-'

/-- A character between tokens that are laid out. -/
def isGap (c : Char) : Bool := c = ' ' || c = '\n'

set_option maxRecDepth 4000 in
theorem begin_of_isMark {c : Char} (h : isMark c = true) : Lexer.begin c = ([.mark c], .between) := by
  simp only [isMark, isOpener, isCloser, Bool.or_eq_true, decide_eq_true_eq] at h
  rcases h with ((((((rfl | rfl) | rfl) | ((rfl | rfl) | rfl)) | rfl) | rfl) | rfl) | rfl <;> decide

set_option maxRecDepth 4000 in
theorem begin_of_isGap {c : Char} (h : isGap c = true) : Lexer.begin c = ([], .between) := by
  simp only [isGap, Bool.or_eq_true, decide_eq_true_eq] at h
  rcases h with rfl | rfl <;> decide

theorem isWordChar_of_begin {c : Char} {ts : List Token} (h : Lexer.begin c = (ts, .between)) :
    isWordChar c = false := by
  by_contra hword
  rw [Lexer.begin, if_pos (by simpa using hword)] at h
  cases h

/-- A text of marks and gaps. -/
theorem spells_marks {cs : List Char} (h : (cs.all fun c => isMark c || isGap c) = true) :
    Spells (String.ofList cs) ((cs.filter isMark).map .mark) := by
  intro rest
  rw [String.toList_ofList]
  induction cs with
  | nil => rfl
  | cons c cs ih =>
    obtain ⟨hc, hcs⟩ := Bool.and_eq_true_iff.mp h
    show (Lexer.begin c).1 ++ Lexer.lex (Lexer.begin c).2 (cs ++ rest) = _
    by_cases hmark : isMark c = true
    · rw [begin_of_isMark hmark, ih hcs, List.filter_cons_of_pos hmark]
      rfl
    · -- a gap is read as no token
      have hgap : isGap c = true := by simpa [hmark] using hc
      rw [begin_of_isGap hgap, ih hcs, List.filter_cons_of_neg hmark]
      rfl

theorem spells_indent (depth : Nat) : Spells (indent depth) [] := by
  have hmarks : Spells (String.ofList (List.replicate (4 * depth) ' ')) _ := spells_marks (by simp [isGap])
  have hnone : (List.replicate (4 * depth) ' ').filter isMark = [] := by
    rw [List.filter_replicate, if_neg (by decide)]
  rw [hnone] at hmarks
  exact hmarks

/-- A text with a mark at its start may follow any other. -/
theorem SpellsApart.append_marks {s : String} {ts : List Token} {c : Char} {cs : List Char} (hs : SpellsApart s ts)
    (hc : isMark c = true) (h : (cs.all fun c => isMark c || isGap c) = true) :
    Spells (s ++ String.ofList (c :: cs)) (ts ++ .mark c :: (cs.filter isMark).map .mark) := by
  have hmarks : Spells (String.ofList (c :: cs)) _ := spells_marks (by rw [List.all_cons, hc, h]; rfl)
  rw [List.filter_cons_of_pos hc] at hmarks
  refine hs.append hmarks ?_ ?_
  · rw [String.toList_ofList]
    exact List.cons_ne_nil c cs
  · rw [String.toList_ofList]
    simpa [Apart] using isWordChar_of_begin (begin_of_isMark hc)

/-! ### Commas before closing brackets -/

/-- The token is a closing bracket. -/
def Token.closes : Token → Bool
  | .mark c => isCloser c
  | _ => false

/-- The tokens without the commas that stand right before a closing bracket. -/
def dropCommas : List Token → List Token
  | [] => []
  | t :: ts => if t = .mark ',' ∧ ts.head?.any Token.closes = true then dropCommas ts else t :: dropCommas ts

/-- The tokens begin with something that closes no bracket. -/
def Begins (ts : List Token) : Prop := ts.head?.any (fun t => !t.closes) = true

/-- Without the commas before closing brackets the tokens are `us`, whatever follows. -/
def Restores (ts us : List Token) : Prop := ∀ rest, dropCommas (ts ++ rest) = us ++ dropCommas rest

section Restores

variable {ts us ts' us' : List Token}

theorem Begins.append (h : Begins ts) (more : List Token) : Begins (ts ++ more) := by
  cases ts with
  | nil => cases h
  | cons t ts => exact h

theorem dropCommas_cons {t : Token} (ht : t ≠ .mark ',') (ts : List Token) :
    dropCommas (t :: ts) = t :: dropCommas ts := by rw [dropCommas, if_neg fun h => ht h.1]

theorem dropCommas_comma_of_begins (h : Begins ts) : dropCommas (.mark ',' :: ts) = .mark ',' :: dropCommas ts := by
  cases ts with
  | nil => cases h
  | cons t ts =>
    have ht : t.closes = false := by simpa [Begins] using h
    rw [dropCommas, if_neg (by simp [ht])]

theorem dropCommas_comma_of_closes {t : Token} (ht : t.closes = true) (ts : List Token) :
    dropCommas (.mark ',' :: t :: ts) = dropCommas (t :: ts) := by rw [dropCommas, if_pos (by simp [ht])]

theorem restores_nil : Restores [] [] := fun _ => rfl

/-- Without commas nothing is dropped. -/
theorem restores_self (h : .mark ',' ∉ ts) : Restores ts ts := by
  intro rest
  induction ts with
  | nil => rfl
  | cons t ts ih =>
    have ht : t ≠ .mark ',' := fun heq => h (heq ▸ List.mem_cons_self)
    rw [List.cons_append, dropCommas_cons ht, ih fun hmem => h (List.mem_cons_of_mem t hmem), List.cons_append]

theorem Restores.append (h : Restores ts us) (h' : Restores ts' us') : Restores (ts ++ ts') (us ++ us') := by
  intro rest
  rw [List.append_assoc, h, h', List.append_assoc]

/-- A comma stays before an item. -/
theorem Restores.comma (h : Restores ts us) (hts : Begins ts) : Restores (.mark ',' :: ts) (.mark ',' :: us) := by
  intro rest
  rw [List.cons_append, dropCommas_comma_of_begins (hts.append rest), h, List.cons_append]

end Restores

/-! ### Layouts -/

mutual

/-- The tokens of the layout on one line. -/
def Layout.tokens : Layout → List Token
  | .atom text => Python.tokens text.toList
  | .group opening items closing => Python.tokens opening.toList ++ itemTokens items ++ Python.tokens closing.toList

def itemTokens : List (String × Layout) → List Token
  | [] => []
  | [(lead, l)] => Python.tokens lead.toList ++ l.tokens
  | (lead, l) :: rest => Python.tokens lead.toList ++ l.tokens ++ .mark ',' :: itemTokens rest

end

/-- The text before an item is read by itself and has no comma in it. -/
structure Prefatory (lead : String) : Prop where
  spells : Spells lead (tokens lead.toList)
  uncomma : .mark ',' ∉ tokens lead.toList
  start : ∀ ts, Begins ts → Begins (tokens lead.toList ++ ts)

/-- The text of an atom is read before anything that is no part of a word. It has a token and no comma. -/
structure Atomic (text : String) : Prop where
  spells : SpellsApart text (tokens text.toList)
  uncomma : .mark ',' ∉ tokens text.toList
  begins : Begins (tokens text.toList)

mutual

/-- Every text of the layout is read as tokens of its own. -/
def Layout.Lexical : Layout → Prop
  | .atom text => Atomic text
  | .group opening items closing =>
    Prefatory opening ∧ Begins (Python.tokens opening.toList) ∧ LexicalItems items ∧
      ∃ c, isCloser c = true ∧ closing = String.ofList [c]

def LexicalItems : List (String × Layout) → Prop
  | [] => True
  | (lead, l) :: rest => Prefatory lead ∧ l.Lexical ∧ LexicalItems rest

end

section Layouts

variable {c : Char} {l : Layout} {items : List (String × Layout)}

theorem isMark_of_isCloser (h : isCloser c = true) : isMark c = true := by simp [isMark, h]

theorem tokens_closer (h : isCloser c = true) : tokens (String.ofList [c]).toList = [.mark c] := by
  have hspells : Spells (String.ofList [c]) _ := spells_marks (by simp [isMark_of_isCloser h])
  rw [hspells.apart.tokens_eq, List.filter_cons_of_pos (isMark_of_isCloser h)]
  rfl

theorem ne_comma_of_isCloser (h : isCloser c = true) : Token.mark c ≠ .mark ',' := by
  rintro ⟨⟩
  cases h

theorem Layout.Lexical.begins (h : l.Lexical) : Begins l.tokens := by
  cases l with
  | atom text => exact Atomic.begins h
  | group opening items closing => exact (h.2.1.append _).append _

theorem begins_itemTokens (h : LexicalItems items) (hne : items ≠ []) : Begins (itemTokens items) := by
  cases items with
  | nil => exact absurd rfl hne
  | cons item rest =>
    have hfirst := h.1.start _ h.2.1.begins
    cases rest with
    | nil => exact hfirst
    | cons next rest => exact hfirst.append _

theorem itemTokens_cons (lead : String) (l : Layout) {rest : List (String × Layout)} (hne : rest ≠ []) :
    itemTokens ((lead, l) :: rest) = tokens lead.toList ++ l.tokens ++ .mark ',' :: itemTokens rest := by
  cases rest with
  | nil => exact absurd rfl hne
  | cons next rest => rw [itemTokens]; exact hne

mutual

/-- On one line no comma stands before a closing bracket. -/
theorem Layout.Lexical.restores : ∀ {l : Layout}, l.Lexical → Restores l.tokens l.tokens
  | .atom _, h => restores_self (Atomic.uncomma h)
  | .group _ _ _, ⟨hopening, _, hitems, c, hc, hclosing⟩ => by
    rw [Layout.tokens, hclosing, tokens_closer hc]
    refine ((restores_self hopening.uncomma).append (restores_itemTokens hitems)).append (restores_self ?_)
    exact fun hmem => ne_comma_of_isCloser hc (List.mem_singleton.mp hmem).symm

theorem restores_itemTokens : ∀ {items : List (String × Layout)}, LexicalItems items →
    Restores (itemTokens items) (itemTokens items)
  | [], _ => restores_nil
  | [(_, _)], h => (restores_self h.1.uncomma).append h.2.1.restores
  | (_, _) :: _ :: _, h =>
    have hrest := (restores_itemTokens h.2.2).comma (begins_itemTokens h.2.2 (List.cons_ne_nil _ _))
    ((restores_self h.1.uncomma).append h.2.1.restores).append hrest

end

mutual

/-- On one line the layout is spelled by its tokens. -/
theorem Layout.Lexical.flat : ∀ {l : Layout}, l.Lexical → SpellsApart l.flat l.tokens
  | .atom _, h => Atomic.spells h
  | .group _ _ _, ⟨hopening, _, hitems, c, hc, hclosing⟩ => by
    rw [Layout.flat, Layout.tokens, hclosing, tokens_closer hc]
    have hinner := hopening.spells.appendApart (spells_flatItems hitems)
    exact (hinner.append_marks (isMark_of_isCloser hc) rfl).apart

theorem spells_flatItems : ∀ {items : List (String × Layout)}, LexicalItems items →
    SpellsApart (flatItems items) (itemTokens items)
  | [], _ => spells_empty.apart
  | [(_, _)], h => h.1.spells.appendApart h.2.1.flat
  | (lead, l) :: next :: rest, h => by
    have hfirst : Spells (lead ++ l.flat ++ ", ") (tokens lead.toList ++ l.tokens ++ [.mark ',']) :=
      (h.1.spells.appendApart h.2.1.flat).append_marks rfl rfl
    have hall := hfirst.appendApart (spells_flatItems h.2.2)
    rw [List.append_assoc, List.singleton_append] at hall
    exact hall

end

mutual

/-- Broken over lines or not, the layout has the tokens of the one line but for commas before closing brackets. -/
theorem Layout.Lexical.render : ∀ {l : Layout} (depth column : Nat), l.Lexical →
    ∃ ts, SpellsApart (l.render depth column) ts ∧ Restores ts l.tokens ∧ Begins ts
  | .atom _, _, _, h => ⟨_, Atomic.spells h, restores_self (Atomic.uncomma h), Atomic.begins h⟩
  | .group opening items closing, depth, column, h => by
    rw [Layout.render]
    split_ifs with hfits
    · exact ⟨_, h.flat, h.restores, h.begins⟩
    · -- the comma after the last item is dropped before the closing bracket
      obtain ⟨hopening, hbegins, hitems, c, hc, rfl⟩ := h
      have hne : items ≠ [] := by
        rintro rfl
        simp at hfits
      obtain ⟨ts, hts, hdrop, -⟩ := spells_renderItems (depth + 1) hitems hne
      have hline : Spells "\n" [] := spells_marks (by decide)
      have hinner := ((hopening.spells.append hline).append hts).append (spells_indent depth)
      rw [List.append_nil, List.append_nil] at hinner
      refine ⟨_, (hinner.apart.append_marks (isMark_of_isCloser hc) rfl).apart, fun rest => ?_,
        (hbegins.append ts).append _⟩
      rw [Layout.tokens, tokens_closer hc, List.append_assoc, List.append_assoc, restores_self hopening.uncomma,
        List.filter_nil, List.map_nil, List.singleton_append, hdrop (.mark c) hc,
        dropCommas_cons (ne_comma_of_isCloser hc)]
      simp

/-- One item per line, with a comma after each, before a closing bracket. -/
theorem spells_renderItems : ∀ {items : List (String × Layout)} (depth : Nat), LexicalItems items → items ≠ [] →
    ∃ ts, Spells (renderItems depth items) ts ∧
      (∀ t, t.closes = true → ∀ rest, dropCommas (ts ++ t :: rest) = itemTokens items ++ dropCommas (t :: rest)) ∧
      Begins ts
  | (lead, l) :: rest, depth, h, _ => by
    obtain ⟨hlead, hl, hrest⟩ := h
    obtain ⟨ls, hls, hrestores, hbegins⟩ := hl.render depth (indentWidth depth + lead.utf8ByteSize)
    have hitem := (restores_self hlead.uncomma).append hrestores
    have hfirst : Spells (indent depth ++ lead ++ l.render depth _ ++ ",\n") (_ ++ [.mark ',']) :=
      (((spells_indent depth).append hlead.spells).appendApart hls).append_marks rfl rfl
    have hstart := hlead.start ls hbegins
    by_cases hne : rest = []
    · -- the comma after the last item comes right before the closing bracket
      subst hne
      refine ⟨_, hfirst.append spells_empty, fun t ht more => ?_, (hstart.append _).append _⟩
      simp only [List.nil_append, List.append_nil]
      rw [List.append_assoc, hitem, List.singleton_append, dropCommas_comma_of_closes ht, itemTokens]
    · obtain ⟨us, hus, hdrop, hmore⟩ := spells_renderItems depth hrest hne
      refine ⟨_, hfirst.append hus, fun t ht more => ?_, (hstart.append _).append _⟩
      rw [itemTokens_cons lead l hne]
      simp only [List.nil_append, List.append_assoc, List.cons_append]
      rw [← List.append_assoc, hitem, dropCommas_comma_of_begins (hmore.append _), hdrop t ht, List.append_assoc]

end

/-- Breaking lines changes no token but for commas before closing brackets. -/
theorem Layout.Lexical.dropCommas_render (h : l.Lexical) (depth column : Nat) :
    dropCommas (Python.tokens (l.render depth column).toList) = Python.tokens l.flat.toList := by
  obtain ⟨ts, hts, hrestores, -⟩ := h.render depth column
  have hdrop := hrestores []
  rw [List.append_nil] at hdrop
  rw [hts.tokens_eq, h.flat.tokens_eq, hdrop]
  exact List.append_nil l.tokens

end Layouts

end AgentFlow.Python
