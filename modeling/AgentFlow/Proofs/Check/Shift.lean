import AgentFlow.Proofs.Bracket.Pieces
import AgentFlow.Proofs.Check.Cut
import AgentFlow.Proofs.Text.Fragment
import AgentFlow.Proofs.Verify.Truth

/-!
# Findings about code below a comment

A comment line before a piece of code moves everything in it one line down. Every check then finds what it found before,
one line further down, as long as the comment holds none of the texts that checks look for in comments as well. Problems
are told apart by their messages, and no message but that of a bracket problem has a line in it: the only problems that
do not stay the same are an opening bracket that is never closed and one that is closed by another kind.
-/

namespace AgentFlow

/-! ### Lines and what they contain -/

namespace Text

variable {c : Char} {a b : List Char}

theorem contains_append_cons {w : String} (hc : c ∉ w.toList) (a b : List Char) :
    contains w (a ++ c :: b) = (contains w a || contains w b) := by
  rw [Bool.eq_iff_iff, Bool.or_eq_true]
  simp only [contains, occurs_iff]
  exact infix_append_cons_iff hc

theorem contains_infix_eq_false {w : String} (h : a <:+: b) (hb : contains w b = false) : contains w a = false := by
  rw [← Bool.not_eq_true] at hb ⊢
  exact fun ha => hb (occurs_iff.mpr ((occurs_iff.mp ha).trans h))

theorem lineWhere_cons {p : List Char → Bool} {l : List Char} (h : p l = false) (ls : List (List Char)) :
    lineWhere p (l :: ls) = (lineWhere p ls).map (· + 1) := by
  simp [lineWhere, List.findIdx?_cons, h, Function.comp_def]

end Text

open Text

/-! ### Comments in which nothing is looked for -/

namespace Detect

/-- The texts that checks look for in comments as well. -/
def watchwords : List String :=
  [Launch.placeholderKey, Launch.placeholderPackage, "sk-", "eval(", "exec(", "shell", ".close()", "asyncio.",
   runMain, "maxlen", "del self.history", "history.append("]

/-- A comment, without the newline after it, in which no check finds anything. -/
structure QuietComment (k : List Char) : Prop where
  sharp : k.head? = some '#'
  newline : '\n' ∉ k
  words : ∀ w ∈ watchwords, contains w k = false
  secrets : ∀ w ∈ Pattern.secretWords, contains w (k.map Pattern.foldCase) = false

instance (k : List Char) : Decidable (QuietComment k) :=
  decidable_of_iff (k.head? = some '#' ∧ '\n' ∉ k ∧ (∀ w ∈ watchwords, contains w k = false) ∧
      ∀ w ∈ Pattern.secretWords, contains w (k.map Pattern.foldCase) = false)
    ⟨fun h => ⟨h.1, h.2.1, h.2.2.1, h.2.2.2⟩, fun h => ⟨h.1, h.2, h.3, h.4⟩⟩

end Detect

/-! ### Patterns -/

namespace Pattern

/-- The pattern does not tell the start of a line from that of the text, and a match takes something. -/
structure LineBound (m : Matcher) : Prop where
  newline : ∀ cs, m (some '\n') cs = m none cs
  pos : ∀ prev cs n, m prev cs = some n → 0 < n

/-- No match starts in the line or with the newline after it. -/
def Passes (m : Matcher) (l : List Char) : Prop := ∀ a b rest, l = a ++ b → m a.getLast? (b ++ '\n' :: rest) = none

section Find

variable {m : Matcher} {l : List Char}

/-- The search goes through the rest of such a line without a match. -/
theorem Passes.findEnd?_append (h : Passes m l) {a b : List Char} (hl : l = a ++ b) (pos : Nat) (rest : List Char) :
    findEnd? m a.getLast? pos (b ++ '\n' :: rest) = findEnd? m (some '\n') (pos + b.length + 1) rest := by
  induction b generalizing a pos with
  | nil =>
    -- only the newline is left, and it does not match either
    have hnone := h a [] rest hl
    rw [List.nil_append] at hnone ⊢
    simp only [findEnd?, hnone]
    rfl
  | cons c b ih =>
    -- the search takes one character and has another one before it
    have hnone := h a (c :: b) rest hl
    have hnext := ih (a := a ++ [c]) (by simpa using hl) (pos + 1)
    rw [List.getLast?_concat] at hnext
    rw [List.cons_append] at hnone ⊢
    simp only [findEnd?, hnone]
    rw [hnext, List.length_cons]
    congr 1
    omega

/-- Where the search starts to count is where its answer does. -/
theorem LineBound.findEnd?_add (h : LineBound m) (k pos : Nat) (prev : Option Char) (cs : List Char) :
    findEnd? m prev (pos + k) cs = (findEnd? m prev pos cs).map (· + k) := by
  induction cs generalizing prev pos with
  | nil => rfl
  | cons c cs ih =>
    simp only [findEnd?]
    cases hm : m prev (c :: cs) with
    | none =>
      rw [Nat.add_right_comm]
      exact ih (pos + 1) (some c)
    | some n =>
      -- a match takes something, so its last position is not before its start
      have hpos := h.pos _ _ _ hm
      show some (pos + k + n - 1) = some (pos + n - 1 + k)
      congr 1
      omega

/-- After a newline the search goes on as if the text began there. -/
theorem LineBound.findEnd?_newline (h : LineBound m) (pos : Nat) (cs : List Char) :
    findEnd? m (some '\n') pos cs = findEnd? m none pos cs := by
  cases cs with
  | nil => rfl
  | cons c cs => rw [findEnd?, findEnd?, h.newline]

/-- A position behind the first line is one line further down than in the text behind it. -/
theorem lineOf_append (hl : '\n' ∉ l) (code : List Char) (pos : Nat) :
    lineOf (l ++ '\n' :: code) (pos + (l.length + 1)) = lineOf code pos + 1 := by
  have htake : (l ++ '\n' :: code).take (pos + (l.length + 1)) = l ++ '\n' :: code.take pos := by
    rw [List.take_append, List.take_of_length_le (by omega)]
    have hsub : pos + (l.length + 1) - l.length = pos + 1 := by omega
    rw [hsub, List.take_succ_cons]
  rw [lineOf, lineOf, htake, List.count_append, List.count_eq_zero.mpr hl, List.count_cons_self]
  omega

/-- A line that the pattern passes over moves what is found one line down. -/
theorem Passes.find?_append (h : Passes m l) (hm : LineBound m) (hl : '\n' ∉ l) (code : List Char) :
    find? m (l ++ '\n' :: code) = (find? m code).map (· + 1) := by
  have hend : findEnd? m none 0 (l ++ '\n' :: code) = (findEnd? m none 0 code).map (· + (l.length + 1)) := by
    have hpast := h.findEnd?_append (a := []) rfl 0 code
    rw [List.getLast?_nil] at hpast
    rw [hpast, hm.findEnd?_newline, Nat.add_assoc, hm.findEnd?_add]
  rw [find?, find?, hend, Option.map_map, Option.map_map]
  congr 1
  funext pos
  exact lineOf_append hl code pos

end Find

/-! ### The patterns of the rules -/

section Rules

variable {k : List Char}

/-- A text that is not in the line does not start in it. -/
theorem startsWith_append_newline {w : String} (hw : '\n' ∉ w.toList) (hk : contains w k = false) {a b : List Char}
    (hab : k = a ++ b) (rest : List Char) : startsWith w (b ++ '\n' :: rest) = false := by
  rw [← Bool.not_eq_true] at hk ⊢
  intro hstarts
  have hb : w.toList <+: b := prefix_of_prefix_append_cons hw (List.isPrefixOf_iff_prefix.mp hstarts)
  exact hk (occurs_iff.mpr (hb.isInfix.trans (hab ▸ (List.suffix_append a b).isInfix)))

theorem lineBound_literal {w : String} (hw : 0 < w.length) : LineBound (literal w) := by
  refine ⟨fun _ => rfl, fun prev cs n h => ?_⟩
  simp only [literal, Option.ite_none_right_eq_some, Option.some.injEq] at h
  omega

/-- A text that is not in the line is not matched in it. -/
theorem passes_literal {w : String} (hw : '\n' ∉ w.toList) (hk : contains w k = false) : Passes (literal w) k := by
  intro a b rest hab
  rw [literal, startsWith_append_newline hw hk hab]
  rfl

theorem lineBound_indented (w : String) : LineBound (indented w) := by
  refine ⟨fun _ => rfl, fun prev cs n h => ?_⟩
  simp only [indented, Option.ite_none_right_eq_some, Option.some.injEq, Bool.and_eq_true] at h
  obtain ⟨⟨⟨-, hblanks⟩, -⟩, rfl⟩ := h
  have hsome : 0 < (cs.takeWhile isBlank).length := List.length_pos_iff.mpr (by simpa using hblanks)
  omega

/-- A comment is not indented, and inside of it no line starts. -/
theorem passes_indented {w : String} (hsharp : k.head? = some '#') (hk : '\n' ∉ k) : Passes (indented w) k := by
  intro a b rest hab
  -- the match would start with the comment or inside of it
  rcases List.eq_nil_or_concat a with rfl | ⟨a, c, rfl⟩
  · obtain rfl : k = b := hab
    obtain ⟨t, rfl⟩ : ∃ t, k = '#' :: t := by
      cases k with
      | nil => cases hsharp
      | cons d t => exact ⟨t, by rw [Option.some.inj hsharp]⟩
    rfl
  · have hc : c ≠ '\n' := by
      rintro rfl
      exact hk (by simp [hab])
    simp [indented, hc]

/-- After a newline a word starts, as at the start of the text. -/
theorem atWordStart_newline : atWordStart (some '\n') = atWordStart none := by decide

theorem lineBound_keyAfter {w : String} (hw : 0 < w.length) (least : Nat) : LineBound (keyAfter w least) := by
  refine ⟨fun cs => by rw [keyAfter, keyAfter, atWordStart_newline], fun prev cs n h => ?_⟩
  simp only [keyAfter, Option.ite_none_right_eq_some, Option.some.injEq] at h
  omega

theorem passes_keyAfter {w : String} (hw : '\n' ∉ w.toList) (hk : contains w k = false) (least : Nat) :
    Passes (keyAfter w least) k := by
  intro a b rest hab
  rw [keyAfter, startsWith_append_newline hw hk hab, Bool.and_false]
  rfl

theorem lineBound_bare {ws : List String} (hws : ∀ w ∈ ws, 0 < w.length) : LineBound (bare ws) := by
  refine ⟨fun cs => by rw [bare, bare, atWordStart_newline]; rfl, fun prev cs n h => ?_⟩
  simp only [bare, Option.ite_none_right_eq_some, Option.map_eq_some_iff] at h
  obtain ⟨-, w, hw, rfl⟩ := h
  exact hws w (List.mem_of_find?_eq_some hw)

theorem passes_bare {ws : List String} (hws : ∀ w ∈ ws, '\n' ∉ w.toList ∧ contains w k = false) :
    Passes (bare ws) k := by
  intro a b rest hab
  have hnone : (ws.find? fun w => startsWith w (b ++ '\n' :: rest)) = none := by
    rw [List.find?_eq_none]
    intro w hw
    simp [startsWith_append_newline (hws w hw).1 (hws w hw).2 hab]
  rw [bare, hnone]
  exact ite_self _

/-- What stands before the first of the words plays no part. -/
theorem lineBound_spaced {w : String} (hw : 0 < w.length) (v : String) (ws : List String) :
    LineBound (spaced (w :: v :: ws)) := by
  -- the character before the words is handed on and never looked at
  have hprev : ∀ (ws : List String) (prev prev' : Option Char) (cs : List Char),
      spaced ws prev cs = spaced ws prev' cs := by
    intro ws prev prev'
    induction ws with
    | nil => exact fun _ => rfl
    | cons w ws ih =>
      intro cs
      cases ws with
      | nil => rfl
      | cons v ws => simp only [spaced, ih]
  refine ⟨fun cs => hprev _ _ _ cs, fun prev cs n h => ?_⟩
  simp only [spaced, Option.ite_none_right_eq_some, Option.map_eq_some_iff] at h
  obtain ⟨-, j, -, rfl⟩ := h
  omega

theorem passes_spaced {w : String} (hw : '\n' ∉ w.toList) (hk : contains w k = false) (v : String) (ws : List String) :
    Passes (spaced (w :: v :: ws)) k := by
  intro a b rest hab
  show (if startsWith w (b ++ '\n' :: rest) then _ else none) = none
  rw [startsWith_append_newline hw hk hab]
  rfl

theorem lineBound_secretAssigned (least : Nat) : LineBound (secretAssigned least) := by
  refine ⟨fun cs => by rw [secretAssigned, secretAssigned, atWordStart_newline], fun prev cs n h => ?_⟩
  simp only [secretAssigned, Option.ite_none_right_eq_some] at h
  obtain ⟨-, h⟩ := h
  split at h
  · obtain ⟨j, -, rfl⟩ := Option.map_eq_some_iff.mp h
    omega
  · cases h

/-- The word before an assignment does not go on over the end of a line. -/
theorem passes_secretAssigned (hk : ∀ w ∈ secretWords, contains w (k.map foldCase) = false) (least : Nat) :
    Passes (secretAssigned least) k := by
  intro a b rest hab
  have hword : (b ++ '\n' :: rest).takeWhile isWordChar = b.takeWhile isWordChar :=
    takeWhile_append_of_nil (List.takeWhile_cons_of_neg (by decide)) b
  have hnone : namesSecret (b.takeWhile isWordChar) = false := by
    rw [namesSecret, List.any_eq_false]
    intro w hw hin
    have hpart : (b.takeWhile isWordChar) <:+: k :=
      ((List.takeWhile_prefix _).isInfix).trans (hab ▸ (List.suffix_append a b).isInfix)
    have hout := occurs_iff.mpr ((occurs_iff.mp hin).trans (hpart.map foldCase))
    rw [show occurs w.toList (k.map foldCase) = false from hk w hw] at hout
    cases hout
  simp only [secretAssigned, hword, hnone, Bool.and_false]
  rfl

end Rules

end Pattern

namespace Detect

variable {k : List Char}

/-- The pattern of every rule looks at one line at a time. -/
theorem lineBound_of_mem_rules : ∀ r ∈ rules, Pattern.LineBound r.pattern := by
  simp only [rules, List.forall_mem_cons]
  refine ⟨Pattern.lineBound_literal (by decide), Pattern.lineBound_literal (by decide), Pattern.lineBound_indented _,
    Pattern.lineBound_secretAssigned 16, Pattern.lineBound_keyAfter (by decide) 20, Pattern.lineBound_bare (by decide),
    Pattern.lineBound_spaced (by decide) "=" ["True"], ?_⟩
  simp

/-- No rule matches in a quiet comment. -/
theorem QuietComment.passes (hk : QuietComment k) : ∀ r ∈ rules, Pattern.Passes r.pattern k := by
  have hwords := hk.words
  simp only [watchwords, List.forall_mem_cons] at hwords
  obtain ⟨hkey, hpackage, hsk, heval, hexec, hshell, -⟩ := hwords
  simp only [rules, List.forall_mem_cons]
  refine ⟨Pattern.passes_literal (by decide) hkey, Pattern.passes_literal (by decide) hpackage,
    Pattern.passes_indented hk.sharp hk.newline, Pattern.passes_secretAssigned hk.secrets 16,
    Pattern.passes_keyAfter (by decide) hsk 20, Pattern.passes_bare ?_,
    Pattern.passes_spaced (by decide) hshell "=" ["True"], ?_⟩
  · simp only [List.forall_mem_cons]
    exact ⟨⟨by decide, heval⟩, ⟨by decide, hexec⟩, by simp⟩
  · simp

/-- A quiet comment adds none of the texts that are looked for. -/
theorem QuietComment.contains_append (hk : QuietComment k) {w : String} (hw : w ∈ watchwords) (code : List Char) :
    contains w (k ++ '\n' :: code) = contains w code := by
  have hnewline : ∀ w ∈ watchwords, '\n' ∉ w.toList := by decide
  rw [contains_append_cons (hnewline w hw), hk.words w hw, Bool.false_or]

theorem QuietComment.exists_cons (hk : QuietComment k) : ∃ t, k = '#' :: t := by
  cases k with
  | nil => cases hk.sharp
  | cons c t => exact ⟨t, by rw [Option.some.inj hk.sharp]⟩

end Detect

/-! ### Findings one line further down -/

namespace Bracket.Problem

/-- The message says on which line the bracket was opened. -/
def namesLine : Problem → Bool
  | .mismatch _ _ => true
  | .unmatched _ => false
  | .unclosed _ => true

/-- Different numbers are written differently. -/
theorem toString_eq_iff {j k : Nat} : toString j = toString k ↔ j = k := by
  refine ⟨fun h => ?_, fun h => by rw [h]⟩
  have hvalues := congrArg (fun s : String => Nat.ofDigitChars 10 s.toList 0) h
  simpa [Nat.toString_eq_ofList_toDigits] using hvalues

/-- Moving a problem changes its message only if the message says where the bracket was opened. -/
theorem message_down_iff (k : Nat) (p : Problem) : (p.down k).message = p.message ↔ (p.namesLine = true → k = 0) := by
  cases p with
  | mismatch opener closer =>
    dsimp only [down, message, Bracket.down]
    rw [String.append_left_inj, String.append_left_inj, String.append_left_inj, String.append_right_inj,
      toString_eq_iff, Nat.add_eq_left]
    exact ⟨fun h _ => h, fun h => h rfl⟩
  | unmatched closer =>
    dsimp only [down, message, Bracket.down, namesLine]
    exact iff_of_true rfl fun h => absurd h Bool.false_ne_true
  | unclosed opener =>
    dsimp only [down, message, Bracket.down]
    rw [String.append_left_inj, String.append_right_inj, toString_eq_iff, Nat.add_eq_left]
    exact ⟨fun h _ => h, fun h => h rfl⟩

end Bracket.Problem

open AgentFlow.Bracket (Problem problem?)

/-- A comment line moves the bracket problem of the code one line down. -/
theorem Bracket.problem?_comment {t : List Char} (ht : '\n' ∉ t) (code : List Char) :
    problem? ('#' :: t ++ '\n' :: code) = (problem? code).map (Problem.down 1) := by
  -- the comment ends with its newline, one line further down
  have hcomment : scan 1 .comment (t ++ '\n' :: code) = scan (1 + 1) .code code := by
    rw [scan_comment ht (.inr rfl), scan_cons]
    rfl
  have hscan : scan 1 .code ('#' :: t ++ '\n' :: code) = (scan 1 .code code).map (down 1) := by
    rw [List.cons_append, scan_cons, ← scan_add, ← hcomment]
    rfl
  rw [problem?, hscan]
  exact nest_down 1 [] _

/-- What a finding about a piece of code with the bracket problem `p` becomes when the code moves one line down. -/
def Finding.moved (p : Option Problem) (f : Finding) : Finding :=
  { f with
    line := f.line.map (· + 1)
    message := if f.id = "unbalanced-brackets" then (p.map fun q => (q.down 1).message).getD f.message else f.message }

/-- Apart from unbalanced brackets, only the line of a finding moves. -/
theorem Finding.moved_eq {f : Finding} (p : Option Problem) (h : f.id ≠ "unbalanced-brackets") :
    f.moved p = { f with line := f.line.map (· + 1) } := by
  rw [moved, if_neg h]

/-! ### Comment lines -/

section Comment

variable {t : List Char} {ls : List (List Char)}

theorem Text.trimStart_sharp (t : List Char) : trimStart ('#' :: t) = '#' :: t := rfl

/-- A comment uses no name. -/
theorem Symbol.usedAt_sharp (name : String) : usedAt name (('#' :: t) :: ls) = (usedAt name ls).map (· + 1) :=
  lineWhere_cons rfl ls

/-- A comment brings no name in. -/
theorem Symbol.imported_sharp (name : String) : imported name (('#' :: t) :: ls) = imported name ls := by
  have hclass : startsWith ("class " ++ name) ('#' :: t) = false := by
    rw [startsWith, String.toList_append]
    rfl
  have hdef : startsWith ("def " ++ name ++ "(") ('#' :: t) = false := by
    rw [startsWith, String.toList_append, String.toList_append]
    rfl
  have hno : bringsIn name ('#' :: t) = false := by
    simp only [bringsIn, trimStart_sharp, hclass, hdef, Bool.or_false]
    rfl
  rw [imported, List.any_cons, hno, Bool.false_or]
  rfl

end Comment

namespace Detect

variable {k : List Char}

/-- The comment is the first line of the text, up to a carriage return at its end. -/
theorem QuietComment.exists_lines (hk : QuietComment k) (code : List Char) :
    ∃ t, lines (k ++ '\n' :: code) = ('#' :: t) :: lines code ∧ '#' :: t <+: k := by
  obtain ⟨l, hl, hcut⟩ := exists_lines_concat hk.newline
  obtain ⟨t, ht⟩ := hk.exists_cons
  rw [lines_append_newline, hl]
  cases l with
  | nil =>
    -- the line would be blank, but it starts with the number sign
    obtain ⟨blanks, hblanks, hk'⟩ := hcut
    rw [List.nil_append] at hk'
    have hsharp : isBlank '#' = true := hblanks '#' (by rw [← hk', ht]; exact List.mem_cons_self)
    exact absurd hsharp (by decide)
  | cons c l =>
    obtain rfl : c = '#' := (List.cons_prefix_cons.mp (ht ▸ hcut.isPrefix)).1
    exact ⟨l, rfl, hcut.isPrefix⟩

section Moved

variable (p : Option Problem)

theorem at?_moved {f : Finding} (hf : f.id ≠ "unbalanced-brackets") (line : Option Nat) :
    at? (line.map (· + 1)) f = (at? line f).map (Finding.moved p) := by
  cases line with
  | none => rfl
  | some n =>
    show [_] = [_]
    rw [Finding.moved_eq p (by exact hf)]
    rfl

/-- Counting from one line further down moves every finding. -/
theorem missingColons_moved (n : Nat) (ls : List (List Char)) :
    missingColons (n + 1) ls = (missingColons n ls).map (Finding.moved p) := by
  induction ls generalizing n with
  | nil => rfl
  | cons l ls ih =>
    rw [missingColons, missingColons, ih, List.map_append]
    cases Pattern.missingColon? l with
    | none => rfl
    | some name =>
      rw [List.map_singleton, Finding.moved_eq p (by simp)]
      rfl

/-- A comment before the lines moves what is reported about imports. -/
theorem missingImports_moved (c : Category) (t : List Char) (ls : List (List Char)) :
    Symbol.missingImports c (('#' :: t) :: ls) = (Symbol.missingImports c ls).map (Finding.moved p) := by
  rw [Symbol.missingImports, Symbol.missingImports, List.map_filterMap]
  congr 1
  funext s
  rw [Symbol.usedAt_sharp, Symbol.imported_sharp]
  cases Symbol.usedAt s.name ls with
  | none => rfl
  | some n =>
    cases Symbol.imported s.name ls with
    | true => rfl
    | false =>
      show some _ = some _
      rw [Finding.moved_eq p (by simp)]
      rfl

/-- A quiet comment moves what the rules find. -/
theorem QuietComment.ruleFindings_moved (hk : QuietComment k) (c : Category) (code : List Char) :
    ruleFindings c (k ++ '\n' :: code) = (ruleFindings c code).map (Finding.moved p) := by
  have hids : ∀ r ∈ rules, r.id ≠ "unbalanced-brackets" := by decide
  rw [ruleFindings, ruleFindings, List.map_filterMap]
  refine List.filterMap_congr fun r hr => ?_
  have hmem : r ∈ rules := (List.mem_filter.mp hr).1
  rw [Rule.finding?, Rule.finding?, (hk.passes r hmem).find?_append (lineBound_of_mem_rules r hmem) hk.newline]
  cases Pattern.find? r.pattern code with
  | none => rfl
  | some n =>
    show some _ = some _
    rw [Finding.moved_eq p (hids r hmem)]
    rfl

variable {code : String}

/-- The text is that of `code` below the comment. -/
def below (k : List Char) (code : String) : String := String.ofList (k ++ '\n' :: code.toList)

theorem toList_below (k : List Char) (code : String) : (below k code).toList = k ++ '\n' :: code.toList :=
  String.toList_ofList

theorem QuietComment.protocol_moved (hk : QuietComment k) :
    protocol (below k code) = (protocol code).map (Finding.moved p) := by
  obtain ⟨t, hlines, -⟩ := hk.exists_lines code.toList
  have hclose := hk.contains_append (w := ".close()") (by decide) code.toList
  simp only [protocol, toList_below, hlines, List.map_append, hk.ruleFindings_moved p, missingImports_moved p, hclose,
    Symbol.usedAt_sharp]
  congr 1
  split_ifs
  · rfl
  · exact at?_moved p (by simp) _

theorem QuietComment.events_moved (hk : QuietComment k) :
    events (below k code) = (events code).map (Finding.moved p) := by
  obtain ⟨t, hlines, hstart⟩ := hk.exists_lines code.toList
  have hrun := hk.contains_append (w := runMain) (by decide) code.toList
  have hline : contains "asyncio." ('#' :: t) = false := contains_infix_eq_false hstart.isInfix (hk.words _ (by decide))
  simp only [events, toList_below, hlines, List.map_append, hk.ruleFindings_moved p, hrun, Symbol.imported_sharp]
  -- the rules, the main function, the event loop and the awaits, one after the other
  congr 1
  · congr 1
    · congr 1
      split_ifs
      · rfl
      · rw [lineWhere_cons (p := startsWith "async def main(") rfl]
        exact at?_moved p (by simp) _
    · split_ifs
      · rfl
      · rw [lineWhere_cons hline]
        exact at?_moved p (by simp) _
  · rw [lineWhere_cons (p := awaits) rfl]
    exact at?_moved p (by simp) _

theorem QuietComment.memory_moved (hk : QuietComment k) :
    memory (below k code) = (memory code).map (Finding.moved p) := by
  obtain ⟨t, hlines, hstart⟩ := hk.exists_lines code.toList
  have hmaxlen := hk.contains_append (w := "maxlen") (by decide) code.toList
  have hdel := hk.contains_append (w := "del self.history") (by decide) code.toList
  have hline : contains "history.append(" ('#' :: t) = false :=
    contains_infix_eq_false hstart.isInfix (hk.words _ (by decide))
  have hsessions : usesSessions ('#' :: t) = false := by
    rw [usesSessions, trimStart_sharp]
    exact Bool.and_false _
  have hcreated : startsWith "session_service =" (trimStart ('#' :: t)) = false := rfl
  simp only [memory, toList_below, hlines, List.map_append, missingImports_moved p, hmaxlen, hdel, List.any_cons,
    hcreated, Bool.false_or]
  -- the imports, the sessions and the history, one after the other
  congr 1
  · congr 1
    split_ifs
    · rfl
    · rw [lineWhere_cons hsessions]
      exact at?_moved p (by simp) _
  · split_ifs
    · rfl
    · rw [lineWhere_cons hline]
      exact at?_moved p (by simp) _

/-- A quiet comment moves what the detector of form finds, and the line that a message about a bracket names. -/
theorem QuietComment.form_moved (hk : QuietComment k) (hcode : code.toList.all isBlank = false) :
    form (below k code) = (form code).map (Finding.moved (problem? code.toList)) := by
  obtain ⟨t, hlines, -⟩ := hk.exists_lines code.toList
  obtain ⟨u, rfl⟩ := hk.exists_cons
  have hu : '\n' ∉ u := fun h => hk.newline (List.mem_cons_of_mem _ h)
  have hblank : ('#' :: u ++ '\n' :: code.toList).all isBlank = false := rfl
  have hcolons : missingColons 1 (('#' :: t) :: lines code.toList) = missingColons (1 + 1) (lines code.toList) := rfl
  simp only [form, toList_below, hlines, hblank, hcode, Bool.false_eq_true, if_false, List.map_append,
    missingImports_moved (problem? code.toList), hcolons, missingColons_moved (problem? code.toList),
    Bracket.problem?_comment hu]
  -- the fence, the headers, the tabs, the brackets and the imports, one after the other
  congr 1
  congr 1
  · congr 1
    · congr 1
      rw [lineWhere_cons (p := fun l => startsWith Source.fence (trimStart l)) rfl]
      exact at?_moved _ (by simp) _
    · rw [lineWhere_cons (p := startsWith "\t") rfl]
      exact at?_moved _ (by simp) _
  · cases problem? code.toList with
    | none => rfl
    | some q =>
      cases q <;> rfl

end Moved

variable {s : Selection} {code : String} {f g : Finding}

/-- Below a quiet comment, every check finds what it found before, one line further down. -/
theorem QuietComment.detectAll_moved (hk : QuietComment k) (s : Selection) (hcode : code.toList.all isBlank = false) :
    detectAll s (below k code) = (detectAll s code).map (Finding.moved (problem? code.toList)) := by
  rw [detectAll, detectAll, List.map_flatMap]
  congr 1
  funext c
  cases c with
  | form => exact hk.form_moved hcode
  | protocol => exact hk.protocol_moved _
  | events => exact hk.events_moved _
  | memory => exact hk.memory_moved _
  | security =>
    rw [run, security, toList_below]
    exact hk.ruleFindings_moved _ .security code.toList
  | other => rfl

/-! ### Bracket problems among the findings -/

/-- Of what the detector of form finds, only a bracket problem has this id. -/
theorem problem_of_mem_form (hf : f ∈ form code) (hid : f.id = "unbalanced-brackets") :
    ∃ q, problem? code.toList = some q ∧ f.message = q.message := by
  have hother : ∀ id : String, id ≠ "unbalanced-brackets" → f.id ≠ id := fun id hne h => hne (h ▸ hid)
  simp only [form] at hf
  split at hf
  · exact absurd (by rw [List.mem_singleton.mp hf]) (hother "empty-source" (by decide))
  · simp only [List.mem_append] at hf
    rcases hf with (((hf | hf) | hf) | hf) | hf
    · exact absurd (id_of_mem_at? hf) (hother "markdown-fence" (by decide))
    · obtain ⟨-, htraits, -⟩ := exists_of_mem_missingColons hf
      exact absurd (congrArg Prod.fst htraits) (hother "missing-colon" (by decide))
    · exact absurd (id_of_mem_at? hf) (hother "tab-indentation" (by decide))
    · split at hf
      next => cases hf
      next q hq => exact ⟨q, hq, by rw [List.mem_singleton.mp hf]⟩
    · exact absurd (id_of_mem_missingImports hf) (hother "missing-import" (by decide))

/-- No other detector reports unbalanced brackets. -/
theorem Grounds.eq_form_of_brackets {c : Category} {t : String × Severity × Bool} (h : Grounds code c t)
    (ht : t.1 = "unbalanced-brackets") : c = .form := by
  cases h with
  | rule hr =>
    have hids : ∀ r ∈ rules, r.id ≠ "unbalanced-brackets" := by decide
    exact absurd ht (hids _ hr)
  | brackets => rfl
  | _ => exact absurd ht (by simp)

/-- A finding about brackets tells the bracket problem of the code. -/
theorem problem_of_mem (hf : f ∈ detectAll s code) (hid : f.id = "unbalanced-brackets") :
    s.form = true ∧ ∃ q, problem? code.toList = some q ∧ f.message = q.message := by
  obtain ⟨c, hc, hrun⟩ := List.mem_flatMap.mp hf
  have henabled : s.enabled c = true := (List.mem_filter.mp hc).2
  have hform : c = .form := by
    cases c with
    | form => rfl
    | protocol => exact (grounded_of_mem_protocol hrun).grounds.eq_form_of_brackets hid
    | events => exact (grounded_of_mem_events hrun).grounds.eq_form_of_brackets hid
    | memory => exact (grounded_of_mem_memory hrun).grounds.eq_form_of_brackets hid
    | security => exact (grounded_of_mem_ruleFindings hrun).grounds.eq_form_of_brackets hid
    | other => cases hrun
  subst hform
  exact ⟨henabled, problem_of_mem_form hrun hid⟩

/-- If form is checked, a bracket problem is among the findings. -/
theorem exists_mem_of_problem (hs : s.form = true) (hcode : code.toList.all isBlank = false) {q : Problem}
    (hq : problem? code.toList = some q) :
    ∃ f ∈ detectAll s code, f.id = "unbalanced-brackets" ∧ f.severity = .error := by
  have hmem : Category.form ∈ s.detectors := List.mem_filter.mpr ⟨by decide, hs⟩
  refine ⟨{ id := "unbalanced-brackets", category := .form, severity := .error, message := q.message,
            line := some q.line, fixable := true }, List.mem_flatMap.mpr ⟨.form, hmem, ?_⟩, rfl, rfl⟩
  simp only [run, form, hcode, hq, Bool.false_eq_true, if_false, List.mem_append]
  exact .inl (.inr (List.mem_singleton_self _))

/-- The checks report a bracket problem with the line on which a bracket was opened. -/
def ReportsLine (s : Selection) (code : String) : Prop :=
  s.form = true ∧ ∃ q, problem? code.toList = some q ∧ q.namesLine = true

/-- Only a report of a line changes when the code moves. -/
theorem signature_moved (hno : ¬ ReportsLine s code) (hf : f ∈ detectAll s code) :
    (f.moved (problem? code.toList)).signature = f.signature := by
  by_cases hid : f.id = "unbalanced-brackets"
  · obtain ⟨hs, q, hq, hmessage⟩ := problem_of_mem hf hid
    have hsame : (q.down 1).message = q.message :=
      (q.message_down_iff 1).mpr fun hline => absurd ⟨hs, q, hq, hline⟩ hno
    rw [Finding.moved, if_pos hid, hq]
    exact Prod.ext rfl (hsame.trans hmessage.symm)
  · rw [Finding.moved_eq _ hid]
    rfl

/-- A report of a line becomes one that was not there before. -/
theorem signature_moved_ne (hline : ReportsLine s code) (hg : g ∈ detectAll s code)
    (hid : f.id = "unbalanced-brackets") : (f.moved (problem? code.toList)).signature ≠ g.signature := by
  intro heq
  obtain ⟨-, q, hq, hnames⟩ := hline
  have hgid : g.id = "unbalanced-brackets" := (Finding.id_eq heq).symm.trans hid
  obtain ⟨-, q', hq', hmessage⟩ := problem_of_mem hg hgid
  obtain rfl : q = q' := Option.some.inj (hq.symm.trans hq')
  have hsame : (q.down 1).message = q.message := by
    have hmoved := congrArg Prod.snd heq
    rw [Finding.moved, if_pos hid, hq] at hmoved
    exact Eq.trans hmoved hmessage
  exact absurd ((q.message_down_iff 1).mp hsame hnames) (by decide)

end Detect

/-- No error is new exactly if each error was there before. -/
theorem introducedErrors_eq_zero_iff {before after : List Finding} :
    introducedErrors before after = 0 ↔ ∀ f ∈ after, f.severity = .error → f.among before = true := by
  simp [introducedErrors]

open Detect

/-- Below a quiet comment the checks find what they found before, one line further down. Problems stay the same, none
looks resolved and no error looks introduced, exactly if the checks do not report the line of a bracket. -/
theorem Detect.signatures_below_iff {k : List Char} (hk : QuietComment k) (s : Selection) {code : String}
    (hcode : code.toList.all isBlank = false) :
    detectAll s (below k code) = (detectAll s code).map (Finding.moved (problem? code.toList)) ∧
    ((detectAll s (below k code)).map Finding.signature = (detectAll s code).map Finding.signature ↔
      ¬ ReportsLine s code) ∧
    ((∀ f ∈ detectAll s code, f.among (detectAll s (below k code)) = true) ↔ ¬ ReportsLine s code) ∧
    (introducedErrors (detectAll s code) (detectAll s (below k code)) = 0 ↔ ¬ ReportsLine s code) := by
  have hmoved := hk.detectAll_moved s hcode
  have hexists : ReportsLine s code → ∃ f ∈ detectAll s code, f.id = "unbalanced-brackets" ∧ f.severity = .error := by
    rintro ⟨hs, q, hq, -⟩
    exact exists_mem_of_problem hs hcode hq
  -- a report of a line breaks each of the three, and without one nothing but lines changes
  refine ⟨hmoved, ⟨fun h hline => ?_, fun hno => ?_⟩, ⟨fun h hline => ?_, fun hno f hf => ?_⟩,
    ⟨fun h hline => ?_, fun hno => ?_⟩⟩
  · obtain ⟨f, hf, hid, -⟩ := hexists hline
    rw [hmoved, List.map_map, List.map_inj_left] at h
    exact signature_moved_ne hline hf hid (h f hf)
  · rw [hmoved, List.map_map]
    exact List.map_congr_left fun f hf => signature_moved hno hf
  · obtain ⟨f, hf, hid, -⟩ := hexists hline
    obtain ⟨g', hg', hsame⟩ := Finding.among_iff.mp (h f hf)
    rw [hmoved] at hg'
    obtain ⟨g, hg, rfl⟩ := List.mem_map.mp hg'
    have hgid : g.id = "unbalanced-brackets" := (Finding.id_eq hsame).trans hid
    exact signature_moved_ne hline hf hgid hsame
  · rw [hmoved]
    exact Finding.among_iff.mpr ⟨_, List.mem_map_of_mem hf, signature_moved hno hf⟩
  · obtain ⟨f, hf, hid, hsev⟩ := hexists hline
    rw [hmoved, introducedErrors_eq_zero_iff] at h
    obtain ⟨g, hg, hsame⟩ := Finding.among_iff.mp (h _ (List.mem_map_of_mem hf) hsev)
    exact signature_moved_ne hline hg hid hsame.symm
  · rw [hmoved, introducedErrors_eq_zero_iff]
    intro f' hf' _
    obtain ⟨f, hf, rfl⟩ := List.mem_map.mp hf'
    exact Finding.among_iff.mpr ⟨f, hf, (signature_moved hno hf).symm⟩

theorem Detect.signatures_below_iff_unmatched :
    QuietComment "# x".toList ∧ "x = )\n".toList.all isBlank = false ∧ (problem? "x = )\n".toList).isSome = true ∧
    (detectAll {} (below "# x".toList "x = )\n")).map Finding.signature =
      (detectAll {} "x = )\n").map Finding.signature := by
  have hproblem : problem? "x = )\n".toList = some (.unmatched ⟨')', 1⟩) := by cbv
  have hno : ¬ ReportsLine {} "x = )\n" := by
    rintro ⟨-, q, hq, hline⟩
    obtain rfl : Problem.unmatched ⟨')', 1⟩ = q := Option.some.inj (hproblem.symm.trans hq)
    cases hline
  exact ⟨by decide, by decide, by rw [hproblem]; rfl, (signatures_below_iff (by decide) {} (by decide)).2.1.mpr hno⟩

/-- An opening bracket that is never closed becomes another problem when a comment moves it. -/
theorem Detect.unclosed_bracket_renamed :
    (detectAll {} "x = (\n").map Finding.signature =
      [("unbalanced-brackets", "'(' opened on line 1 is never closed")] ∧
    (detectAll {} "# x\nx = (\n").map Finding.signature =
      [("unbalanced-brackets", "'(' opened on line 2 is never closed")] := by
  decide +kernel

end AgentFlow
