import AgentFlow.Proofs.Naming
import AgentFlow.Proofs.Python.Fragment

/-!
# The words of lines of code

A line of code is read character by character. Outside literals, a word stands for a name unless it is a number, an
attribute, the keyword of an argument or the prefix of a literal (`codeWords`). What is quoted is not read, so a line
has the same words whatever text is quoted in it.
-/

namespace AgentFlow.Python

open AgentFlow.Bracket AgentFlow.Bracket.Reader
open Naming (WordLike)

/-- A character of a word, as the tokenizer of Python sees it. -/
def isTokenChar (c : Char) : Bool := c.isAlphanum || c = '_' || 0x80 ≤ c.toNat

/-- Where a reader of code stands. -/
inductive Place where
  /-- In code: after this character and the word that follows it, last character first. -/
  | code (before : Char) (word : List Char)
  | literal
  /-- In a literal, after a backslash. -/
  | escaped
  deriving DecidableEq, Repr

/-- The word that ends here, if it is not a number, an attribute, a keyword of an argument or the prefix of a
literal. -/
def endedWord (before : Char) (word : List Char) (after : Char) : List String :=
  if word.getLast?.all Char.isDigit ∨ before = '.' ∨ after = '=' ∨ after = '"' then [] else [String.ofList word.reverse]

theorem endedWord_subset (before : Char) (word : List Char) (after : Char) :
    endedWord before word after ⊆ [String.ofList word.reverse] := by
  unfold endedWord
  split_ifs <;> simp

namespace Place

/-- The word that one more character ends, and where the reader stands after it. -/
def step : Place → Char → List String × Place
  | .code before word, c =>
    if isTokenChar c then ([], .code before (c :: word))
    else (endedWord before word c, if c = '"' then .literal else .code c [])
  | .literal, c => ([], if c = '\\' then .escaped else if c = '"' then .code '"' [] else .literal)
  | .escaped, _ => ([], .literal)

/-- The words that end in a text, and where the reader stands after it. -/
def scan : Place → List Char → List String × Place
  | p, [] => ([], p)
  | p, c :: cs =>
    let (found, p) := p.step c
    let (later, p) := p.scan cs
    (found ++ later, p)

/-- At the start of a line. -/
def start : Place := .code '\n' []

end Place

/-- The words of a line of code, in order. -/
def codeWords (line : String) : List String := (Place.start.scan (line.toList ++ ['\n'])).1

/-- A word that Python keeps for itself. -/
def isKept (word : String) : Bool := Naming.keywords.contains word || ["False", "None", "True"].contains word

/-- What the loops in an expression assign, given its words. -/
def targets : List String → List String
  | [] => []
  | w :: ws => (if w = "for" then ws.takeWhile (· != "in") else []) ++ targets ws

/-- The names that an expression takes from its surroundings. -/
def freeNames (text : String) : List String :=
  (codeWords text).filter fun w => !isKept w && !(targets (codeWords text)).contains w

/-! ### Reading texts piece by piece -/

namespace Place

variable {p q r : Place} {s t : String} {ws ws' : List String}

theorem scan_cons (p : Place) (c : Char) (cs : List Char) :
    p.scan (c :: cs) = ((p.step c).1 ++ ((p.step c).2.scan cs).1, ((p.step c).2.scan cs).2) := rfl

/-- A text is read in two parts. -/
theorem scan_append (p : Place) (cs ds : List Char) :
    p.scan (cs ++ ds) = ((p.scan cs).1 ++ ((p.scan cs).2.scan ds).1, ((p.scan cs).2.scan ds).2) := by
  induction cs generalizing p with
  | nil => rfl
  | cons c cs ih => rw [List.cons_append, scan_cons, scan_cons, ih, List.append_assoc]

/-- The text leads from one place to another, and these words end in it. -/
def Reads (p : Place) (s : String) (ws : List String) (q : Place) : Prop := p.scan s.toList = (ws, q)

theorem Reads.append (hs : p.Reads s ws q) (ht : q.Reads t ws' r) : p.Reads (s ++ t) (ws ++ ws') r := by
  unfold Reads at hs ht ⊢
  rw [String.toList_append, scan_append, hs, ht]

theorem reads_text {cs : List Char} (h : p.scan cs = (ws, q)) : p.Reads (String.ofList cs) ws q := by
  rwa [Reads, String.toList_ofList]

theorem isTokenChar_of_isNameChar {c : Char} (h : Naming.isNameChar c = true) : isTokenChar c = true := by
  have halnum : c.isAlphanum = (c.isUpper || c.isLower || c.isDigit) := rfl
  simp only [Naming.isNameChar, Bool.or_eq_true, decide_eq_true_eq] at h
  simp only [isTokenChar, halnum, Bool.or_eq_true, decide_eq_true_eq]
  tauto

/-- A word goes on as long as its characters do. -/
theorem scan_word (b : Char) (w : List Char) {cs : List Char} (h : ∀ c ∈ cs, isTokenChar c = true) :
    (code b w).scan cs = ([], code b (cs.reverse ++ w)) := by
  induction cs generalizing w with
  | nil => rfl
  | cons c cs ih =>
    obtain ⟨hc, hcs⟩ := List.forall_mem_cons.mp h
    have hstep : (code b w).step c = ([], code b (c :: w)) := by rw [step, if_pos hc]
    rw [scan_cons, hstep, ih (c :: w) hcs, List.reverse_cons, List.append_assoc]
    rfl

/-- An identifier is one word, which has not ended yet. -/
theorem reads_word (b : Char) (h : WordLike s) : (code b []).Reads s [] (code b s.toList.reverse) := by
  rw [Reads, scan_word b [] fun c hc => isTokenChar_of_isNameChar (h c hc), List.append_nil]

/-! ### Literals -/

theorem scan_literal_cons {c : Char} {cs : List Char} (hback : c ≠ '\\') (hquote : c ≠ '"') :
    literal.scan (c :: cs) = literal.scan cs := by
  have hstep : literal.step c = ([], literal) := by rw [step, if_neg hback, if_neg hquote]
  rw [scan_cons, hstep]
  rfl

theorem scan_literal_of_isPlain {cs : List Char} (h : ∀ c ∈ cs, isPlain c = true) :
    literal.scan cs = ([], literal) := by
  induction cs with
  | nil => rfl
  | cons c cs ih =>
    obtain ⟨hc, hcs⟩ := List.forall_mem_cons.mp h
    obtain ⟨hback, -, -, hquote, -⟩ := isPlain_iff.mp hc
    rw [scan_literal_cons hback hquote, ih hcs]

/-- What stands for a character in a literal stays inside it. -/
theorem scan_escapeChar (c : Char) : literal.scan (escapeChar c) = ([], literal) := by
  unfold escapeChar
  split_ifs with hback hquote
  · rfl
  · rfl
  · rfl
  · rfl
  · rfl
  · have hlead : ∀ digits, literal.scan ('\\' :: 'u' :: digits) = literal.scan digits := fun _ => rfl
    rw [hlead, scan_literal_of_isPlain (isPlain_hexFour _)]
  · exact scan_literal_cons hback hquote

theorem scan_escaped (cs : List Char) : literal.scan (cs.flatMap escapeChar) = ([], literal) := by
  induction cs with
  | nil => rfl
  | cons c cs ih => rw [List.flatMap_cons, scan_append, scan_escapeChar, ih]; rfl

/-- A literal has no words, whatever it says. -/
theorem reads_quote (b : Char) (s : String) : (code b []).Reads (quote s) [] (code '"' []) := by
  have hopen : (code b []).step '"' = ([], literal) := rfl
  rw [Reads, quote, String.toList_ofList, List.cons_append, scan_cons, hopen, scan_append, scan_escaped]
  rfl

/-- Nor do literals with commas between them have any. -/
theorem reads_quotes (b : Char) (ss : List String) :
    ∃ c, (code b []).Reads (", ".intercalate (ss.map quote)) [] (code c []) := by
  induction ss generalizing b with
  | nil => exact ⟨b, rfl⟩
  | cons s ss ih =>
    cases ss with
    | nil => exact ⟨_, reads_quote b s⟩
    | cons t ss =>
      have hcomma : (code '"' []).Reads ", " [] (code ' ' []) := reads_text (by decide)
      obtain ⟨c, hrest⟩ := ih ' '
      rw [List.map_cons, List.map_cons, String.intercalate_cons_cons]
      exact ⟨c, ((reads_quote b s).append hcomma).append hrest⟩

/-- The end of the line ends the last word. -/
theorem Reads.codeWords_eq {b : Char} {w : List Char} (h : start.Reads s ws (code b w)) :
    codeWords s = ws ++ endedWord b w '\n' := by
  have hend : (code b w).scan ['\n'] = (endedWord b w '\n', code '\n' []) := by
    rw [scan_cons, step, if_neg (by decide)]
    exact congrArg (·, code '\n' []) (List.append_nil _)
  rw [codeWords, scan_append, h, hend]

/-- What stands before a word matters only if it is a dot. -/
theorem scan_of_ne_dot {b b' : Char} (hb : b ≠ '.') (hb' : b' ≠ '.') (w cs : List Char) :
    ((code b w).scan cs).1 = ((code b' w).scan cs).1 := by
  induction cs generalizing w with
  | nil => rfl
  | cons c cs ih =>
    by_cases hc : isTokenChar c = true
    · have hstep : ∀ b, (code b w).step c = ([], code b (c :: w)) := fun b => if_pos hc
      rw [scan_cons, scan_cons, hstep, hstep, ih]
    · -- the word ends here, and what comes after does not see what stood before it
      have hended : endedWord b w c = endedWord b' w c := by simp only [endedWord, hb, hb']
      have hstep : ∀ b, (code b w).step c = (endedWord b w c, if c = '"' then literal else code c []) :=
        fun b => if_neg hc
      rw [scan_cons, scan_cons, hstep, hstep, hended]

end Place

/-- Indentation has no words. -/
theorem codeWords_indented (line : String) : codeWords ("    " ++ line) = codeWords line := by
  have hblanks : Place.start.scan [' ', ' ', ' ', ' '] = ([], .code ' ' []) := by decide
  have hindent : ("    " ++ line).toList = [' ', ' ', ' ', ' '] ++ line.toList := String.toList_append
  rw [codeWords, hindent, List.append_assoc, Place.scan_append, hblanks]
  exact Place.scan_of_ne_dot (by decide) (by decide) _ _

end AgentFlow.Python
