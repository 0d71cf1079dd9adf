import AgentFlow.Proofs.Bracket.Scan

/-!
# Reading code one character at a time

`Bracket.scan` looks ahead to tell quotes apart. A `Reader` goes through the same text one character at a time and
remembers what it has seen instead: its state says where it stands, its stack which brackets are still open. Readings
compose along concatenated text and ignore what lies deeper in the stack. A reader is stricter than the scan: besides
brackets that do not nest it refuses a literal in single quotes of either kind that does not end on its line, and a
blank after a backslash, whose meaning depends on what becomes of the blank. Text that a reader gets through with an
empty stack has no bracket problem (`problem?_eq_none`).
-/

namespace AgentFlow.Bracket

/-- What a literal stands between. -/
inductive Quote where
  | single
  | double
  deriving DecidableEq, Repr

def Quote.char : Quote → Char
  | .single => '\''
  | .double => '"'

@[simp] theorem Quote.char_ne_backslash (q : Quote) : q.char ≠ '\\' := by cases q <;> decide

@[simp] theorem Quote.char_ne_newline (q : Quote) : q.char ≠ '\n' := by cases q <;> decide

/-- Where a reader stands. -/
inductive State where
  | code
  | comment
  /-- After one quote or two that may begin a literal in triple quotes. -/
  | opened (quote : Quote) (twice : Bool)
  | literal (quote : Quote) (triple : Bool)
  /-- After a backslash in a literal. -/
  | escaped (quote : Quote) (triple : Bool)
  /-- After one quote or two that may end a literal in triple quotes. -/
  | closing (quote : Quote) (twice : Bool)
  deriving DecidableEq, Repr

/-- A reader of code. -/
structure Reader where
  state : State
  /-- The brackets still open, innermost first. -/
  stack : List Char
  deriving DecidableEq, Repr

namespace Reader

/-- The reader after a closing bracket, which has to close the innermost open one. -/
def close (c : Char) : List Char → Option Reader
  | [] => none
  | o :: os => if closer? o = some c then some ⟨.code, os⟩ else none

/-- The reader after a character of code. -/
def inCode (stack : List Char) (c : Char) : Option Reader :=
  if c = '\n' then some ⟨.code, stack⟩
  else if c = '#' then some ⟨.comment, stack⟩
  else if c = '"' then some ⟨.opened .double false, stack⟩
  else if c = '\'' then some ⟨.opened .single false, stack⟩
  else if isOpener c then some ⟨.code, c :: stack⟩
  else if isCloser c then close c stack
  else some ⟨.code, stack⟩

/-- The reader after a character of a literal. -/
def inLiteral (stack : List Char) (q : Quote) (triple : Bool) (c : Char) : Option Reader :=
  if c = '\\' then some ⟨.escaped q triple, stack⟩
  else if c = '\n' then if triple then some ⟨.literal q triple, stack⟩ else none
  else if c = q.char then some ⟨if triple then .closing q false else .code, stack⟩
  else some ⟨.literal q triple, stack⟩

/-- The reader after one more character. -/
def step (r : Reader) (c : Char) : Option Reader :=
  match r.state with
  | .code => inCode r.stack c
  | .comment => some ⟨if c = '\n' then .code else .comment, r.stack⟩
  | .opened q false => if c = q.char then some ⟨.opened q true, r.stack⟩ else inLiteral r.stack q false c
  | .opened q true => if c = q.char then some ⟨.literal q true, r.stack⟩ else inCode r.stack c
  | .literal q triple => inLiteral r.stack q triple c
  | .escaped q triple => if Text.isBlank c then none else some ⟨.literal q triple, r.stack⟩
  | .closing q false => if c = q.char then some ⟨.closing q true, r.stack⟩ else inLiteral r.stack q true c
  | .closing q true => if c = q.char then some ⟨.code, r.stack⟩ else inLiteral r.stack q true c

/-- The reader after a text. -/
def read (r : Reader) : List Char → Option Reader
  | [] => some r
  | c :: cs => (r.step c).bind fun r => r.read cs

/-- A reader at the start of a text. -/
def start : Reader := ⟨.code, []⟩

/-! ### Composing readings -/

theorem read_cons (r : Reader) (c : Char) (cs : List Char) : r.read (c :: cs) = (r.step c).bind (·.read cs) := rfl

theorem read_append (r : Reader) (a b : List Char) : r.read (a ++ b) = (r.read a).bind (·.read b) := by
  induction a generalizing r with
  | nil => rfl
  | cons c a ih =>
    rw [List.cons_append, read_cons, read_cons, Option.bind_assoc]
    exact congrArg _ (funext ih)

/-- The reader with more brackets open outside all others. -/
def under (base : List Char) (r : Reader) : Reader := { r with stack := r.stack ++ base }

/-- A character of code leaves the stack as it is, opens a bracket or closes one. -/
theorem inCode_cases (c : Char) :
    (∃ s, ∀ stack, inCode stack c = some ⟨s, stack⟩) ∨ (∀ stack, inCode stack c = some ⟨.code, c :: stack⟩) ∨
      ∀ stack, inCode stack c = close c stack := by
  by_cases hnl : c = '\n'
  · exact .inl ⟨.code, fun _ => if_pos hnl⟩
  by_cases hhash : c = '#'
  · exact .inl ⟨.comment, fun _ => by rw [inCode, if_neg hnl, if_pos hhash]⟩
  by_cases hdouble : c = '"'
  · exact .inl ⟨.opened .double false, fun _ => by rw [inCode, if_neg hnl, if_neg hhash, if_pos hdouble]⟩
  by_cases hsingle : c = '\''
  · refine .inl ⟨.opened .single false, fun _ => ?_⟩
    rw [inCode, if_neg hnl, if_neg hhash, if_neg hdouble, if_pos hsingle]
  have hbracket : ∀ stack, inCode stack c = if isOpener c then some ⟨.code, c :: stack⟩
      else if isCloser c then close c stack else some ⟨.code, stack⟩ := fun _ => by
    rw [inCode, if_neg hnl, if_neg hhash, if_neg hdouble, if_neg hsingle]
  by_cases hopener : isOpener c = true
  · exact .inr (.inl fun _ => by rw [hbracket, if_pos hopener])
  by_cases hcloser : isCloser c = true
  · exact .inr (.inr fun _ => by rw [hbracket, if_neg hopener, if_pos hcloser])
  · exact .inl ⟨.code, fun _ => by rw [hbracket, if_neg hopener, if_neg hcloser]⟩

/-- What lies deeper in the stack does not matter to a character of code that does without it. -/
theorem inCode_under {stack base : List Char} {c : Char} {r : Reader} (h : inCode stack c = some r) :
    inCode (stack ++ base) c = some (r.under base) := by
  rcases inCode_cases c with ⟨s, hc⟩ | hc | hc
  · rw [hc] at h ⊢
    cases h; rfl
  · rw [hc] at h ⊢
    cases h; rfl
  · rw [hc] at h ⊢
    -- only a closing bracket looks at the stack, and at the top of it
    cases stack with
    | nil => cases h
    | cons o os =>
      simp only [List.cons_append, close] at h ⊢
      split_ifs at h ⊢
      cases h; rfl

/-- A character of a literal is refused or leads to a state, whatever the stack is. -/
theorem inLiteral_cases (q : Quote) (triple : Bool) (c : Char) :
    (∀ stack, inLiteral stack q triple c = none) ∨ ∃ s, ∀ stack, inLiteral stack q triple c = some ⟨s, stack⟩ := by
  by_cases hback : c = '\\'
  · exact .inr ⟨_, fun _ => if_pos hback⟩
  by_cases hnl : c = '\n'
  · cases triple with
    | false => exact .inl fun _ => by rw [inLiteral, if_neg hback, if_pos hnl]; rfl
    | true => exact .inr ⟨_, fun _ => by rw [inLiteral, if_neg hback, if_pos hnl]; rfl⟩
  by_cases hq : c = q.char
  · exact .inr ⟨_, fun _ => by rw [inLiteral, if_neg hback, if_neg hnl, if_pos hq]⟩
  · exact .inr ⟨_, fun _ => by rw [inLiteral, if_neg hback, if_neg hnl, if_neg hq]⟩

theorem inLiteral_under {stack base : List Char} {q : Quote} {triple : Bool} {c : Char} {r : Reader}
    (h : inLiteral stack q triple c = some r) : inLiteral (stack ++ base) q triple c = some (r.under base) := by
  rcases inLiteral_cases q triple c with hc | ⟨s, hc⟩
  · rw [hc] at h
    cases h
  · rw [hc] at h ⊢
    cases h; rfl

/-- Nor does it to one step of a reader. -/
theorem step_under {r r' : Reader} {base : List Char} {c : Char} (h : r.step c = some r') :
    (r.under base).step c = some (r'.under base) := by
  obtain ⟨s, stack⟩ := r
  unfold step at h ⊢
  simp only [under] at h ⊢
  -- one case for each state, in the order of `step`
  split at h
  · exact inCode_under h
  · cases h; rfl
  · split_ifs at h ⊢
    · cases h; rfl
    · exact inLiteral_under h
  · split_ifs at h ⊢
    · cases h; rfl
    · exact inCode_under h
  · exact inLiteral_under h
  · split_ifs at h ⊢
    cases h; rfl
  · split_ifs at h ⊢
    · cases h; rfl
    · exact inLiteral_under h
  · split_ifs at h ⊢
    · cases h; rfl
    · exact inLiteral_under h

/-- What lies deeper in the stack does not matter to a reading that does without it. -/
theorem read_under {r r' : Reader} {cs : List Char} (h : r.read cs = some r') (base : List Char) :
    (r.under base).read cs = some (r'.under base) := by
  induction cs generalizing r with
  | nil =>
    cases h
    rfl
  | cons c cs ih =>
    rw [read_cons] at h ⊢
    obtain ⟨r₁, hstep, hread⟩ := Option.bind_eq_some_iff.mp h
    rw [step_under hstep]
    exact ih hread

/-! ### Plain characters -/

/-- The characters with a meaning of their own to a reader. -/
def special : List Char := ['\\', '\n', '#', '"', '\'', '(', ')', '[', ']', '\x7b', '\x7d']

def isPlain (c : Char) : Bool := !special.contains c

/-- A plain character is none of those that a reader or a scan looks for. -/
theorem isPlain_iff {c : Char} :
    isPlain c = true ↔
      c ≠ '\\' ∧ c ≠ '\n' ∧ c ≠ '#' ∧ c ≠ '"' ∧ c ≠ '\'' ∧ isOpener c = false ∧ isCloser c = false := by
  simp only [isPlain, special, isOpener, isCloser, List.contains_eq_mem, List.mem_cons, List.not_mem_nil]
  grind

/-- A class of characters without special ones has only plain ones. -/
theorem isPlain_of_class {p : Char → Bool} (hp : special.any p = false) {c : Char} (h : p c = true) :
    isPlain c = true := by
  have hnot : c ∉ special := fun hmem => List.any_eq_false.mp hp c hmem h
  simpa [isPlain] using hnot

theorem step_code_of_isPlain {c : Char} (h : isPlain c = true) (stack : List Char) :
    step ⟨.code, stack⟩ c = some ⟨.code, stack⟩ := by
  obtain ⟨-, hnl, hhash, hdouble, hsingle, hopener, hcloser⟩ := isPlain_iff.mp h
  simp [step, inCode, hnl, hhash, hdouble, hsingle, hopener, hcloser]

/-- Text is passed over by a reader whom none of its characters moves. -/
theorem read_eq_self {r : Reader} {cs : List Char} (h : ∀ c ∈ cs, r.step c = some r) : r.read cs = some r := by
  induction cs with
  | nil => rfl
  | cons c cs ih =>
    obtain ⟨hc, hcs⟩ := List.forall_mem_cons.mp h
    rw [read_cons, hc]
    exact ih hcs

/-- Plain text is read in code and leaves the reader as it is. -/
theorem read_code_of_isPlain {cs : List Char} (h : ∀ c ∈ cs, isPlain c = true) (stack : List Char) :
    read ⟨.code, stack⟩ cs = some ⟨.code, stack⟩ :=
  read_eq_self fun c hc => step_code_of_isPlain (h c hc) stack

theorem step_opener {c : Char} (h : isOpener c = true) (stack : List Char) :
    step ⟨.code, stack⟩ c = some ⟨.code, c :: stack⟩ := by
  obtain ((rfl | rfl) | rfl) : (c = '(' ∨ c = '[') ∨ c = '\x7b' := by simpa [isOpener] using h
  all_goals rfl

theorem step_closer {c : Char} (h : isCloser c = true) (stack : List Char) :
    step ⟨.code, stack⟩ c = close c stack := by
  obtain ((rfl | rfl) | rfl) : (c = ')' ∨ c = ']') ∨ c = '\x7d' := by simpa [isCloser] using h
  all_goals rfl

/-- A plain character is not a quote, so it belongs to the literal it stands in. -/
theorem inLiteral_of_isPlain {c : Char} (h : isPlain c = true) (stack : List Char) (q : Quote) (triple : Bool) :
    c ≠ q.char ∧ inLiteral stack q triple c = some ⟨.literal q triple, stack⟩ := by
  obtain ⟨hback, hnl, -, hdouble, hsingle, -, -⟩ := isPlain_iff.mp h
  have hq : c ≠ q.char := by cases q <;> assumption
  exact ⟨hq, by simp [inLiteral, hback, hnl, hq]⟩

/-- So is plain text in a literal. -/
theorem read_literal_of_isPlain {cs : List Char} (h : ∀ c ∈ cs, isPlain c = true) (q : Quote) (triple : Bool)
    (stack : List Char) : read ⟨.literal q triple, stack⟩ cs = some ⟨.literal q triple, stack⟩ :=
  read_eq_self fun c hc => (inLiteral_of_isPlain (h c hc) stack q triple).2

/-! ### The scan -/

/-- The reading of `cs` succeeds and leaves no bracket open. -/
def Closes (r : Reader) (cs : List Char) : Prop := ∃ s, r.read cs = some ⟨s, []⟩

/-- A reader closes a text if it gets past the first character and closes the rest from there. -/
theorem closes_cons {r : Reader} {c : Char} {cs : List Char} :
    r.Closes (c :: cs) ↔ ∃ r', r.step c = some r' ∧ r'.Closes cs := by
  simp only [Closes, read_cons, Option.bind_eq_some_iff]
  constructor
  · rintro ⟨s, r', hstep, hread⟩
    exact ⟨r', hstep, s, hread⟩
  · rintro ⟨r', hstep, s, hread⟩
    exact ⟨s, r', hstep, hread⟩

theorem Closes.of_step {r r' : Reader} {c : Char} {cs : List Char} (h : r.Closes (c :: cs))
    (hstep : r.step c = some r') : r'.Closes cs := by
  obtain ⟨r₁, h₁, hread⟩ := closes_cons.mp h
  rw [hstep] at h₁
  exact Option.some.inj h₁ ▸ hread

/-- Two readers with one stack that take the first character alike. -/
theorem Closes.congr {s s' : State} {stack cs : List Char} (h : Closes ⟨s, stack⟩ cs)
    (hstep : ∀ c rest, cs = c :: rest → step ⟨s, stack⟩ c = step ⟨s', stack⟩ c) : Closes ⟨s', stack⟩ cs := by
  cases cs with
  | nil =>
    obtain ⟨s₁, hs⟩ := h
    obtain ⟨-, rfl⟩ := Reader.mk.inj (Option.some.inj hs)
    exact ⟨s', rfl⟩
  | cons c cs =>
    obtain ⟨r, hr, hread⟩ := closes_cons.mp h
    exact closes_cons.mpr ⟨r, hstep c cs rfl ▸ hr, hread⟩

section Quotes

variable {q : Quote} {stack cs : List Char}

/-- A quote in code may open a literal. -/
theorem step_quote (q : Quote) (stack : List Char) : step ⟨.code, stack⟩ q.char = some ⟨.opened q false, stack⟩ := by
  cases q <;> rfl

/-- Two readers that differ only at a quote, where none follows. -/
theorem Closes.unquoted {s s' : State} (h : Closes ⟨s, stack⟩ cs) (hcs : cs.head? ≠ some q.char)
    (hstep : ∀ c, c ≠ q.char → step ⟨s, stack⟩ c = step ⟨s', stack⟩ c) : Closes ⟨s', stack⟩ cs := by
  refine h.congr ?_
  rintro c rest rfl
  exact hstep c fun hc => hcs (congrArg some hc)

theorem head?_ne_of_not_pair (hcs : ∀ rest, q.char :: cs ≠ q.char :: q.char :: rest) : cs.head? ≠ some q.char := by
  intro hhead
  obtain ⟨rest, rfl⟩ := List.head?_eq_some_iff.mp hhead
  exact hcs rest rfl

/-- Unless two more quotes follow, the quote that opens a literal opens a plain one. -/
theorem Closes.of_opened (h : Closes ⟨.opened q false, stack⟩ cs) (hcs : ∀ rest, cs ≠ q.char :: q.char :: rest) :
    Closes ⟨.literal q false, stack⟩ cs := by
  by_cases hhead : cs.head? = some q.char
  · -- an empty literal, closed again
    obtain ⟨cs', rfl⟩ : ∃ cs', cs = q.char :: cs' := List.head?_eq_some_iff.mp hhead
    have htwice : Closes ⟨.opened q true, stack⟩ cs' := h.of_step (by simp [step])
    refine closes_cons.mpr ⟨⟨.code, stack⟩, by simp [step, inLiteral], ?_⟩
    exact htwice.unquoted (head?_ne_of_not_pair hcs) fun c hc => by simp [step, hc]
  · exact h.unquoted hhead fun c hc => by simp [step, hc]

/-- Unless two more quotes follow, a quote in a literal in triple quotes is part of it. -/
theorem Closes.of_closing (h : Closes ⟨.closing q false, stack⟩ cs) (hcs : ∀ rest, cs ≠ q.char :: q.char :: rest) :
    Closes ⟨.literal q true, stack⟩ cs := by
  by_cases hhead : cs.head? = some q.char
  · -- one more quote follows, so both belong to the literal
    obtain ⟨cs', rfl⟩ : ∃ cs', cs = q.char :: cs' := List.head?_eq_some_iff.mp hhead
    have htwice : Closes ⟨.closing q true, stack⟩ cs' := h.of_step (by simp [step])
    refine closes_cons.mpr ⟨⟨.closing q false, stack⟩, by simp [step, inLiteral], ?_⟩
    exact htwice.unquoted (head?_ne_of_not_pair hcs) fun c hc => by simp [step, hc]
  · exact h.unquoted hhead fun c hc => by simp [step, hc]

end Quotes

end Reader

/-- The state of a reader where a scan stands. -/
inductive Mode.Matches : Mode → State → Prop
  | code : Matches .code .code
  | comment : Matches .comment .comment
  | literal (q : Quote) (triple : Bool) : Matches (.literal q.char triple) (.literal q triple)

theorem exists_quote {c : Char} (h : (c = '"' || c = '\'') = true) : ∃ q : Quote, c = q.char := by
  have hc : c = '"' ∨ c = '\'' := by simpa using h
  rcases hc with rfl | rfl
  · exact ⟨.double, rfl⟩
  · exact ⟨.single, rfl⟩

/-! ### Along the bites of a scan -/

namespace Reader

variable {stack : List Char} {c : Char} {cs : List Char}

/-- From where a scan stands after its bite of `c :: cs`, a reader gets to the end with the same brackets open. -/
def ClosesAfter (mode : Mode) (stack : List Char) (c : Char) (cs : List Char) : Prop :=
  ∃ s, (mode.bite c cs).mode.Matches s ∧ Closes ⟨s, stack⟩ (cs.drop (mode.bite c cs).extra)

/-- In a comment the reader and the scan both wait for the end of the line. -/
theorem closesAfter_comment (h : Closes ⟨.comment, stack⟩ (c :: cs)) : ClosesAfter .comment stack c cs := by
  simp only [ClosesAfter, Mode.bite]
  split_ifs with hnl
  · exact ⟨.code, .code, h.of_step (by simp [step, hnl])⟩
  · exact ⟨.comment, .comment, h.of_step (by simp [step, hnl])⟩

theorem exists_of_isPrefixOf_pair {q : Char} (h : [q, q].isPrefixOf cs = true) : ∃ rest, cs = q :: q :: rest := by
  obtain ⟨rest, hrest⟩ := List.isPrefixOf_iff_prefix.mp h
  exact ⟨rest, hrest.symm⟩

theorem ne_of_not_isPrefixOf_pair {q : Char} (h : ¬ [q, q].isPrefixOf cs = true) : ∀ rest, cs ≠ q :: q :: rest := by
  rintro rest rfl
  exact h (List.isPrefixOf_iff_prefix.mpr ⟨rest, rfl⟩)

/-- In code they take the same step, unless the scan lists a bracket. -/
theorem closesAfter_code (hplain : ¬ (isOpener c || isCloser c) = true) (h : Closes ⟨.code, stack⟩ (c :: cs)) :
    ClosesAfter .code stack c cs := by
  simp only [ClosesAfter, Mode.bite]
  split_ifs with hnl hhash hquote hpair
  · exact ⟨.code, .code, h.of_step (by rw [hnl]; rfl)⟩
  · exact ⟨.comment, .comment, h.of_step (by rw [hhash]; rfl)⟩
  · -- the scan takes three quotes at once, the reader one after the other
    obtain ⟨q, rfl⟩ := exists_quote hquote
    obtain ⟨rest, rfl⟩ := exists_of_isPrefixOf_pair hpair
    have hopened := h.of_step (step_quote q stack)
    have htwice : Closes ⟨.opened q true, stack⟩ (q.char :: rest) := hopened.of_step (by simp [step])
    exact ⟨.literal q true, .literal q true, htwice.of_step (by simp [step])⟩
  · obtain ⟨q, rfl⟩ := exists_quote hquote
    have hopened := h.of_step (step_quote q stack)
    exact ⟨.literal q false, .literal q false, hopened.of_opened (ne_of_not_isPrefixOf_pair hpair)⟩
  · obtain ⟨hdouble, hsingle⟩ : c ≠ '"' ∧ c ≠ '\'' := by simpa using hquote
    obtain ⟨hopener, hcloser⟩ : isOpener c = false ∧ isCloser c = false := by simpa using hplain
    refine ⟨.code, .code, h.of_step ?_⟩
    simp [step, inCode, hnl, hhash, hdouble, hsingle, hopener, hcloser]

/-- After a backslash a reader is still in the literal, past the next character if there is one. -/
theorem Closes.of_backslash {q : Quote} {triple : Bool} (h : Closes ⟨.literal q triple, stack⟩ ('\\' :: cs)) :
    Closes ⟨.literal q triple, stack⟩ (cs.drop 1) := by
  have hescaped : Closes ⟨.escaped q triple, stack⟩ cs := h.of_step rfl
  cases cs with
  | nil => exact hescaped.congr fun _ _ hcons => by cases hcons
  | cons c rest =>
    obtain ⟨r, hstep, hread⟩ := closes_cons.mp hescaped
    simp only [step] at hstep
    split_ifs at hstep
    obtain rfl := Option.some.inj hstep
    exact hread

/-- In a literal the scan looks ahead for the closing quotes, and the reader remembers what it has seen of them. -/
theorem closesAfter_literal {q : Quote} {triple : Bool} (h : Closes ⟨.literal q triple, stack⟩ (c :: cs)) :
    ClosesAfter (.literal q.char triple) stack c cs := by
  -- the cases are those of a bite, the quotes in the middle
  simp only [ClosesAfter, Mode.bite]
  split_ifs with hback hnl htriple hq htriple hpair
  · rw [hback] at h
    exact ⟨.literal q triple, .literal q triple, h.of_backslash⟩
  · subst htriple
    rw [hnl] at h
    exact ⟨.literal q true, .literal q true, h.of_step rfl⟩
  · -- the line of a literal in one quote on each side must not end
    obtain rfl : triple = false := by simpa using htriple
    rw [hnl] at h
    obtain ⟨_, hstep, -⟩ := closes_cons.mp h
    cases hstep
  · -- three quotes end a literal in triple quotes
    obtain ⟨rest, rfl⟩ := exists_of_isPrefixOf_pair hpair
    subst htriple
    rw [hq] at h
    have hclosing : Closes ⟨.closing q false, stack⟩ (q.char :: q.char :: rest) :=
      h.of_step (by simp [step, inLiteral])
    have htwice : Closes ⟨.closing q true, stack⟩ (q.char :: rest) := hclosing.of_step (by simp [step])
    exact ⟨.code, .code, htwice.of_step (by simp [step])⟩
  · subst htriple
    rw [hq] at h
    have hclosing : Closes ⟨.closing q false, stack⟩ cs := h.of_step (by simp [step, inLiteral])
    exact ⟨.literal q true, .literal q true, hclosing.of_closing (ne_of_not_isPrefixOf_pair hpair)⟩
  · obtain rfl : triple = false := by simpa using htriple
    rw [hq] at h
    exact ⟨.code, .code, h.of_step (by simp [step, inLiteral])⟩
  · refine ⟨.literal q triple, .literal q triple, h.of_step ?_⟩
    simp [step, inLiteral, hback, hnl, hq]

/-- A reader that closes the text goes along with the scan, as long as the scan lists no bracket. -/
theorem closesAfter {mode : Mode} {s : State} (hmode : mode.Matches s)
    (hplain : ¬ (mode = .code ∧ (isOpener c || isCloser c) = true)) (h : Closes ⟨s, stack⟩ (c :: cs)) :
    ClosesAfter mode stack c cs := by
  cases hmode with
  | code => exact closesAfter_code (fun hc => hplain ⟨rfl, hc⟩) h
  | comment => exact closesAfter_comment h
  | literal q triple => exact closesAfter_literal h

end Reader

/-- A bracket that a reader gets past nests, if what comes after it does from there. -/
theorem nest_bracket {c : Char} {cs : List Char} {line : Nat} {open_ bs : List Bracket}
    (hc : (isOpener c || isCloser c) = true) (h : Reader.Closes ⟨.code, open_.map (·.char)⟩ (c :: cs))
    (hcs : ∀ open_ : List Bracket, Reader.Closes ⟨.code, open_.map (·.char)⟩ cs → nest open_ bs = none) :
    nest open_ (⟨c, line⟩ :: bs) = none := by
  obtain ⟨r, hstep, hread⟩ := Reader.closes_cons.mp h
  unfold nest
  dsimp only
  by_cases hopener : isOpener c = true
  · rw [if_pos hopener]
    obtain rfl := Option.some.inj ((Reader.step_opener hopener _).symm.trans hstep)
    exact hcs (⟨c, line⟩ :: open_) hread
  · have hcloser : isCloser c = true := by simpa [hopener] using hc
    rw [if_neg hopener]
    rw [Reader.step_closer hcloser] at hstep
    -- the innermost open bracket is the one that it closes
    cases open_ with
    | nil => cases hstep
    | cons o os =>
      simp only [List.map_cons, Reader.close] at hstep ⊢
      split_ifs at hstep ⊢
      obtain rfl := Option.some.inj hstep
      exact hcs os hread

/-- A bracket in code is taken by itself. -/
theorem bite_bracket {c : Char} (hc : (isOpener c || isCloser c) = true) (cs : List Char) :
    Mode.code.bite c cs = { mode := .code } := by
  have hnl : c ≠ '\n' := by rintro rfl; cases hc
  have hhash : c ≠ '#' := by rintro rfl; cases hc
  have hquote : ¬ (c = '"' || c = '\'') = true := by
    intro hquote
    obtain ⟨q, rfl⟩ := exists_quote hquote
    cases q <;> cases hc
  simp only [Mode.bite, if_neg hnl, if_neg hhash, if_neg hquote]

/-- The brackets that a scan lists nest, from wherever a reader closes them. -/
theorem nest_scan (mode : Mode) (cs : List Char) :
    ∀ {line : Nat} {s : State}, mode.Matches s → ∀ open_ : List Bracket,
      Reader.Closes ⟨s, open_.map (·.char)⟩ cs → nest open_ (scan line mode cs) = none := by
  refine scan_induction (P := fun mode cs => ∀ {line : Nat} {s : State}, mode.Matches s → ∀ open_ : List Bracket,
    Reader.Closes ⟨s, open_.map (·.char)⟩ cs → nest open_ (scan line mode cs) = none) ?_ ?_ mode cs
  · intro mode line s _ open_ h
    obtain ⟨s', hs⟩ := h
    obtain ⟨-, hnil⟩ := Reader.mk.inj (Option.some.inj hs)
    rw [List.map_eq_nil_iff.mp hnil, scan_nil]
    rfl
  · intro mode c cs ih line s hmode open_ h
    rw [scan_cons, Mode.listed]
    split_ifs with hbracket
    · -- a bracket: the stack of the reader changes as the list of open brackets does
      obtain ⟨rfl, hc⟩ := hbracket
      cases hmode
      rw [bite_bracket hc] at ih ⊢
      exact nest_bracket hc h fun open_ hread => ih .code open_ hread
    · obtain ⟨s', hmode', hread⟩ := Reader.closesAfter hmode hbracket h
      exact ih hmode' open_ hread

/-- Text that a reader gets through with no bracket left open has no bracket problem. -/
theorem problem?_eq_none {code : List Char} (h : Reader.start.Closes code) : problem? code = none :=
  nest_scan .code code .code [] h

end AgentFlow.Bracket
