import AgentFlow.Proofs.Bracket.Pieces
import AgentFlow.Proofs.Python.Fragment
import AgentFlow.Proofs.Python.Value

/-!
# Literals stand for the texts they are written for

A literal ends with the first quotes after the opening ones that no backslash takes along (`Enclosed`), and what is
written in between stands for a text by the rules of escape sequences and line ends (`Literal.decode`). `Denotes` says
both of a text. What `quote` and `docstring` write between the quotes has no quote in it but after a backslash
(`Unquoted`), so the literals end where they are meant to. `quote` writes an escape sequence for each line end and each
null character, and its literals stand for the texts they are written for. `docstring` writes them as they are: a
carriage return is then read as a newline, alone or with the newline after it (`Literal.newlined`), and a null character
has no place in code at all.
-/

namespace AgentFlow.Python

open AgentFlow.Bracket (Glyph Quote Contents)

/-! ### What is between the quotes -/

namespace Literal

variable {named : List Char → Option Char}

/-- What the text between the quotes of a literal stands for; `skip` characters belong to an escape sequence that was
decoded already. A carriage return is read as a newline, together with the newline after it if there is one, and a null
character is refused. -/
def decode (named : List Char → Option Char) : Nat → List Char → Option (List Char)
  | _, [] => some []
  | skip + 1, _ :: cs => decode named skip cs
  | 0, c :: cs =>
    if c = '\\' then
      match escape? named cs with
      | none => none
      | some (m, n) => (decode named n cs).map (m ++ ·)
    else if c = '\x00' then none
    else if c = '\r' then if cs.head? = some '\n' then decode named 0 cs else (decode named 0 cs).map ('\n' :: ·)
    else (decode named 0 cs).map (c :: ·)

theorem decode_drop (skip : Nat) (cs : List Char) : decode named skip cs = decode named 0 (cs.drop skip) := by
  induction skip generalizing cs with
  | zero => rfl
  | succ skip ih =>
    cases cs with
    | nil => rfl
    | cons c cs => exact ih cs

theorem decode_cons {c : Char} (hback : c ≠ '\\') (hnull : c ≠ '\x00') (hcr : c ≠ '\r') (cs : List Char) :
    decode named 0 (c :: cs) = (decode named 0 cs).map (c :: ·) := by
  rw [decode, if_neg hback, if_neg hnull, if_neg hcr]

theorem decode_null (cs : List Char) : decode named 0 ('\x00' :: cs) = none := by
  rw [decode, if_neg (by decide), if_pos rfl]

theorem decode_return (cs : List Char) :
    decode named 0 ('\r' :: cs) =
      if cs.head? = some '\n' then decode named 0 cs else (decode named 0 cs).map ('\n' :: ·) := by
  rw [decode, if_neg (by decide), if_neg (by decide), if_pos rfl]

theorem decode_backslash {cs m : List Char} {n : Nat} (h : escape? named cs = some (m, n)) :
    decode named 0 ('\\' :: cs) = (decode named 0 (cs.drop n)).map (m ++ ·) := by
  rw [← decode_drop, decode, if_pos rfl, h]

/-- What is written for a character is decoded as it, whatever follows. -/
theorem decode_escapeChar (c : Char) (cs : List Char) :
    decode named 0 (escapeChar c ++ cs) = (decode named 0 cs).map (c :: ·) := by
  rcases escapeChar_cases c with ⟨hself, hbreak, hback⟩ | ⟨e, es, hwritten, -, hescape⟩
  · have hnull : c ≠ '\x00' := fun h => hbreak (h ▸ by decide)
    have hcr : c ≠ '\r' := fun h => hbreak (h ▸ by decide)
    rw [hself]
    exact decode_cons hback hnull hcr cs
  · -- the escape sequence is skipped as a whole
    have hrest : (e :: (es ++ cs)).drop (es.length + 1) = cs := List.drop_left
    rw [hwritten]
    show decode named 0 ('\\' :: e :: (es ++ cs)) = _
    rw [decode_backslash (hescape named cs), hrest]
    rfl

/-- What `quote` writes for a text is decoded as the text. -/
theorem decode_flatMap_escapeChar (text : List Char) : decode named 0 (text.flatMap escapeChar) = some text := by
  induction text with
  | nil => rfl
  | cons c text ih => rw [List.flatMap_cons, decode_escapeChar, ih, Option.map_some]

/-! ### Line ends in a docstring -/

/-- The text with its line ends as they are read in code: a carriage return becomes a newline, or goes if a newline
follows. -/
def newlined : List Char → List Char
  | [] => []
  | c :: cs =>
    if c = '\r' then if cs.head? = some '\n' then newlined cs else '\n' :: newlined cs
    else c :: newlined cs

theorem return_not_mem_newlined (text : List Char) : '\r' ∉ newlined text := by
  induction text with
  | nil => simp [newlined]
  | cons c text ih =>
    rw [newlined]
    split_ifs with hcr
    · exact ih
    · simpa using ih
    · simpa [Ne.symm hcr] using ih

/-- Only carriage returns are read otherwise. -/
theorem newlined_eq_self_iff {text : List Char} : newlined text = text ↔ '\r' ∉ text := by
  constructor
  · intro hself
    rw [← hself]
    exact return_not_mem_newlined text
  · intro hcr
    induction text with
    | nil => rfl
    | cons c text ih =>
      obtain ⟨hc, htext⟩ : '\r' ≠ c ∧ '\r' ∉ text := by simpa using hcr
      rw [newlined, if_neg hc.symm, ih htext]

end Literal

/-- A quote and a backslash are written after a backslash. -/
theorem escapeDocChar_cases (c : Char) :
    escapeDocChar c = ['\\', c] ∧ (c = '"' ∨ c = '\\') ∨ escapeDocChar c = [c] ∧ ¬ (c = '"' ∨ c = '\\') := by
  unfold escapeDocChar
  split_ifs with hback hquote
  · exact .inl ⟨by rw [hback], .inr hback⟩
  · exact .inl ⟨by rw [hquote], .inl hquote⟩
  · exact .inr ⟨rfl, fun h => h.elim hquote hback⟩

/-- The characters of a docstring for a text. -/
def escapeDoc (text : List Char) : List Char := text.flatMap escapeDocChar

theorem escapeDoc_cons (c : Char) (text : List Char) : escapeDoc (c :: text) = escapeDocChar c ++ escapeDoc text :=
  List.flatMap_cons

/-- What is written for a text begins with a newline if the text does. -/
theorem head?_escapeDoc_eq_newline_iff (text : List Char) :
    (escapeDoc text).head? = some '\n' ↔ text.head? = some '\n' := by
  cases text with
  | nil => rfl
  | cons c text =>
    rw [escapeDoc_cons]
    rcases escapeDocChar_cases c with ⟨hwritten, hc⟩ | ⟨hwritten, -⟩
    · rw [hwritten]
      rcases hc with rfl | rfl <;> simp
    · rw [hwritten]
      simp

namespace Literal

variable {named : List Char → Option Char}

theorem decode_escapeDocChar {c : Char} (hnull : c ≠ '\x00') (hcr : c ≠ '\r') (cs : List Char) :
    decode named 0 (escapeDocChar c ++ cs) = (decode named 0 cs).map (c :: ·) := by
  rcases escapeDocChar_cases c with ⟨hwritten, hc⟩ | ⟨hwritten, hc⟩
  · have hescape : escape? named (c :: cs) = some ([c], 1) := by rcases hc with rfl | rfl <;> rfl
    rw [hwritten]
    exact decode_backslash hescape
  · rw [hwritten]
    exact decode_cons (fun h => hc (.inr h)) hnull hcr cs

/-- **What `docstring` writes for a text** is decoded as the text with its line ends as they are read, unless it holds a
null character. -/
theorem decode_escapeDoc (text : List Char) :
    decode named 0 (escapeDoc text) = if '\x00' ∈ text then none else some (newlined text) := by
  induction text with
  | nil => rfl
  | cons c text ih =>
    rw [escapeDoc_cons]
    by_cases hnull : c = '\x00'
    · subst hnull
      rw [if_pos List.mem_cons_self]
      exact decode_null _
    have hmem : '\x00' ∈ c :: text ↔ '\x00' ∈ text := by simp [Ne.symm hnull]
    by_cases hcr : c = '\r'
    · -- the carriage return is taken with the newline after it, or for one
      subst hcr
      have hreturn : decode named 0 (escapeDocChar '\r' ++ escapeDoc text) = _ := decode_return (escapeDoc text)
      rw [hreturn, ih, newlined, if_pos rfl]
      simp only [head?_escapeDoc_eq_newline_iff, hmem]
      split_ifs <;> rfl
    · rw [decode_escapeDocChar hnull hcr, ih, newlined, if_neg hcr]
      simp only [hmem]
      split_ifs <;> rfl

end Literal

/-! ### Where a literal ends -/

/-- The text is made of characters of a literal, without a quote but after a backslash, and on one line unless the
literal is in triple quotes. -/
def Unquoted (triple : Bool) (text : List Char) : Prop :=
  ∃ gs : List Glyph, text = gs.flatMap Glyph.text ∧ (∀ h, .plain '"' h ∉ gs) ∧ (triple = false → .newline ∉ gs)

namespace Unquoted

variable {triple : Bool} {text : List Char}

theorem nil : Unquoted triple [] := ⟨[], rfl, by simp, by simp⟩

theorem append {more : List Char} (h : Unquoted triple text) (hmore : Unquoted triple more) :
    Unquoted triple (text ++ more) := by
  obtain ⟨gs, rfl, hquote, hline⟩ := h
  obtain ⟨hs, rfl, hquote', hline'⟩ := hmore
  refine ⟨gs ++ hs, by rw [List.flatMap_append], fun hback hmem => ?_, fun hone hmem => ?_⟩
  · exact (List.mem_append.mp hmem).elim (hquote hback) (hquote' hback)
  · exact (List.mem_append.mp hmem).elim (hline hone) (hline' hone)

theorem plain {c : Char} (hback : c ≠ '\\') (hquote : c ≠ '"') (hline : triple = false → c ≠ '\n') :
    Unquoted triple [c] := by
  refine ⟨[.plain c hback], rfl, fun h hmem => ?_, fun hone hmem => ?_⟩
  · exact hquote (Glyph.plain.inj (List.mem_singleton.mp hmem)).symm
  · exact hline hone (Glyph.plain.inj (List.mem_singleton.mp hmem)).symm

theorem escaped (c : Char) : Unquoted triple ['\\', c] :=
  ⟨[.escaped c], rfl, by simp, by simp [Glyph.newline]⟩

theorem flatMap {write : Char → List Char} (h : ∀ c, Unquoted triple (write c)) (text : List Char) :
    Unquoted triple (text.flatMap write) := by
  induction text with
  | nil => exact nil
  | cons c text ih => exact (h c).append ih

/-- Nothing in it ends the literal. -/
theorem contents (h : Unquoted triple text) :
    ∃ gs : List Glyph, text = gs.flatMap Glyph.text ∧ ∀ after, Contents .double triple gs after := by
  obtain ⟨gs, rfl, hquote, hline⟩ := h
  refine ⟨gs, rfl, fun after => ?_⟩
  induction gs with
  | nil => exact Contents.nil _ _ _
  | cons g gs ih =>
    have hrest := ih (fun h hmem => hquote h (List.mem_cons_of_mem g hmem))
      fun hone hmem => hline hone (List.mem_cons_of_mem g hmem)
    refine Contents.cons_iff.mpr ⟨fun hopen => ?_, fun hone => ?_, hrest⟩
    · obtain ⟨more, hmarks⟩ := Quote.marks_eq_cons .double triple
      rw [hmarks] at hopen
      cases g with
      | plain c hback =>
        -- a quote would be among the characters
        obtain rfl : '"' = c := (List.cons_prefix_cons.mp hopen).1
        exact hquote hback List.mem_cons_self
      | escaped c => exact absurd (List.cons_prefix_cons.mp hopen).1 (by decide)
    · rintro rfl
      exact hline hone List.mem_cons_self

end Unquoted

/-- What is written for a character does not end a literal. -/
theorem unquoted_escapeChar (c : Char) : Unquoted false (escapeChar c) := by
  have hdigits : ∀ n, Unquoted false (Json.hexFour n) := by
    intro n
    have hall := isPlain_hexFour n
    generalize Json.hexFour n = digits at hall
    induction digits with
    | nil => exact .nil
    | cons d digits ih =>
      obtain ⟨hd, hdigits⟩ := List.forall_mem_cons.mp hall
      obtain ⟨hback, hnl, -, hquote, -⟩ := Bracket.Reader.isPlain_iff.mp hd
      exact (Unquoted.plain hback hquote fun _ => hnl).append (ih hdigits)
  rcases Literal.escapeChar_cases c with ⟨hself, hbreak, hback⟩ | ⟨e, es, hwritten, hes, -⟩
  · rw [hself]
    refine .plain hback (fun h => ?_) fun _ h => ?_ <;> exact hbreak (h ▸ by decide)
  · rw [hwritten]
    refine (Unquoted.escaped e).append ?_
    rcases hes with rfl | rfl
    · exact .nil
    · exact hdigits _

/-- Nor does it end a docstring. -/
theorem unquoted_escapeDocChar (c : Char) : Unquoted true (escapeDocChar c) := by
  unfold escapeDocChar
  split_ifs with hback hquote
  · exact .escaped '\\'
  · exact .escaped '"'
  · exact .plain hback hquote (by simp)

/-! ### Literals -/

/-- Nothing that is written for a character is a control character. -/
theorem isControl_escapeChar {c d : Char} (h : d ∈ escapeChar c) : Text.isControl d = false := by
  have hall : ∀ {cs : List Char}, d ∈ cs → cs.all (fun d => !Text.isControl d) = true → Text.isControl d = false :=
    fun hd hcs => by simpa using List.all_eq_true.mp hcs d hd
  have hdigit : ∀ n, Text.isControl (Json.hexDigit (n % 16)) = false := by
    have hdigits : ∀ k < 16, Text.isControl (Json.hexDigit k) = false := by decide
    exact fun n => hdigits _ (Nat.mod_lt n (by decide))
  unfold escapeChar at h
  split_ifs at h with hback hquote hnl hcr htab hcontrol
  · exact hall h (by decide)
  · exact hall h (by decide)
  · exact hall h (by decide)
  · exact hall h (by decide)
  · exact hall h (by decide)
  · refine hall h ?_
    have hlead : Text.isControl '\\' = false ∧ Text.isControl 'u' = false := by decide
    simp [Json.hexFour, hdigit, hlead]
  · obtain rfl := List.mem_singleton.mp h
    simpa using hcontrol

theorem isControl_quote {s : String} {d : Char} (h : d ∈ (quote s).toList) : Text.isControl d = false := by
  have hquote : Text.isControl '"' = false := by decide
  rw [quote, String.toList_ofList] at h
  rcases List.mem_append.mp h with h | h
  · rcases List.mem_cons.mp h with rfl | h
    · exact hquote
    · obtain ⟨c, -, hd⟩ := List.mem_flatMap.mp h
      exact isControl_escapeChar hd
  · rw [List.mem_singleton.mp h]
    exact hquote

/-- The text is a literal in double quotes, one or three on each side, with `inner` between them: after the opening
quotes no quotes end it before the last ones, whatever follows. With one quote on each side it stands on one line. -/
structure Enclosed (triple : Bool) (text inner : List Char) : Prop where
  marks : text = Quote.double.marks triple ++ inner ++ Quote.double.marks triple
  ends : ∃ gs : List Glyph, inner = gs.flatMap Glyph.text ∧
    ∀ rest, Contents .double triple gs (Quote.double.marks triple ++ rest)
  line : triple = false → '\r' ∉ inner

/-- The text is a literal that stands for `value`. -/
def Denotes (named : List Char → Option Char) (triple : Bool) (text value : List Char) : Prop :=
  ∃ inner, Enclosed triple text inner ∧ Literal.decode named 0 inner = some value

section Denotes

variable {named : List Char → Option Char} {triple : Bool} {text value : List Char}

theorem enclosed_of_unquoted (h : Unquoted triple text) (hline : triple = false → '\r' ∉ text) :
    Enclosed triple (Quote.double.marks triple ++ text ++ Quote.double.marks triple) text := by
  obtain ⟨gs, htext, hcontents⟩ := h.contents
  exact ⟨rfl, ⟨gs, htext, fun rest => hcontents _⟩, hline⟩

/-- A literal stands for what is decoded of the text between its quotes, and for nothing else. -/
theorem Enclosed.denotes_iff {inner : List Char} (h : Enclosed triple text inner) :
    Denotes named triple text value ↔ Literal.decode named 0 inner = some value := by
  refine ⟨fun ⟨inner', h', hvalue⟩ => ?_, fun hvalue => ⟨inner, h, hvalue⟩⟩
  have hsame := h.marks.symm.trans h'.marks
  rwa [List.append_cancel_left (List.append_cancel_right hsame)]

/-- The literal of a text stands for the text. -/
theorem denotes_quote (s : String) : Denotes named false (quote s).toList s.toList := by
  have htext : (quote s).toList = ['"'] ++ s.toList.flatMap escapeChar ++ ['"'] := String.toList_ofList
  have hline : '\r' ∉ s.toList.flatMap escapeChar := by
    intro hmem
    obtain ⟨c, -, hc⟩ := List.mem_flatMap.mp hmem
    exact absurd (isControl_escapeChar hc) (by decide)
  rw [htext]
  exact ⟨_, enclosed_of_unquoted (.flatMap unquoted_escapeChar _) fun _ => hline, Literal.decode_flatMap_escapeChar _⟩

/-- A text as it is written in three double quotes. -/
def docLiteral (text : List Char) : List Char :=
  Quote.double.marks true ++ escapeDoc text ++ Quote.double.marks true

theorem enclosed_docLiteral (text : List Char) : Enclosed true (docLiteral text) (escapeDoc text) :=
  enclosed_of_unquoted (.flatMap unquoted_escapeDocChar _) (by simp)

/-- In three quotes a text stands for itself with its line ends as they are read, or for nothing at all. -/
theorem denotes_docLiteral_iff :
    Denotes named true (docLiteral text) value ↔ '\x00' ∉ text ∧ value = Literal.newlined text := by
  rw [(enclosed_docLiteral text).denotes_iff, Literal.decode_escapeDoc]
  split_ifs with hnull
  · simp [hnull]
  · simp [hnull, eq_comm]

/-- It stands for the text itself if there is nothing in it that is read otherwise. -/
theorem denotes_docLiteral_self_iff :
    Denotes named true (docLiteral text) text ↔ '\r' ∉ text ∧ '\x00' ∉ text := by
  rw [denotes_docLiteral_iff, eq_comm, Literal.newlined_eq_self_iff, and_comm]

theorem toList_docstring (s : String) : (docstring s).toList = docLiteral (Text.trim s.toList) := by
  have hquotes : "\"\"\"".toList = Quote.double.marks true := by decide
  rw [docstring, String.toList_append, String.toList_append, hquotes, String.toList_ofList]
  rfl

end Denotes

/-- **What literals stand for.** The literal of a text holds no control character and so no line break, ends with the
first double quote that no backslash takes along, and stands for the text. A docstring ends with the first three double
quotes in a row that begin with such a quote. If the text without the blanks around it holds no null character, the
docstring stands for it with its line ends as they are read in code, and so for the text itself exactly if there is no
carriage return in it either. -/
theorem literals_denote (named : List Char → Option Char) :
    (∀ s : String, (∀ c ∈ (quote s).toList, Text.isControl c = false ∧ c ≠ '\n' ∧ c ≠ '\r') ∧
      Denotes named false (quote s).toList s.toList) ∧
    ∀ d : String, (∃ inner, Enclosed true (docstring d).toList inner) ∧
      (∀ value, Denotes named true (docstring d).toList value ↔
        '\x00' ∉ Text.trim d.toList ∧ value = Literal.newlined (Text.trim d.toList)) ∧
      (Denotes named true (docstring d).toList (Text.trim d.toList) ↔
        '\r' ∉ Text.trim d.toList ∧ '\x00' ∉ Text.trim d.toList) := by
  refine ⟨fun s => ⟨fun c hc => ?_, denotes_quote s⟩, fun d => ?_⟩
  · have hcontrol := isControl_quote hc
    refine ⟨hcontrol, ?_, ?_⟩ <;> rintro rfl <;> exact absurd hcontrol (by decide)
  · rw [toList_docstring]
    exact ⟨⟨_, enclosed_docLiteral _⟩, fun value => denotes_docLiteral_iff, denotes_docLiteral_self_iff⟩

/-- A bell between quotes, with a backslash at the end. -/
def bell : String := "\"\x07\"\\"

theorem literals_denote_bell :
    (quote bell).toList = ['"', '\\', '"', '\\', 'u', '0', '0', '0', '7', '\\', '"', '\\', '\\', '"'] ∧
      ('u' ∈ (quote bell).toList ∧ Text.isControl 'u' = false ∧ 'u' ≠ '\n' ∧ 'u' ≠ '\r') ∧
      Denotes (fun _ => none) false (quote bell).toList bell.toList := by
  have hquote : (quote bell).toList =
      ['"', '\\', '"', '\\', 'u', '0', '0', '0', '7', '\\', '"', '\\', '\\', '"'] := by decide
  have hmem : 'u' ∈ (quote bell).toList := by
    rw [hquote]
    simp
  obtain ⟨hplain, hdenotes⟩ := (literals_denote fun _ => none).1 bell
  exact ⟨hquote, ⟨hmem, hplain 'u' hmem⟩, hdenotes⟩

/-- A carriage return in a docstring is lost: the literal stands for a text with a newline. -/
theorem docstring_loses_return :
    (docstring "a\rb").toList = ['"', '"', '"', 'a', '\r', 'b', '"', '"', '"'] ∧
      ∀ named, Denotes named true (docstring "a\rb").toList ['a', '\n', 'b'] ∧
        ¬ Denotes named true (docstring "a\rb").toList ['a', '\r', 'b'] := by
  have htrim : Text.trim "a\rb".toList = ['a', '\r', 'b'] := by decide
  refine ⟨by decide, fun named => ?_⟩
  rw [toList_docstring, htrim, denotes_docLiteral_iff, denotes_docLiteral_iff]
  decide

end AgentFlow.Python
