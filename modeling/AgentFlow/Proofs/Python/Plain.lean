import AgentFlow.Proofs.Python.Rows

/-!
# Rows that call what their literals call

The checks of form read literals as if they were code, so a name that stands in a literal like a call counts as one. An
expression `Says` texts if nothing but these texts, written as literals, can make its rows call any of the given names,
however it is broken over lines; rows are `Plain` in the same sense. Both are put together along the structure of what
is rendered.
-/

namespace AgentFlow.Python

open Text AgentFlow.Symbol Detect

/-- The name is called in the text. -/
def calls (name s : String) : Bool := called name.toList none s.toList

/-- The name is called in the literal of the text. -/
def callsQuoted (name text : String) : Bool := calls name (quote text)

/-- A call does not reach over a seam that keeps names apart. -/
theorem calls_append {name s t : String} (hname : name ∈ formNames) (h : apart s.toList t.toList = true) :
    calls name (s ++ t) = (calls name s || calls name t) := by
  rw [calls, String.toList_append, called_append (isName_of_mem_formNames hname) h]
  rfl

theorem calls_of_isQuiet {name s : String} (h : isQuiet s.toList = true) : calls name s = false :=
  called_of_isQuiet (by simp) h

/-- No name that the checks of form know is called in the text. -/
def isSilent (cs : List Char) : Bool := formChars.all fun name => !called name none cs

theorem calls_of_isSilent {name s : String} (hname : name ∈ formNames) (h : isSilent s.toList = true) :
    calls name s = false := by
  simpa [calls] using List.all_eq_true.mp h _ (toList_mem_formChars hname)

theorem apart_of_ends {a b : List Char} (h : endsApart a = true) : apart a b = true := by rw [apart, h, Bool.true_or]

theorem apart_of_starts {a b : List Char} (h : startsApart b = true) : apart a b = true := by
  rw [apart, h, Bool.or_true]

theorem endsApart_append {a b : List Char} (hb : b ≠ []) : endsApart (a ++ b) = endsApart b := by
  rw [endsApart, endsApart, List.getLast?_append_of_ne_nil _ hb]

theorem isBlank_of_mem_indent (depth : Nat) : ∀ c ∈ (indent depth).toList, isBlank c = true := by
  intro c hc
  rw [indent, String.toList_ofList] at hc
  rw [(List.mem_replicate.mp hc).2]
  decide

/-- Indentation keeps names apart as well. -/
theorem endsApart_indent_append {s : String} (depth : Nat) (h : endsApart s.toList = true) :
    endsApart (indent depth ++ s).toList = true := by
  rw [String.toList_append]
  by_cases hs : s.toList = []
  · rw [hs, List.append_nil]
    exact endsApart_of_blanks (isBlank_of_mem_indent depth)
  · rwa [endsApart_append hs]

/-! ### Layouts -/

/-- A text on one line, with no blank at its end. -/
structure OneLine (s : String) : Prop where
  newline : '\n' ∉ s.toList
  last : (s.toList.getLast?.all fun c => !isBlank c) = true

/-- What may stand before an item: nothing, or the start of an idle line that names are apart from. -/
structure Leads (lead : String) : Prop where
  newline : '\n' ∉ lead.toList
  idle : lead = "" ∨ Idle lead.toList
  apart : endsApart lead.toList = true

theorem leads_nothing : Leads "" := ⟨by decide, .inl rfl, by decide⟩

/-- A text that opens a group. -/
structure Opens (opening : String) : Prop extends OneLine opening where
  idle : Idle opening.toList
  apart : endsApart opening.toList = true

/-- A text that closes a group. -/
structure Closes (closing : String) : Prop extends OneLine closing where
  idle : Idle closing.toList
  apart : startsApart closing.toList = true

mutual

/-- However the layout is broken over lines, they are idle. -/
def Layout.Neat : Layout → Prop
  | .atom text => OneLine text ∧ Idle (text ++ ",").toList
  | .group opening items closing => Opens opening ∧ NeatItems items ∧ Closes closing

def NeatItems : List (String × Layout) → Prop
  | [] => True
  | (lead, l) :: rest => Leads lead ∧ l.Neat ∧ NeatItems rest

end

mutual

/-- Some text of the layout calls the name. -/
def Layout.calls (name : String) : Layout → Bool
  | .atom text => Python.calls name text
  | .group opening items closing => Python.calls name opening || callsItems name items || Python.calls name closing

def callsItems (name : String) : List (String × Layout) → Bool
  | [] => false
  | (lead, l) :: rest => Python.calls name lead || l.calls name || callsItems name rest

end

theorem flatItems_cons_cons (lead : String) (l : Layout) (item : String × Layout) (rest : List (String × Layout)) :
    flatItems ((lead, l) :: item :: rest) = lead ++ l.flat ++ ", " ++ flatItems (item :: rest) := by
  rw [flatItems]
  exact nofun

theorem neatItems_append {items more : List (String × Layout)} (h : NeatItems items) (hmore : NeatItems more) :
    NeatItems (items ++ more) := by
  induction items with
  | nil => exact hmore
  | cons item items ih => exact ⟨h.1, h.2.1, ih h.2.2⟩

theorem callsItems_append (name : String) (items more : List (String × Layout)) :
    callsItems name (items ++ more) = (callsItems name items || callsItems name more) := by
  induction items with
  | nil => rfl
  | cons item items ih =>
    rw [List.cons_append, callsItems, callsItems, ih]
    simp only [Bool.or_assoc]

section Calls

variable {name : String} (hname : name ∈ formNames)

include hname

/-- With names kept apart on both sides, the three texts call what they call by themselves. -/
theorem calls_around {before after : String} (s : String) (hbefore : endsApart before.toList = true)
    (hafter : startsApart after.toList = true) :
    calls name (before ++ s ++ after) = (calls name before || calls name s || calls name after) := by
  rw [calls_append hname (apart_of_starts hafter), calls_append hname (apart_of_ends hbefore)]

mutual

/-- On one line a layout calls what its texts call. -/
theorem Layout.Neat.calls_flat : ∀ {l : Layout}, l.Neat → Python.calls name l.flat = l.calls name
  | .atom _, _ => rfl
  | .group opening items closing, h => by
    rw [Layout.flat, calls_around hname _ h.1.apart h.2.2.apart, calls_flatItems h.2.1, Layout.calls]

theorem calls_flatItems : ∀ {items : List (String × Layout)}, NeatItems items →
    Python.calls name (flatItems items) = callsItems name items
  | [], _ => rfl
  | [(lead, l)], h => by
    rw [flatItems, calls_append hname (apart_of_ends h.1.apart), h.2.1.calls_flat, callsItems, callsItems,
      Bool.or_false]
  | (lead, l) :: item :: rest, h => by
    have hcomma : Python.calls name ", " = false := calls_of_isQuiet (by decide)
    have hseam : apart (lead ++ l.flat ++ ", ").toList (flatItems (item :: rest)).toList = true := by
      refine apart_of_ends ?_
      rw [String.toList_append, endsApart_append (by decide)]
      decide
    rw [flatItems_cons_cons, calls_append hname hseam, calls_around hname _ h.1.apart (by decide), hcomma,
      Bool.or_false, h.2.1.calls_flat, calls_flatItems h.2.2]
    rfl

end

/-- Indentation calls nothing. -/
theorem calls_indent (depth : Nat) (s : String) : calls name (indent depth ++ s) = calls name s := by
  rw [calls, String.toList_append, called_blanks_append (isName_of_mem_formNames hname) (isBlank_of_mem_indent depth)]
  rfl

mutual

/-- Breaking a layout over lines breaks no call. -/
theorem Layout.Neat.calls_rows {before after : String} (depth column : Nat) (hbefore : endsApart before.toList = true)
    (hafter : startsApart after.toList = true) : ∀ {l : Layout}, l.Neat →
    (l.rows before after depth column).any (Python.calls name) =
      (Python.calls name before || l.calls name || Python.calls name after)
  | .atom text, _ => by
    rw [Layout.rows, List.any_cons, List.any_nil, Bool.or_false, calls_around hname _ hbefore hafter, Layout.calls]
  | .group opening items closing, h => by
    have hflat : Python.calls name (opening ++ flatItems items ++ closing) = _ := Layout.Neat.calls_flat hname h
    rw [Layout.rows]
    split_ifs
    · -- the layout fits on the line
      rw [List.any_cons, List.any_nil, Bool.or_false, calls_around hname _ hbefore hafter, hflat]
    · -- the layout is broken, with its items on rows of their own
      rw [List.cons_append, List.any_cons, List.any_append, List.any_cons, List.any_nil, Bool.or_false,
        calls_append hname (apart_of_ends hbefore), calls_itemRows (depth + 1) h.2.1,
        calls_append hname (apart_of_starts hafter), calls_indent hname, Layout.calls]
      simp only [Bool.or_assoc]

theorem calls_itemRows (depth : Nat) : ∀ {items : List (String × Layout)}, NeatItems items →
    (itemRows depth items).any (Python.calls name) = callsItems name items
  | [], _ => rfl
  | (lead, l) :: rest, h => by
    have hcomma : Python.calls name "," = false := calls_of_isQuiet (by decide)
    have hbefore : endsApart (indent depth ++ lead).toList = true := endsApart_indent_append depth h.1.apart
    rw [itemRows, List.any_append, h.2.1.calls_rows depth _ hbefore (by decide), calls_itemRows depth h.2.2,
      calls_indent hname, hcomma, Bool.or_false, callsItems]

end

end Calls

/-! ### Inert rows -/

theorem newline_not_mem_indent (depth : Nat) : '\n' ∉ (indent depth).toList := by
  intro h
  rw [indent, String.toList_ofList] at h
  exact absurd (List.mem_replicate.mp h).2 (by decide)

theorem OneLine.append {s t : String} (hs : '\n' ∉ s.toList) (ht : OneLine t) (hne : t ≠ "") : OneLine (s ++ t) where
  newline := by
    rw [String.toList_append, List.mem_append, not_or]
    exact ⟨hs, ht.newline⟩
  last := by
    rw [String.toList_append, List.getLast?_append_of_ne_nil _ (by simpa using hne)]
    exact ht.last

theorem Idle.ne_empty {s : String} (h : Idle s.toList) : s ≠ "" := by
  rintro rfl
  obtain ⟨c, rest, hcs, -⟩ := h.head
  cases hcs

/-- A row is inert if it starts idle, whatever its indentation. -/
theorem inert_row {lead s : String} (depth : Nat) (hlead : Leads lead) (hs : OneLine s) (hne : s ≠ "")
    (hidle : lead = "" → Idle s.toList) : Inert (indent depth ++ lead ++ s).toList := by
  have hrow : OneLine (lead ++ s) := OneLine.append hlead.newline hs hne
  have hstart : Idle (lead ++ s).toList := by
    rw [String.toList_append]
    rcases hlead.idle with rfl | hlead
    · exact hidle rfl
    · exact hlead.append _
  rw [String.append_assoc, String.toList_append]
  refine inert_of_idle (isBlank_of_mem_indent depth) hstart ?_ hrow.last
  rw [List.mem_append, not_or]
  exact ⟨newline_not_mem_indent depth, hrow.newline⟩

mutual

/-- A layout on one line is one line. -/
theorem Layout.Neat.newline_flat : ∀ {l : Layout}, l.Neat → '\n' ∉ l.flat.toList
  | .atom _, h => h.1.newline
  | .group opening items closing, h => by
    rw [Layout.flat, String.toList_append, String.toList_append]
    simp only [List.mem_append, not_or]
    exact ⟨⟨h.1.newline, newline_flatItems h.2.1⟩, h.2.2.newline⟩

theorem newline_flatItems : ∀ {items : List (String × Layout)}, NeatItems items → '\n' ∉ (flatItems items).toList
  | [], _ => by decide
  | [(lead, l)], h => by
    rw [flatItems, String.toList_append, List.mem_append, not_or]
    exact ⟨h.1.newline, h.2.1.newline_flat⟩
  | (lead, l) :: item :: rest, h => by
    have hcomma : '\n' ∉ ", ".toList := by decide
    rw [flatItems_cons_cons]
    simp only [String.toList_append, List.mem_append, not_or]
    exact ⟨⟨⟨h.1.newline, h.2.1.newline_flat⟩, hcomma⟩, newline_flatItems h.2.2⟩

end

/-- The end of a row: a comma, or nothing. -/
theorem OneLine.ended {s after : String} (h : OneLine s) (hafter : after = "" ∨ after = ",") :
    OneLine (s ++ after) := by
  rcases hafter with rfl | rfl
  · rwa [String.append_empty]
  · exact OneLine.append h.newline ⟨by decide, by decide⟩ (by decide)

mutual

/-- The rows of a neat layout are inert, if a comma follows it or the row that it starts on is idle before it. -/
theorem Layout.Neat.inert_rows {lead after : String} (k depth column : Nat) (hlead : Leads lead) : ∀ {l : Layout},
    l.Neat → (after = "," ∨ after = "" ∧ lead ≠ "" ∧ l ≠ .atom "") →
    ∀ r ∈ l.rows (indent k ++ lead) after depth column, Inert r.toList
  | .atom text, h, hafter => by
    rw [Layout.rows, List.forall_mem_singleton, String.append_assoc]
    refine inert_row k hlead (h.1.ended (hafter.symm.imp And.left id)) ?_ ?_
    · rcases hafter with rfl | ⟨rfl, -, hne⟩
      · exact Idle.ne_empty h.2
      · rw [String.append_empty]
        rintro rfl
        exact hne rfl
    · rintro rfl
      rcases hafter with rfl | ⟨-, hne, -⟩
      · exact h.2
      · exact absurd rfl hne
  | .group opening items closing, h, hafter => by
    have hends : after = "" ∨ after = "," := hafter.symm.imp And.left id
    have hopen : ∀ s : String, Idle (opening ++ s).toList := fun s => by
      rw [String.toList_append]
      exact h.1.idle.append _
    rw [Layout.rows]
    split_ifs
    · -- on one line it starts with the opening text
      have hflat : OneLine (opening ++ flatItems items ++ closing ++ after) := by
        refine (OneLine.append ?_ h.2.2.toOneLine (Idle.ne_empty h.2.2.idle)).ended hends
        rw [String.toList_append, List.mem_append, not_or]
        exact ⟨h.1.newline, newline_flatItems h.2.1⟩
      have hidle : Idle (opening ++ flatItems items ++ closing ++ after).toList := by
        rw [String.append_assoc, String.append_assoc]
        exact hopen _
      rw [List.forall_mem_singleton, String.append_assoc]
      exact inert_row k hlead hflat (Idle.ne_empty hidle) fun _ => hidle
    · -- broken, its last row starts with the closing text
      have hclosing : Idle (closing ++ after).toList := by
        rw [String.toList_append]
        exact h.2.2.idle.append _
      rw [List.forall_mem_append, List.forall_mem_cons, List.forall_mem_singleton]
      refine ⟨⟨?_, inert_itemRows (depth + 1) h.2.1⟩, ?_⟩
      · exact inert_row k hlead h.1.toOneLine (Idle.ne_empty h.1.idle) fun _ => h.1.idle
      · have hrow := inert_row depth leads_nothing (h.2.2.toOneLine.ended hends) (Idle.ne_empty hclosing)
          fun _ => hclosing
        rwa [String.append_empty, ← String.append_assoc] at hrow

theorem inert_itemRows (depth : Nat) : ∀ {items : List (String × Layout)}, NeatItems items →
    ∀ r ∈ itemRows depth items, Inert r.toList
  | [], _ => by simp [itemRows]
  | (lead, l) :: rest, h => by
    rw [itemRows, List.forall_mem_append]
    exact ⟨h.2.1.inert_rows depth depth _ h.1 (.inl rfl), inert_itemRows depth h.2.2⟩

end

/-! ### Literals and words -/

/-- The characters that escapes are made of. -/
def escapeLetters : List Char := "\\\"nrtu0123456789abcdef".toList

theorem hexDigit_mem_escapeLetters (n : Nat) : Json.hexDigit (n % 16) ∈ escapeLetters := by
  have hall : ∀ k < 16, Json.hexDigit k ∈ escapeLetters := by decide
  exact hall _ (Nat.mod_lt n (by decide))

/-- What holds of a character and of the letters of escapes holds of all that the character is written as. -/
theorem forall_mem_escapeChar {p : Char → Bool} (hletters : escapeLetters.all p = true) {c : Char}
    (hc : c ≠ '\n' → p c = true) : ∀ d ∈ escapeChar c, p d = true := by
  have hfixed : ∀ {ds : List Char}, ds ⊆ escapeLetters → ∀ d ∈ ds, p d = true :=
    fun hsub d hd => List.all_eq_true.mp hletters d (hsub hd)
  unfold escapeChar
  split_ifs with hback hquote hnl hcr htab hcontrol
  · exact hfixed (by decide)
  · exact hfixed (by decide)
  · exact hfixed (by decide)
  · exact hfixed (by decide)
  · exact hfixed (by decide)
  · -- a control character is written with four digits
    have hlead : ['\\', 'u'] ⊆ escapeLetters := by decide
    have hhex : Json.hexFour c.toNat ⊆ escapeLetters := by simp [Json.hexFour, hexDigit_mem_escapeLetters]
    exact hfixed (List.append_subset.mpr ⟨hlead, hhex⟩)
  · exact List.forall_mem_singleton.mpr (hc hnl)

theorem forall_mem_quote {p : Char → Bool} (hletters : escapeLetters.all p = true) {s : String}
    (hs : ∀ c ∈ s.toList, c ≠ '\n' → p c = true) : ∀ d ∈ (quote s).toList, p d = true := by
  have hmark : p '"' = true := List.all_eq_true.mp hletters '"' (by decide)
  rw [quote, String.toList_ofList, List.cons_append, List.forall_mem_cons, List.forall_mem_append,
    List.forall_mem_singleton]
  refine ⟨hmark, fun d hd => ?_, hmark⟩
  obtain ⟨c, hc, hd⟩ := List.mem_flatMap.mp hd
  exact forall_mem_escapeChar hletters (hs c hc) d hd

theorem quote_eq_cons (s : String) : ∃ cs, (quote s).toList = '"' :: cs ++ ['"'] :=
  ⟨_, by rw [quote, String.toList_ofList]⟩

/-- A literal stands on one line. -/
theorem oneLine_quote (s : String) : OneLine (quote s) where
  newline hmem := by
    have hne := forall_mem_quote (p := fun c => c != '\n') (by decide) (fun c _ hc => by simpa using hc) _ hmem
    exact absurd hne (by decide)
  last := by
    obtain ⟨cs, hcs⟩ := quote_eq_cons s
    rw [hcs, List.getLast?_concat]
    decide

theorem endsApart_quote (s : String) : endsApart (quote s).toList = true := by
  obtain ⟨cs, hcs⟩ := quote_eq_cons s
  rw [hcs, endsApart, List.getLast?_concat]
  decide

/-- A row that starts with a literal is idle. -/
theorem idle_quote (s more : String) : Idle (quote s ++ more).toList := by
  obtain ⟨cs, hcs⟩ := quote_eq_cons s
  rw [String.toList_append, hcs, List.append_assoc]
  exact ⟨[], '"', _, rfl, by simp, by decide, by decide, by decide, .inl (by decide)⟩

/-- The text is made of basic Latin letters, digits and underscores. -/
def Wordy (s : String) : Prop := ∀ c ∈ s.toList, isLetter c = true

theorem wordy_text {cs : List Char} (h : cs.all isLetter = true) : Wordy (String.ofList cs) := by
  rw [Wordy, String.toList_ofList]
  exact List.all_eq_true.mp h

namespace Wordy

variable {s : String} (h : Wordy s)

include h

theorem isQuiet : isQuiet s.toList = true := by
  refine List.all_eq_true.mpr fun c hc => ?_
  have hletter := h c hc
  rw [Bool.and_eq_true, bne_iff_ne, bne_iff_ne]
  constructor <;> rintro rfl <;> exact absurd hletter (by decide)

theorem newline : '\n' ∉ s.toList := fun hmem => absurd (h _ hmem) (by decide)

theorem oneLine : OneLine s where
  newline := h.newline
  last := by
    rw [Option.all_eq_true]
    intro c hc
    rw [Bool.not_eq_true', ← Bool.not_eq_true]
    intro hblank
    have hletter := h c (List.mem_of_getLast? hc)
    rw [isLetter_of_isBlank hblank] at hletter
    cases hletter

theorem idle {c : Char} (hc : isLetter c = false ∧ c ≠ '`' ∧ c ≠ '#' ∧ isBlank c = false) (more : List Char) :
    Idle (s ++ String.ofList (c :: more)).toList := by
  rw [String.toList_append, String.toList_ofList]
  exact idle_word h hc more

theorem isQuiet_quote : Symbol.isQuiet (quote s).toList = true :=
  List.all_eq_true.mpr (forall_mem_quote (by decide) fun c hc _ => List.all_eq_true.mp h.isQuiet c hc)

theorem opens : Opens (s ++ "(") where
  toOneLine := OneLine.append h.newline ⟨by decide, by decide⟩ (by decide)
  idle := h.idle (by decide) []
  apart := by
    rw [String.toList_append, endsApart_append (by decide)]
    decide

theorem leads_keyword : Leads (s ++ "=") where
  newline := (OneLine.append h.newline ⟨by decide, by decide⟩ (by decide) : OneLine (s ++ "=")).newline
  idle := .inr (h.idle (by decide) [])
  apart := by
    rw [String.toList_append, endsApart_append (by decide)]
    decide

/-- What an assignment starts with. -/
theorem leads_binding (hne : s ≠ "") (hlead : s ∉ leadWords) : Leads (s ++ " = ") where
  newline := by
    rw [String.toList_append, List.mem_append, not_or]
    exact ⟨h.newline, by decide⟩
  idle := by
    refine .inr ⟨s.toList, ' ', ['=', ' '], String.toList_append, h, by decide, by decide, by decide, .inr ⟨?_, ?_⟩⟩
    · simpa using hne
    · intro hmem
      obtain ⟨word, hword, hsame⟩ := List.mem_map.mp hmem
      exact hlead (String.toList_inj.mp hsame ▸ hword)
  apart := by
    rw [String.toList_append, endsApart_append (by decide)]
    decide

end Wordy

/-- A text on one line that calls nothing, whatever stands around it. -/
structure Quiet (s : String) : Prop where
  newline : '\n' ∉ s.toList
  isQuiet : isQuiet s.toList = true

theorem quiet_text {cs : List Char} (h : '\n' ∉ cs ∧ isQuiet cs = true) : Quiet (String.ofList cs) where
  newline := by rw [String.toList_ofList]; exact h.1
  isQuiet := by rw [String.toList_ofList]; exact h.2

theorem Quiet.append {s t : String} (hs : Quiet s) (ht : Quiet t) : Quiet (s ++ t) where
  newline := by
    rw [String.toList_append, List.mem_append, not_or]
    exact ⟨hs.newline, ht.newline⟩
  isQuiet := by
    rw [String.toList_append, Symbol.isQuiet, List.all_append, Bool.and_eq_true]
    exact ⟨hs.isQuiet, ht.isQuiet⟩

theorem quiet_quote {s : String} (h : isQuiet (quote s).toList = true) : Quiet (quote s) :=
  ⟨(oneLine_quote s).newline, h⟩

theorem Wordy.quiet {s : String} (h : Wordy s) : Quiet s := ⟨h.newline, h.isQuiet⟩

theorem Wordy.quiet_quote {s : String} (h : Wordy s) : Quiet (quote s) := Python.quiet_quote h.isQuiet_quote

theorem leads_key (key : String) : Leads (quote key ++ ": ") where
  newline := by
    rw [String.toList_append, List.mem_append, not_or]
    exact ⟨(oneLine_quote key).newline, by decide⟩
  idle := .inr (idle_quote key _)
  apart := by
    rw [String.toList_append, endsApart_append (by decide)]
    decide

/-! ### Fixed texts around another -/

/-- Fixed texts that a row may be made of, with another text between them. -/
structure Frames (a b : List Char) : Prop where
  idle : idles (trimStart a) = true
  newlines : '\n' ∉ a ∧ '\n' ∉ b
  last : (b.getLast?.any fun c => !isBlank c) = true
  seams : endsApart a = true ∧ startsApart b = true
  silent : isSilent a = true ∧ isSilent b = true

instance (a b : List Char) : Decidable (Frames a b) :=
  decidable_of_iff (idles (trimStart a) = true ∧ ('\n' ∉ a ∧ '\n' ∉ b) ∧
      (b.getLast?.any fun c => !isBlank c) = true ∧ (endsApart a = true ∧ startsApart b = true) ∧
      isSilent a = true ∧ isSilent b = true)
    ⟨fun ⟨h₁, h₂, h₃, h₄, h₅⟩ => ⟨h₁, h₂, h₃, h₄, h₅⟩, fun h => ⟨h.idle, h.newlines, h.last, h.seams, h.silent⟩⟩

namespace Frames

variable {a b : List Char} {s : String} (h : Frames a b)

include h

theorem oneLine (hs : '\n' ∉ s.toList) : OneLine (String.ofList a ++ s ++ String.ofList b) := by
  obtain ⟨c, hc, hblank⟩ := (Option.any_eq_true _ _).mp h.last
  refine OneLine.append ?_ ⟨?_, ?_⟩ ?_
  · rw [String.toList_append, String.toList_ofList, List.mem_append, not_or]
    exact ⟨h.newlines.1, hs⟩
  · rw [String.toList_ofList]
    exact h.newlines.2
  · rw [String.toList_ofList, hc]
    exact hblank
  · intro hempty
    rw [← String.toList_ofList (l := b), hempty] at hc
    cases hc

/-- Fixed texts that are silent add no call. -/
theorem calls_framed {name : String} (hname : name ∈ formNames) :
    calls name (String.ofList a ++ s ++ String.ofList b) = calls name s := by
  obtain ⟨hsilent, hseams⟩ : (isSilent (String.ofList a).toList = true ∧ isSilent (String.ofList b).toList = true) ∧
      endsApart (String.ofList a).toList = true ∧ startsApart (String.ofList b).toList = true := by
    rw [String.toList_ofList, String.toList_ofList]
    exact ⟨h.silent, h.seams⟩
  rw [calls_around hname s hseams.1 hseams.2, calls_of_isSilent hname hsilent.1, calls_of_isSilent hname hsilent.2,
    Bool.false_or, Bool.or_false]

end Frames

/-! ### Texts that are said -/

theorem any_congr_mem {P : String → Bool} {ts us : List String} (h : ∀ t, t ∈ ts ↔ t ∈ us) : ts.any P = us.any P := by
  rw [Bool.eq_iff_iff, List.any_eq_true, List.any_eq_true]
  simp only [h]

section Says

variable (names : List String)

/-- None of the names is called in the text. -/
def Silent (s : String) : Prop := ∀ name ∈ names, calls name s = false

/-- The layout is neat, and it calls those of the names that the literals of the texts call. -/
structure Layout.Says (l : Layout) (ts : List String) : Prop where
  neat : l.Neat
  calls : ∀ name ∈ names, l.calls name = ts.any (callsQuoted name)

structure ItemsSay (items : List (String × Layout)) (ts : List String) : Prop where
  neat : NeatItems items
  calls : ∀ name ∈ names, callsItems name items = ts.any (callsQuoted name)

/-- The layout of the expression says the texts. -/
def Expr.Says (e : Expr) (ts : List String) : Prop := e.layout.Says names ts

/-- It only matters which texts there are. -/
theorem Expr.Says.congr {names ts us : List String} {e : Expr} (h : e.Says names ts) (hsame : ∀ t, t ∈ ts ↔ t ∈ us) :
    e.Says names us where
  neat := h.neat
  calls name hname := (h.calls name hname).trans (any_congr_mem hsame)

/-- The arguments of a call say the texts. -/
def ArgsSay (args : List (Option String × Expr)) (ts : List String) : Prop := ItemsSay names (layoutArgs args) ts

variable {names} {ts us : List String}

theorem silent_of_isQuiet {s : String} (h : isQuiet s.toList = true) : Silent names s := fun _ _ => calls_of_isQuiet h

/-- A call of another name. -/
theorem Wordy.silent_call {s : String} (hnames : names ⊆ formNames) (h : Wordy s) (hs : s ∉ names) :
    Silent names (s ++ "(") := by
  intro name hname
  rw [calls, String.toList_append]
  refine called_call (isName_of_mem_formNames (hnames hname)) (fun c hc => isNameChar_of_isLetter (h c hc)) ?_
  intro hsame
  exact hs (String.toList_inj.mp hsame ▸ hname)

namespace ItemsSay

theorem nil : ItemsSay names [] [] := ⟨trivial, fun _ _ => rfl⟩

theorem cons {lead : String} {l : Layout} {rest : List (String × Layout)} (hlead : Leads lead)
    (hsilent : Silent names lead) (hl : l.Says names ts) (hrest : ItemsSay names rest us) :
    ItemsSay names ((lead, l) :: rest) (ts ++ us) where
  neat := ⟨hlead, hl.neat, hrest.neat⟩
  calls name hname := by
    rw [callsItems, hsilent name hname, hl.calls name hname, hrest.calls name hname, List.any_append, Bool.false_or]

/-- A key of a dictionary is said as well. -/
theorem consKey {key : String} {l : Layout} {rest : List (String × Layout)} (hnames : names ⊆ formNames)
    (hl : l.Says names ts) (hrest : ItemsSay names rest us) :
    ItemsSay names ((quote key ++ ": ", l) :: rest) (key :: ts ++ us) where
  neat := ⟨leads_key key, hl.neat, hrest.neat⟩
  calls name hname := by
    have hcolon : Python.calls name ": " = false := calls_of_isQuiet (by decide)
    rw [callsItems, calls_append (hnames hname) (apart_of_ends (endsApart_quote key)), hcolon, Bool.or_false,
      hl.calls name hname, hrest.calls name hname, List.cons_append, List.any_cons, List.any_append, Bool.or_assoc]
    rfl

theorem append {items more : List (String × Layout)} (h : ItemsSay names items ts) (hmore : ItemsSay names more us) :
    ItemsSay names (items ++ more) (ts ++ us) where
  neat := neatItems_append h.neat hmore.neat
  calls name hname := by
    rw [callsItems_append, h.calls name hname, hmore.calls name hname, List.any_append]

/-- One item for each of a list. -/
theorem map {α : Type} {xs : List α} {item : α → Expr} {said : α → List String}
    (h : ∀ x ∈ xs, (item x).Says names (said x)) : ItemsSay names (layoutItems (xs.map item)) (xs.flatMap said) := by
  induction xs with
  | nil => exact nil
  | cons x xs ih =>
    obtain ⟨hx, hxs⟩ := List.forall_mem_cons.mp h
    exact cons leads_nothing (silent_of_isQuiet (by decide)) hx (ih hxs)

/-- One item that says nothing for each of a list. -/
theorem mapSilent {α : Type} {xs : List α} {item : α → Expr} (h : ∀ x ∈ xs, (item x).Says names []) :
    ItemsSay names (layoutItems (xs.map item)) [] := by
  have hmap := map h
  rwa [List.flatMap_eq_nil_iff.mpr fun _ _ => rfl] at hmap

theorem appendItems {items more : List Expr} (h : ItemsSay names (layoutItems items) ts)
    (hmore : ItemsSay names (layoutItems more) us) : ItemsSay names (layoutItems (items ++ more)) (ts ++ us) := by
  have happend : layoutItems (items ++ more) = layoutItems items ++ layoutItems more := by
    clear h
    induction items with
    | nil => rfl
    | cons e items ih => rw [List.cons_append, layoutItems, layoutItems, ih, List.cons_append]
  rw [happend]
  exact h.append hmore

/-- An entry with a key that calls nothing. -/
theorem consEntry {key : String} {value : Expr} {rest : List (String × Expr)} (hkey : Wordy key)
    (hvalue : value.Says names ts) (hrest : ItemsSay names (layoutEntries rest) us) :
    ItemsSay names (layoutEntries ((key, value) :: rest)) (ts ++ us) := by
  have hsilent : Silent names (quote key ++ ": ") := by
    refine silent_of_isQuiet ?_
    rw [String.toList_append, isQuiet, List.all_append, Bool.and_eq_true]
    exact ⟨hkey.isQuiet_quote, by decide⟩
  exact cons (leads_key _) hsilent hvalue hrest

/-- One entry for each of a list, with a key that calls nothing. -/
theorem mapEntries {α : Type} {xs : List α} {entry : α → String × Expr} {said : α → List String}
    (h : ∀ x ∈ xs, Wordy (entry x).1 ∧ (entry x).2.Says names (said x)) :
    ItemsSay names (layoutEntries (xs.map entry)) (xs.flatMap said) := by
  induction xs with
  | nil => exact nil
  | cons x xs ih =>
    obtain ⟨hx, hxs⟩ := List.forall_mem_cons.mp h
    exact consEntry hx.1 hx.2 (ih hxs)

/-- One entry for each of a list, where the key is said as well. -/
theorem mapKeys {α : Type} {xs : List α} {entry : α → String × Expr} {said : α → List String}
    (hnames : names ⊆ formNames) (h : ∀ x ∈ xs, (entry x).2.Says names (said x)) :
    ItemsSay names (layoutEntries (xs.map entry)) (xs.flatMap fun x => (entry x).1 :: said x) := by
  induction xs with
  | nil => exact nil
  | cons x xs ih =>
    obtain ⟨hx, hxs⟩ := List.forall_mem_cons.mp h
    exact consKey hnames hx (ih hxs)

end ItemsSay

namespace Expr

theorem says_str (s : String) : (str s).Says names [s] where
  neat := ⟨oneLine_quote s, idle_quote s ","⟩
  calls _ _ := (Bool.or_false _).symm

/-- A literal that calls nothing. -/
theorem says_word {s : String} (h : Wordy s) : (str s).Says names [] where
  neat := ⟨oneLine_quote s, idle_quote s ","⟩
  calls _ _ := calls_of_isQuiet h.isQuiet_quote

theorem itemsSay_strs (items : List String) : ItemsSay names (layoutItems (items.map str)) items := by
  have h : ItemsSay names (layoutItems (items.map str)) (items.flatMap fun s => [s]) := .map fun s _ => says_str s
  rwa [List.flatMap_singleton'] at h

/-- Literals on one line have commas between them. -/
theorem flatItems_strs (items : List String) :
    flatItems (layoutItems (items.map str)) = ", ".intercalate (items.map quote) := by
  induction items with
  | nil => rfl
  | cons s items ih =>
    cases items with
    | nil => simp [layoutItems, flatItems, layout, Layout.flat]
    | cons t items =>
      calc flatItems (layoutItems ((s :: t :: items).map str))
          = "" ++ quote s ++ ", " ++ flatItems (layoutItems ((t :: items).map str)) := flatItems_cons_cons ..
        _ = quote s ++ ", " ++ ", ".intercalate ((t :: items).map quote) := by rw [ih, String.empty_append]
        _ = ", ".intercalate ((s :: t :: items).map quote) := String.intercalate_cons_cons.symm

/-- Literals with commas between them. -/
theorem calls_intercalate (hnames : names ⊆ formNames) (items : List String) {name : String} (hname : name ∈ names) :
    Python.calls name (", ".intercalate (items.map quote)) = items.any (callsQuoted name) := by
  have h : ItemsSay names (layoutItems (items.map str)) items := itemsSay_strs items
  rw [← flatItems_strs, calls_flatItems (hnames hname) h.neat, h.calls name hname]

theorem newline_intercalate (items : List String) : '\n' ∉ (", ".intercalate (items.map quote)).toList := by
  have h : ItemsSay [] (layoutItems (items.map str)) items := itemsSay_strs items
  rw [← flatItems_strs]
  exact newline_flatItems h.neat

theorem says_ident {s : String} (h : Wordy s) : (ident s).Says names [] where
  neat := ⟨h.oneLine, h.idle (by decide) []⟩
  calls _ _ := calls_of_isQuiet h.isQuiet

theorem says_raw {s : String} (hline : OneLine s) (hidle : Idle s.toList)
    (hcalls : ∀ name ∈ names, Python.calls name s = ts.any (callsQuoted name)) : (raw s).Says names ts where
  neat := ⟨hline, by rw [String.toList_append]; exact hidle.append _⟩
  calls := hcalls

end Expr

/-- Text that stands as it is, with something said between fixed texts. -/
theorem Expr.says_framed {a b : List Char} {s : String} (hnames : names ⊆ formNames) (h : Frames a b)
    (ha : trimStart a = a) (hs : '\n' ∉ s.toList)
    (hcalls : ∀ name ∈ names, Python.calls name s = ts.any (callsQuoted name)) :
    (raw (String.ofList a ++ s ++ String.ofList b)).Says names ts := by
  refine says_raw (h.oneLine hs) ?_ fun name hname => (h.calls_framed (hnames hname)).trans (hcalls name hname)
  have hidle := idle_of_idles h.idle
  rw [ha] at hidle
  rw [String.append_assoc, String.toList_append, String.toList_ofList]
  exact hidle.append _

/-- A group says what its items say. -/
theorem ItemsSay.group {opening closing : String} {items : List (String × Layout)} (h : ItemsSay names items ts)
    (hopen : Opens opening ∧ Silent names opening) (hclose : Closes closing ∧ Silent names closing) :
    (Layout.group opening items closing).Says names ts where
  neat := ⟨hopen.1, h.neat, hclose.1⟩
  calls name hname := by
    rw [Layout.calls, hopen.2 name hname, hclose.2 name hname, h.calls name hname, Bool.false_or, Bool.or_false]

/-- A text that is written out and opens a group. -/
theorem opens_text {cs : List Char} (hline : '\n' ∉ cs ∧ (cs.getLast?.all fun c => !isBlank c) = true)
    (h : idles cs = true ∧ endsApart cs = true ∧ isQuiet cs = true) :
    Opens (String.ofList cs) ∧ Silent names (String.ofList cs) := by
  obtain ⟨hidle, hapart, hquiet⟩ := h
  rw [← String.toList_ofList (l := cs)] at hline hidle hapart hquiet
  exact ⟨⟨⟨hline.1, hline.2⟩, idle_of_idles hidle, hapart⟩, silent_of_isQuiet hquiet⟩

/-- A text that is written out and closes a group. -/
theorem closes_text {cs : List Char} (hline : '\n' ∉ cs ∧ (cs.getLast?.all fun c => !isBlank c) = true)
    (h : idles cs = true ∧ startsApart cs = true ∧ isQuiet cs = true) :
    Closes (String.ofList cs) ∧ Silent names (String.ofList cs) := by
  obtain ⟨hidle, hapart, hquiet⟩ := h
  rw [← String.toList_ofList (l := cs)] at hline hidle hapart hquiet
  exact ⟨⟨⟨hline.1, hline.2⟩, idle_of_idles hidle, hapart⟩, silent_of_isQuiet hquiet⟩

namespace Expr

theorem says_list {items : List Expr} (h : ItemsSay names (layoutItems items) ts) : (list items).Says names ts :=
  h.group (opens_text (by decide) (by decide)) (closes_text (by decide) (by decide))

theorem says_dict {entries : List (String × Expr)} (h : ItemsSay names (layoutEntries entries) ts) :
    (dict entries).Says names ts :=
  h.group (opens_text (by decide) (by decide)) (closes_text (by decide) (by decide))

theorem says_call {callee : List Char} {args : List (Option String × Expr)} (hnames : names ⊆ formNames)
    (hcallee : callee.all isLetter = true) (hnot : String.ofList callee ∉ names) (h : ArgsSay names args ts) :
    (call (String.ofList callee) args).Says names ts :=
  have hword := wordy_text hcallee
  h.group ⟨hword.opens, hword.silent_call hnames hnot⟩ (closes_text (by decide) (by decide))

/-- A call of a name that the checks of form do not know. -/
theorem says_otherCall {callee : List Char} {args : List (Option String × Expr)} (hnames : names ⊆ formNames)
    (hcallee : callee.all isLetter = true) (hnot : String.ofList callee ∉ formNames) (h : ArgsSay names args ts) :
    (call (String.ofList callee) args).Says names ts :=
  says_call hnames hcallee (fun hmem => hnot (hnames hmem)) h

theorem says_strs (items : List String) : (strs items).Says names items := says_list (itemsSay_strs items)

theorem says_idents {items : List String} (hitems : ∀ s ∈ items, Wordy s) : (idents items).Says names [] :=
  says_list (.mapSilent fun s hs => says_ident (hitems s hs))

theorem says_strDict (hnames : names ⊆ formNames) (entries : List (String × String)) :
    (strDict entries).Says names (entries.flatMap fun e => [e.1, e.2]) :=
  says_dict (.mapKeys hnames fun e _ => says_str e.2)

end Expr

namespace ArgsSay

theorem nil : ArgsSay names [] [] := ItemsSay.nil

theorem append {args more : List (Option String × Expr)} (h : ArgsSay names args ts) (hmore : ArgsSay names more us) :
    ArgsSay names (args ++ more) (ts ++ us) := by
  have happend : layoutArgs (args ++ more) = layoutArgs args ++ layoutArgs more := by
    clear h
    induction args with
    | nil => rfl
    | cons a args ih => rw [List.cons_append, layoutArgs, layoutArgs, ih, List.cons_append]
  rw [ArgsSay, happend]
  exact ItemsSay.append h hmore

/-- Arguments that say nothing more. -/
theorem appendSilent {args more : List (Option String × Expr)} (h : ArgsSay names args ts)
    (hmore : ArgsSay names more []) : ArgsSay names (args ++ more) ts :=
  List.append_nil ts ▸ h.append hmore

theorem afterSilent {args more : List (Option String × Expr)} (h : ArgsSay names args [])
    (hmore : ArgsSay names more ts) : ArgsSay names (args ++ more) ts :=
  h.append hmore

theorem kw {name : List Char} {value : Expr} (hname : name.all isLetter = true) (h : value.Says names ts) :
    ArgsSay names (Expr.kw (String.ofList name) value) ts := by
  have hword := wordy_text hname
  have hsilent : Silent names (String.ofList name ++ "=") := by
    refine silent_of_isQuiet ?_
    rw [String.toList_append, isQuiet, List.all_append, Bool.and_eq_true]
    exact ⟨hword.isQuiet, by decide⟩
  have hitem := ItemsSay.cons hword.leads_keyword hsilent h .nil
  rw [List.append_nil] at hitem
  exact hitem

theorem kwText? {name : List Char} {text : Option String} (hname : name.all isLetter = true) :
    ArgsSay names (Expr.kw? (String.ofList name) (text.map .str)) text.toList := by
  cases text with
  | none => exact nil
  | some s => exact kw hname (Expr.says_str s)

/-- An argument that is left out where it says nothing. -/
theorem kwIf {name : List Char} {value : Expr} {c : Prop} [Decidable c] (hname : name.all isLetter = true)
    (hnone : ¬c → ts = []) (h : value.Says names ts) :
    ArgsSay names (Expr.kw? (String.ofList name) (if c then some value else none)) ts := by
  split_ifs with hc
  · exact kw hname h
  · rw [hnone hc]
    exact nil

theorem kwUnless {name : List Char} {value : Expr} {c : Prop} [Decidable c] (hname : name.all isLetter = true)
    (hnone : c → ts = []) (h : value.Says names ts) :
    ArgsSay names (Expr.kw? (String.ofList name) (if c then none else some value)) ts := by
  split_ifs with hc
  · rw [hnone hc]
    exact nil
  · exact kw hname h

/-- An argument without a name. -/
theorem positional {value : Expr} (h : value.Says names ts) : ArgsSay names [(none, value)] ts := by
  have hitem := ItemsSay.cons leads_nothing (silent_of_isQuiet (by decide)) h .nil
  rw [List.append_nil] at hitem
  exact hitem

end ArgsSay

end Says

/-! ### Plain rows -/

/-- The rows are inert, and they call those of the names that the literals of the texts call. -/
structure Plain (names ts rows : List String) : Prop where
  inert : ∀ r ∈ rows, Inert r.toList
  calls : ∀ name ∈ names, rows.any (calls name) = ts.any (callsQuoted name)

/-- The row is idle, without blanks at its end. -/
def isIdleRow (cs : List Char) : Bool :=
  idles (trimStart cs) && !cs.contains '\n' && (cs.getLast?.any fun c => !isBlank c)

/-- The row is inert and calls no name that the checks of form know. An idle row is the common case. -/
def isFixed (cs : List Char) : Bool := (isIdleRow cs || decide (Inert cs)) && isSilent cs

theorem inert_of_isIdleRow {cs : List Char} (h : isIdleRow cs = true) : Inert cs := by
  obtain ⟨⟨hidle, hnewline⟩, hlast⟩ : (idles (trimStart cs) = true ∧ (!cs.contains '\n') = true) ∧
      (cs.getLast?.any fun c => !isBlank c) = true := by simpa only [isIdleRow, Bool.and_eq_true] using h
  -- the row is what it is without its indentation, and the indentation
  have hsplit : cs.takeWhile isBlank ++ trimStart cs = cs := List.takeWhile_append_dropWhile
  have hstart := idle_of_idles hidle
  obtain ⟨d, rest, hrest, -⟩ := hstart.head
  have hlast' : ((trimStart cs).getLast?.all fun c => !isBlank c) = true := by
    obtain ⟨c, hc, hblank⟩ := (Option.any_eq_true _ _).mp hlast
    rw [← hsplit, List.getLast?_append_of_ne_nil _ (by rw [hrest]; exact List.cons_ne_nil _ _)] at hc
    rw [hc]
    exact hblank
  have hinert := inert_of_idle (fun c hc => List.mem_takeWhile_imp hc) hstart
    (by rw [hsplit]; simpa using hnewline) hlast'
  rwa [hsplit] at hinert

/-- Blanks before a row that is not blank leave it inert. -/
theorem inert_replicate {l : List Char} (h : Inert l) (hl : l.all isBlank = false) (n : Nat) :
    Inert (List.replicate n ' ' ++ l) := by
  have hstep : Inert (List.replicate n ' ' ++ l) ∧ (List.replicate n ' ' ++ l).all isBlank = false := by
    induction n with
    | zero => exact ⟨h, hl⟩
    | succ n ih =>
      rw [List.replicate_succ, List.cons_append, List.all_cons, ih.2, Bool.and_false]
      exact ⟨ih.1.space ih.2, rfl⟩
  exact hstep.1

namespace Plain

variable {names ts us rows more : List String}

theorem nil : Plain names [] [] := ⟨List.forall_mem_nil _, fun _ _ => by rw [List.any_nil, List.any_nil]⟩

theorem append (h : Plain names ts rows) (hmore : Plain names us more) : Plain names (ts ++ us) (rows ++ more) where
  inert := List.forall_mem_append.mpr ⟨h.inert, hmore.inert⟩
  calls name hname := by rw [List.any_append, List.any_append, h.calls name hname, hmore.calls name hname]

theorem appendSilent (h : Plain names ts rows) (hmore : Plain names [] more) : Plain names ts (rows ++ more) :=
  List.append_nil ts ▸ h.append hmore

theorem flatMap {α : Type} {xs : List α} {rows said : α → List String} (h : ∀ x ∈ xs, Plain names (said x) (rows x)) :
    Plain names (xs.flatMap said) (xs.flatMap rows) := by
  induction xs with
  | nil => exact nil
  | cons x xs ih =>
    obtain ⟨hx, hxs⟩ := List.forall_mem_cons.mp h
    rw [List.flatMap_cons, List.flatMap_cons]
    exact hx.append (ih hxs)

/-- One silent row for each of a list. -/
theorem map {α : Type} {xs : List α} {row : α → String} (h : ∀ x ∈ xs, Plain names [] [row x]) :
    Plain names [] (xs.map row) := by
  induction xs with
  | nil => exact nil
  | cons x xs ih =>
    obtain ⟨hx, hxs⟩ := List.forall_mem_cons.mp h
    exact hx.append (ih hxs)

theorem ite (c : Prop) [Decidable c] (h : Plain names [] rows) : Plain names [] (if c then rows else []) := by
  split_ifs
  · exact h
  · exact nil

theorem congr (h : Plain names ts rows) (hsame : ∀ t, t ∈ ts ↔ t ∈ us) : Plain names us rows where
  inert := h.inert
  calls name hname := (h.calls name hname).trans (any_congr_mem hsame)

theorem closed {r : String} (hnames : names ⊆ formNames) (h : isFixed r.toList = true) (hrows : Plain names ts rows) :
    Plain names ts (r :: rows) := by
  obtain ⟨hrow, hsilent⟩ := Bool.and_eq_true_iff.mp h
  refine ⟨List.forall_mem_cons.mpr ⟨?_, hrows.inert⟩, fun name hname => ?_⟩
  · rcases Bool.or_eq_true_iff.mp hrow with hidle | hinert
    · exact inert_of_isIdleRow hidle
    · exact of_decide_eq_true hinert
  · rw [List.any_cons, calls_of_isSilent (hnames hname) hsilent, Bool.false_or, hrows.calls name hname]

/-- A row that is written out. -/
theorem fixed {cs : List Char} (hnames : names ⊆ formNames) (h : isFixed cs = true) (hrows : Plain names ts rows) :
    Plain names ts (String.ofList cs :: rows) :=
  closed hnames (by rwa [String.toList_ofList]) hrows

/-- A literal without parentheses calls nothing. -/
theorem unsaid {t : String} (h : Plain names (t :: ts) rows) (ht : isQuiet (quote t).toList = true) :
    Plain names ts rows where
  inert := h.inert
  calls name hname := by
    have hquiet : callsQuoted name t = false := calls_of_isQuiet ht
    rw [h.calls name hname, List.any_cons, hquiet, Bool.false_or]

/-- The row of a text that says something between fixed texts. -/
theorem framed {a b : List Char} {s : String} (hnames : names ⊆ formNames) (h : Frames a b) (hs : '\n' ∉ s.toList)
    (hcalls : ∀ name ∈ names, Python.calls name s = ts.any (callsQuoted name)) :
    Plain names ts [String.ofList a ++ s ++ String.ofList b] where
  inert := by
    have hblanks : ∀ c ∈ a.takeWhile isBlank, isBlank c = true := fun c hc => List.mem_takeWhile_imp hc
    have hrow : (String.ofList a ++ s ++ String.ofList b).toList =
        a.takeWhile isBlank ++ (trimStart a ++ (s.toList ++ b)) := by
      rw [← List.append_assoc, trimStart, List.takeWhile_append_dropWhile]
      simp
    have hidle : Idle (trimStart a ++ (s.toList ++ b)) := (idle_of_idles h.idle).append _
    have hline := h.oneLine hs
    rw [List.forall_mem_singleton, hrow]
    refine inert_of_idle hblanks hidle (hrow ▸ hline.newline) ?_
    obtain ⟨c, rest, hcs, -⟩ := hidle.head
    have hlast := hline.last
    rwa [hrow, List.getLast?_append_of_ne_nil _ (by rw [hcs]; exact List.cons_ne_nil _ _)] at hlast
  calls name hname := by
    rw [List.any_cons, List.any_nil, Bool.or_false, h.calls_framed (hnames hname), hcalls name hname]

/-- A row with something quiet between fixed texts. -/
theorem quietly {a b : List Char} {s : String} (hnames : names ⊆ formNames) (h : Frames a b) (hs : Quiet s)
    (hrows : Plain names ts rows) : Plain names ts ((String.ofList a ++ s ++ String.ofList b) :: rows) := by
  have hrow : Plain names [] [String.ofList a ++ s ++ String.ofList b] :=
    framed hnames h hs.newline fun _ _ => calls_of_isQuiet hs.isQuiet
  exact hrow.append hrows

/-- The fixed text before it may be put together around a name. -/
theorem quietlyAround {a x b c : List Char} {s : String} (hnames : names ⊆ formNames) (h : Frames (a ++ x ++ b) c)
    (hs : Quiet s) (hrows : Plain names ts rows) :
    Plain names ts ((String.ofList a ++ String.ofList x ++ String.ofList b ++ s ++ String.ofList c) :: rows) := by
  rw [← String.ofList_append, ← String.ofList_append]
  exact quietly hnames h hs hrows

theorem quoted {a b : List Char} (hnames : names ⊆ formNames) (h : Frames a b) (text : String) :
    Plain names [text] [String.ofList a ++ quote text ++ String.ofList b] :=
  framed hnames h (oneLine_quote text).newline fun _ _ => (Bool.or_false _).symm

/-- Rows may be indented. -/
theorem indented (hnames : names ⊆ formNames) (h : Plain names ts rows) (depth : Nat) :
    Plain names ts (indentedRows depth rows) where
  inert r hr := by
    obtain ⟨l, hl, rfl⟩ := List.mem_map.mp hr
    split_ifs with hblank
    · exact by decide
    · have hsome : l.toList.all isBlank = false := by simpa [Text.blank] using hblank
      rw [String.toList_append, indent, String.toList_ofList]
      exact inert_replicate (h.inert l hl) hsome _
  calls name hname := by
    rw [indentedRows, List.any_map, ← h.calls name hname]
    congr 1
    funext l
    rw [Function.comp_apply]
    split_ifs with hblank
    · rw [calls_of_isQuiet (isQuiet_of_blanks (List.all_eq_true.mp hblank))]
      rfl
    · exact calls_indent (hnames hname) depth l

/-- An assignment says what its value says. -/
theorem assign {x : String} {e : Expr} (role : Role) (hnames : names ⊆ formNames) (hx : Wordy x)
    (hne : x ≠ "" ∧ x ∉ leadWords) (h : e.Says names ts) (hatom : e.layout ≠ .atom "") :
    Plain names ts (Decl.assign x role e).rows where
  inert := by
    have hlead := hx.leads_binding hne.1 hne.2
    have hempty : x ++ " = " ≠ "" := by simp
    rw [Decl.rows_assign]
    exact h.neat.inert_rows 0 0 (x.utf8ByteSize + 3) hlead (.inr ⟨rfl, hempty, hatom⟩)
  calls name hname := by
    have hlead := hx.leads_binding hne.1 hne.2
    have hquiet : Python.calls name (x ++ " = ") = false := by
      refine calls_of_isQuiet ?_
      rw [String.toList_append, isQuiet, List.all_append, Bool.and_eq_true]
      exact ⟨hx.isQuiet, by decide⟩
    rw [Decl.rows_assign, h.neat.calls_rows (hnames hname) 0 _ hlead.apart (by decide), h.calls name hname, hquiet,
      Bool.false_or]
    exact Bool.or_false _

end Plain

end AgentFlow.Python
