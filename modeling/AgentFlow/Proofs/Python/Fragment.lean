import AgentFlow.Proofs.Bracket.Reader
import AgentFlow.Python.Literal

/-!
# Fragments of code

A fragment is complete if a reader that comes to it in code leaves it in code with the same brackets open, whatever
follows. The literal of the empty text is not quite complete, since a third quote right after it would change its
meaning; such a fragment is separable. Literals of any text are separable and docstrings of any text are complete,
which is what keeps text of users from being read as code.
-/

namespace AgentFlow.Python

open AgentFlow.Bracket AgentFlow.Bracket.Reader

variable {s t : String}

/-- To a reader in code it is as if the fragment were not there. -/
def Complete (t : String) : Prop :=
  ∀ stack rest, read ⟨.code, stack⟩ (t.toList ++ rest) = read ⟨.code, stack⟩ rest

/-- The fragment is complete before anything but a double quote. -/
def Separable (t : String) : Prop :=
  ∀ stack c rest, c ≠ '"' → read ⟨.code, stack⟩ (t.toList ++ c :: rest) = read ⟨.code, stack⟩ (c :: rest)

/-- Between the two texts a separable fragment becomes part of a complete one. -/
def Wraps (opening closing : String) : Prop := ∀ inner, Separable inner → Complete (opening ++ inner ++ closing)

/-! ### Putting fragments together -/

theorem Complete.separable (h : Complete t) : Separable t := fun stack c rest _ => h stack (c :: rest)

theorem complete_empty : Complete "" := fun _ _ => rfl

theorem Complete.append (hs : Complete s) (ht : Complete t) : Complete (s ++ t) := by
  intro stack rest
  rw [String.toList_append, List.append_assoc, hs, ht]

theorem Complete.append_separable (hs : Complete s) (ht : Separable t) : Separable (s ++ t) := by
  intro stack c rest hc
  rw [String.toList_append, List.append_assoc, hs, ht stack c rest hc]

theorem Complete.read (h : Complete t) : start.read t.toList = some start := by
  have hread := h [] []
  rw [List.append_nil] at hread
  exact hread

/-- What is read with no open bracket is read in the same way under any. -/
theorem complete_of_read (h : start.read t.toList = some start) : Complete t := by
  intro stack rest
  have hunder : read ⟨.code, stack⟩ t.toList = some ⟨.code, stack⟩ := read_under h stack
  rw [read_append, hunder]
  rfl

theorem complete_of_isPlain (h : ∀ c ∈ t.toList, isPlain c = true) : Complete t :=
  complete_of_read (read_code_of_isPlain h [])

/-! ### Given texts

A text that is written out unfolds to the list of its characters and is read as that list, which can be decided. -/

section Given

variable {cs ds : List Char}

theorem complete_text (h : start.read cs = some start) : Complete (String.ofList cs) :=
  complete_of_read (by rw [String.toList_ofList]; exact h)

/-- The second text closes what the first one opens. -/
def Embraces (opened cs ds : List Char) : Prop :=
  start.read cs = some ⟨.code, opened⟩ ∧ read ⟨.code, opened⟩ ds = some start ∧ ds.head?.any (· != '"') = true

instance (opened cs ds : List Char) : Decidable (Embraces opened cs ds) := inferInstanceAs (Decidable (_ ∧ _ ∧ _))

/-- What is opened before a fragment is closed after it. -/
theorem wraps_text (opened : List Char) (h : Embraces opened cs ds) :
    Wraps (String.ofList cs) (String.ofList ds) := by
  obtain ⟨hopening, hclosing, hapart⟩ := h
  intro inner hinner base rest
  have hopen : read ⟨.code, base⟩ cs = some ⟨.code, opened ++ base⟩ := read_under hopening base
  have hclose : read ⟨.code, opened ++ base⟩ ds = some ⟨.code, base⟩ := read_under hclosing base
  simp only [String.toList_append, String.toList_ofList, List.append_assoc]
  rw [read_append, hopen, Option.bind_some]
  cases ds with
  | nil => cases hapart
  | cons d ds =>
    rw [List.cons_append, hinner _ d _ (by simpa using hapart), ← List.cons_append, read_append, hclose,
      Option.bind_some]

/-- A fragment between two texts of which one closes what the other opens. -/
theorem Separable.wrapped (hs : Separable s) (opened : List Char) (h : Embraces opened cs ds) :
    Complete (String.ofList cs ++ s ++ String.ofList ds) :=
  wraps_text opened h s hs

theorem Separable.append_text (hs : Separable s) (h : Embraces [] [] ds) : Complete (s ++ String.ofList ds) := by
  have hwrapped := hs.wrapped [] h
  rw [String.ofList_nil, String.empty_append] at hwrapped
  exact hwrapped

theorem separable_nil : ∀ l ∈ ([] : List String), Separable l := by simp

theorem separable_cons {ls : List String} (h : start.read cs = some start) (hls : ∀ l ∈ ls, Separable l) :
    ∀ l ∈ String.ofList cs :: ls, Separable l :=
  List.forall_mem_cons.mpr ⟨(complete_text h).separable, hls⟩

end Given

/-- Something complete may come before. -/
theorem Wraps.after {opening closing : String} (h : Wraps opening closing) (hs : Complete s) :
    Wraps (s ++ opening) closing := by
  intro inner hinner
  have hassoc : s ++ opening ++ inner ++ closing = s ++ (opening ++ inner ++ closing) := by
    simp only [String.append_assoc]
  rw [hassoc]
  exact hs.append (h inner hinner)

/-! ### Fragments in lists -/

theorem complete_join {l : List String} (h : ∀ t ∈ l, Complete t) : Complete (String.join l) := by
  induction l with
  | nil => exact complete_empty
  | cons t l ih =>
    obtain ⟨ht, hl⟩ := List.forall_mem_cons.mp h
    rw [String.join_cons]
    exact ht.append (ih hl)

/-- Commas part fragments. -/
theorem separable_intercalate {l : List String} (h : ∀ t ∈ l, Separable t) : Separable (", ".intercalate l) := by
  induction l with
  | nil => exact complete_empty.separable
  | cons t l ih =>
    obtain ⟨ht, hl⟩ := List.forall_mem_cons.mp h
    cases l with
    | nil => exact ht
    | cons u l =>
      rw [String.intercalate_cons_cons]
      exact (ht.append_text (by decide)).append_separable (ih hl)

/-! ### Literals -/

theorem isPlain_hexDigit (n : Nat) : isPlain (Json.hexDigit (n % 16)) = true := by
  have hall : ∀ k < 16, isPlain (Json.hexDigit k) = true := by decide
  exact hall _ (Nat.mod_lt n (by decide))

theorem isPlain_hexFour (n : Nat) : ∀ c ∈ Json.hexFour n, isPlain c = true := by
  simp [Json.hexFour, isPlain_hexDigit]

section Literal

variable (stack : List Char)

/-- What stands for a character in a literal stays inside it. -/
theorem read_escapeChar (c : Char) (rest : List Char) :
    read ⟨.literal .double false, stack⟩ (escapeChar c ++ rest) = read ⟨.literal .double false, stack⟩ rest := by
  unfold escapeChar
  split_ifs with hback hquote hnl hcr htab hcontrol
  · rfl
  · rfl
  · rfl
  · rfl
  · rfl
  · have hlead : ∀ digits, read ⟨.literal .double false, stack⟩ ('\\' :: 'u' :: digits) =
        read ⟨.literal .double false, stack⟩ digits := fun _ => rfl
    rw [List.cons_append, List.cons_append, hlead, read_append, read_literal_of_isPlain (isPlain_hexFour _)]
    rfl
  · have hquote' : c ≠ Quote.double.char := hquote
    simp [read_cons, step, inLiteral, hback, hnl, hquote']

/-- So it does in a docstring. -/
theorem read_escapedDoc (c : Char) (rest : List Char) :
    read ⟨.literal .double true, stack⟩ (escapeDocChar c ++ rest) = read ⟨.literal .double true, stack⟩ rest := by
  unfold escapeDocChar
  split_ifs with hback hquote
  · rfl
  · rfl
  · have hquote' : c ≠ Quote.double.char := hquote
    simp [read_cons, step, inLiteral, hback, hquote']

/-- Reading goes through a list piece by piece. -/
theorem read_flatMap {r : Reader} {f : Char → List Char} (hf : ∀ c rest, r.read (f c ++ rest) = r.read rest)
    (cs rest : List Char) : r.read (cs.flatMap f ++ rest) = r.read rest := by
  induction cs with
  | nil => rfl
  | cons c cs ih => rw [List.flatMap_cons, List.append_assoc, hf, ih]

theorem head?_escapeChar (c : Char) : ∃ d ds, escapeChar c = d :: ds ∧ d ≠ '"' := by
  unfold escapeChar
  split_ifs with hback hquote
  all_goals first | exact ⟨_, _, rfl, by decide⟩ | exact ⟨c, [], rfl, hquote⟩

end Literal

/-- A literal is complete, unless a quote follows an empty one. -/
theorem separable_quote (s : String) : Separable (quote s) := by
  intro stack c rest hc
  have hcode : read ⟨.opened .double true, stack⟩ (c :: rest) = read ⟨.code, stack⟩ (c :: rest) := by
    have hc' : c ≠ Quote.double.char := hc
    simp only [read_cons, step, hc', if_false]
  simp only [quote, String.toList_ofList, List.cons_append, List.append_assoc]
  cases hs : s.toList with
  -- after two quotes only a third one would matter
  | nil => exact hcode
  | cons x xs =>
    -- the quote is followed by another character, so it opened a plain literal
    obtain ⟨d, ds, hd, hne⟩ := head?_escapeChar x
    have hplain : ∀ tail, read ⟨.opened .double false, stack⟩ (escapeChar x ++ tail) =
        read ⟨.literal .double false, stack⟩ (escapeChar x ++ tail) := by
      intro tail
      have hne' : d ≠ Quote.double.char := hne
      simp only [hd, List.cons_append, read_cons, step, hne', if_false]
    rw [List.flatMap_cons, List.append_assoc]
    refine (hplain _).trans ?_
    rw [read_escapeChar, read_flatMap (read_escapeChar stack)]
    rfl

theorem complete_docstring (s : String) : Complete (docstring s) := by
  intro stack rest
  have hquotes : "\"\"\"".toList = ['"', '"', '"'] := by decide
  have hopening : ∀ tail, read ⟨.code, stack⟩ ('"' :: '"' :: '"' :: tail) =
      read ⟨.literal .double true, stack⟩ tail := fun _ => rfl
  have hclosing : read ⟨.literal .double true, stack⟩ ('"' :: '"' :: '"' :: rest) = read ⟨.code, stack⟩ rest := rfl
  rw [docstring, String.toList_append, String.toList_append, hquotes, String.toList_ofList, List.append_assoc,
    List.append_assoc]
  simp only [List.cons_append, List.nil_append]
  rw [hopening, read_flatMap (read_escapedDoc stack), hclosing]

end AgentFlow.Python
