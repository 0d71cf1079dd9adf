import AgentFlow.Proofs.Check.Cut
import AgentFlow.Proofs.Python.Faithful
import AgentFlow.Proofs.Python.Rows

/-!
# What cleaning leaves of a docstring

Cleaning edits a module line by line and does not ask which lines belong to a docstring. Of the rows of a docstring,
the first stands behind the opening quotes and the last before the closing ones, so neither is a fence, and no blank
ends the last. The rows between them go if they look like fences, and all rows but the last lose the blanks at their
ends (`keptDoc`). The docstring stays a literal, but it stands for the rows that are kept.
-/

namespace AgentFlow

open Text

namespace Source

/-! ### Line by line -/

/-- The text that cleaning leaves, before it cuts at the ends. -/
def tidied (cs : List Char) : List Char := unlines (kept (lines cs))

theorem tidied_append_newline (a b : List Char) : tidied (a ++ '\n' :: b) = tidied (a ++ ['\n']) ++ tidied b := by
  rw [tidied, lines_append_newline, kept_append, unlines, List.flatMap_append]
  rfl

theorem isFence_of_cutFrom {k l : List Char} (h : CutFrom k l) : isFence k = isFence l := by
  rw [isFence, isFence, trim, trim, h.trimStart.trimEnd_eq]

/-- A line is left out if it is a fence, and loses the blanks at its end otherwise. -/
theorem tidied_line {l : List Char} (hl : '\n' ∉ l) :
    tidied (l ++ ['\n']) = if isFence l then [] else trimEnd l ++ ['\n'] := by
  obtain ⟨k, hk, hcut⟩ := exists_lines_concat hl
  rw [tidied, hk, ← isFence_of_cutFrom hcut, ← hcut.trimEnd_eq]
  cases hfence : isFence k <;> simp [kept, hfence, unlines]

theorem tidied_unlines {ls : List (List Char)} (h : ∀ l ∈ ls, Detect.Stays l) : tidied (unlines ls) = unlines ls := by
  rw [tidied, lines_unlines fun l hl => (h l hl).single, kept_eq_self h]

/-- A line with a quote or a backslash in it is no fence. -/
theorem isFence_of_mem_quote {l : List Char} {c : Char} (hl : '\n' ∉ l) (hmem : c ∈ l) (hc : c = '"' ∨ c = '\\') :
    isFence l = false := by
  rw [← Bool.not_eq_true]
  intro hfence
  have hplain := Bracket.Reader.isPlain_of_isFence hl hfence c hmem
  rcases hc with rfl | rfl <;> exact absurd hplain (by decide)

open AgentFlow.Bracket.Reader in
/-- To a reader a text that ends with a newline is as it was. -/
theorem read_tidied {a : List Char} {r : Bracket.Reader} (h : start.read (a ++ ['\n']) = some r) :
    start.read (tidied (a ++ ['\n'])) = some r :=
  (AtLine.code []).read_trimmed (fun _ hl => newline_not_mem_of_mem_lines hl) (read_unlines_lines h)

/-! ### The rows of a text -/

/-- What is left of the rows below the first one. -/
def keptBelow : List (List Char) → List (List Char)
  | [] => []
  | [last] => [last]
  | row :: rows => if isFence row then keptBelow rows else trimEnd row :: keptBelow rows

/-- What is left of rows of which the first and the last stand next to quotes. -/
def keptRows : List (List Char) → List (List Char)
  | [] => []
  | [row] => [row]
  | first :: rows => trimEnd first :: keptBelow rows

/-- What is left of a text between quotes. -/
def keptDoc (text : List Char) : List Char := ['\n'].intercalate (keptRows (text.splitOn '\n'))

/-- Nothing is taken away: no row but the last ends with a blank, and none between the first and the last is a fence. -/
structure Unmarred (rows : List (List Char)) : Prop where
  ends : ∀ row ∈ rows.dropLast, trimEnd row = row
  fences : ∀ row ∈ rows.dropLast.tail, isFence row = false

section Rows

variable {rows : List (List Char)}

theorem keptBelow_cons (row : List Char) (hne : rows ≠ []) :
    keptBelow (row :: rows) = if isFence row then keptBelow rows else trimEnd row :: keptBelow rows := by
  cases rows with
  | nil => exact absurd rfl hne
  | cons next rows => rw [keptBelow]; exact hne

theorem keptBelow_ne_nil (hne : rows ≠ []) : keptBelow rows ≠ [] := by
  induction rows with
  | nil => exact absurd rfl hne
  | cons row rows ih =>
    by_cases hrows : rows = []
    · rw [hrows, keptBelow]
      exact List.cons_ne_nil row []
    · rw [keptBelow_cons row hrows]
      split_ifs
      · exact ih hrows
      · exact List.cons_ne_nil _ _

theorem length_keptBelow_le (rows : List (List Char)) : (keptBelow rows).length ≤ rows.length := by
  induction rows with
  | nil => exact Nat.le_refl 0
  | cons row rows ih =>
    by_cases hrows : rows = []
    · rw [hrows, keptBelow]
    · rw [keptBelow_cons row hrows]
      split_ifs
      · exact Nat.le_succ_of_le ih
      · exact Nat.succ_le_succ ih

/-- No row is taken away, and none but the last has a blank at its end. -/
theorem keptBelow_eq_self_iff :
    keptBelow rows = rows ↔ ∀ row ∈ rows.dropLast, trimEnd row = row ∧ isFence row = false := by
  induction rows with
  | nil => simp [keptBelow]
  | cons row rows ih =>
    by_cases hrows : rows = []
    · simp [hrows, keptBelow]
    · rw [keptBelow_cons row hrows, List.dropLast_cons_of_ne_nil hrows, List.forall_mem_cons, ← ih]
      split_ifs with hfence
      · -- with a fence taken away, there are fewer rows
        refine ⟨fun hself => ?_, fun h => absurd h.1.2 (by simp [hfence])⟩
        have hlength := length_keptBelow_le rows
        rw [hself, List.length_cons] at hlength
        omega
      · simp only [List.cons.injEq, Bool.not_eq_true] at hfence ⊢
        rw [and_iff_left hfence]

theorem keptRows_cons (first : List Char) (hne : rows ≠ []) :
    keptRows (first :: rows) = trimEnd first :: keptBelow rows := by
  cases rows with
  | nil => exact absurd rfl hne
  | cons next rows => rw [keptRows]; exact hne

theorem keptRows_ne_nil (hne : rows ≠ []) : keptRows rows ≠ [] := by
  cases rows with
  | nil => exact absurd rfl hne
  | cons first rows =>
    by_cases hrows : rows = []
    · rw [hrows, keptRows]
      exact List.cons_ne_nil first []
    · rw [keptRows_cons first hrows]
      exact List.cons_ne_nil _ _

theorem keptRows_eq_self_iff : keptRows rows = rows ↔ Unmarred rows := by
  cases rows with
  | nil => exact ⟨fun _ => ⟨by simp, by simp⟩, fun _ => rfl⟩
  | cons first rows =>
    by_cases hrows : rows = []
    · rw [hrows]
      exact ⟨fun _ => ⟨by simp, by simp⟩, fun _ => rfl⟩
    · rw [keptRows_cons first hrows, List.cons.injEq, keptBelow_eq_self_iff]
      have hinner : (first :: rows).dropLast = first :: rows.dropLast := List.dropLast_cons_of_ne_nil hrows
      refine ⟨fun ⟨hfirst, hbelow⟩ => ⟨?_, ?_⟩, fun ⟨hends, hfences⟩ => ?_⟩
      · rw [hinner]
        exact List.forall_mem_cons.mpr ⟨hfirst, fun row hrow => (hbelow row hrow).1⟩
      · rw [hinner]
        exact fun row hrow => (hbelow row hrow).2
      · rw [hinner] at hends hfences
        obtain ⟨hfirst, hends⟩ := List.forall_mem_cons.mp hends
        exact ⟨hfirst, fun row hrow => ⟨hends row hrow, hfences row hrow⟩⟩

/-! ### The characters that are left -/

theorem newline_not_mem_splitOn {text row : List Char} (h : row ∈ text.splitOn '\n') : '\n' ∉ row := by
  induction text generalizing row with
  | nil => simp_all
  | cons c text ih =>
    rw [List.splitOn_cons_eq_if_modifyHead] at h
    split_ifs at h with hc
    · rcases List.mem_cons.mp h with rfl | h
      · exact List.not_mem_nil
      · exact ih h
    · obtain ⟨first, rows, hrows⟩ := List.exists_cons_of_ne_nil (List.splitOn_ne_nil '\n' text)
      rw [hrows] at h ih
      rcases List.mem_cons.mp h with rfl | h
      · have hfirst : '\n' ∉ first := ih List.mem_cons_self
        have hne : c ≠ '\n' := by simpa using hc
        exact fun hmem => (List.mem_cons.mp hmem).elim (fun heq => hne heq.symm) hfirst
      · exact ih (List.mem_cons_of_mem first h)

theorem not_mem_trimEnd {c : Char} {l : List Char} (h : c ∉ l) : c ∉ trimEnd l := by
  obtain ⟨blanks, -, hl⟩ := cutFrom_trimEnd l
  exact fun hmem => h (hl ▸ List.mem_append_left blanks hmem)

theorem not_mem_keptBelow {c : Char} (h : ∀ row ∈ rows, c ∉ row) : ∀ row ∈ keptBelow rows, c ∉ row := by
  induction rows with
  | nil => simp [keptBelow]
  | cons row rows ih =>
    obtain ⟨hrow, hbelow⟩ := List.forall_mem_cons.mp h
    by_cases hrows : rows = []
    · simpa [hrows, keptBelow] using hrow
    · rw [keptBelow_cons row hrows]
      split_ifs
      · exact ih hbelow
      · exact List.forall_mem_cons.mpr ⟨not_mem_trimEnd hrow, ih hbelow⟩

/-- Cleaning puts no character into a row. -/
theorem not_mem_keptRows {c : Char} (h : ∀ row ∈ rows, c ∉ row) : ∀ row ∈ keptRows rows, c ∉ row := by
  cases rows with
  | nil => simp [keptRows]
  | cons first rows =>
    obtain ⟨hfirst, hbelow⟩ := List.forall_mem_cons.mp h
    by_cases hrows : rows = []
    · simpa [hrows, keptRows] using hfirst
    · rw [keptRows_cons first hrows]
      exact List.forall_mem_cons.mpr ⟨not_mem_trimEnd hfirst, not_mem_keptBelow hbelow⟩

theorem mem_intercalate_newline_iff {c : Char} (hc : c ≠ '\n') :
    c ∈ ['\n'].intercalate rows ↔ ∃ row ∈ rows, c ∈ row := by
  induction rows with
  | nil => simp
  | cons row rows ih =>
    by_cases hrows : rows = []
    · simp [hrows]
    · simp [List.intercalate_cons_of_ne_nil hrows, ih, hc]

/-- Cleaning puts no character into a text. -/
theorem not_mem_keptDoc {c : Char} {text : List Char} (hc : c ≠ '\n') (h : c ∉ text) : c ∉ keptDoc text := by
  have hsplit : ['\n'].intercalate (text.splitOn '\n') = text := List.intercalate_splitOn '\n'
  rw [← hsplit, mem_intercalate_newline_iff hc] at h
  rw [keptDoc, mem_intercalate_newline_iff hc]
  rintro ⟨row, hrow, hmem⟩
  exact not_mem_keptRows (fun row hrow hmem => h ⟨row, hrow, hmem⟩) row hrow hmem

/-- A text stays as it is if its rows do. -/
theorem keptDoc_eq_self_iff {text : List Char} : keptDoc text = text ↔ Unmarred (text.splitOn '\n') := by
  have hne := List.splitOn_ne_nil '\n' text
  rw [← keptRows_eq_self_iff]
  constructor
  · intro hself
    have hrows : ∀ row ∈ keptRows (text.splitOn '\n'), '\n' ∉ row :=
      not_mem_keptRows fun row hrow => newline_not_mem_splitOn hrow
    have hsplit := List.splitOn_intercalate '\n' hrows (keptRows_ne_nil hne)
    exact hsplit.symm.trans (congrArg (List.splitOn '\n') hself)
  · intro hself
    rw [keptDoc, hself, List.intercalate_splitOn]

end Rows

end Source

namespace Python

open Source

/-! ### Rows in a docstring -/

section Escape

variable {row : List Char}

theorem newline_not_mem_escapeDoc (h : '\n' ∉ row) : '\n' ∉ escapeDoc row := by
  intro hmem
  obtain ⟨c, hc, hnl⟩ := List.mem_flatMap.mp hmem
  have hne : '\n' ≠ c := fun heq => h (heq ▸ hc)
  rcases escapeDocChar_cases c with ⟨hwritten, -⟩ | ⟨hwritten, -⟩ <;> rw [hwritten] at hnl <;> simp [hne] at hnl

theorem escapeDoc_append (a b : List Char) : escapeDoc (a ++ b) = escapeDoc a ++ escapeDoc b := List.flatMap_append

theorem escapeDoc_singleton (c : Char) : escapeDoc [c] = escapeDocChar c := List.flatMap_singleton ..

/-- Escapes leave the blanks at the end of a row where they are. -/
theorem trimEnd_escapeDoc (row : List Char) : trimEnd (escapeDoc row) = escapeDoc (trimEnd row) := by
  induction row using List.reverseRecOn with
  | nil => rfl
  | append_singleton row c ih =>
    rw [trimEnd_concat, escapeDoc_append, escapeDoc_singleton]
    rcases escapeDocChar_cases c with ⟨hwritten, hc⟩ | ⟨hwritten, -⟩
    · -- what is escaped is no blank
      have hblank : isBlank c = false := by rcases hc with rfl | rfl <;> rfl
      have hlast : (escapeDoc row ++ ['\\', c]).getLast? = some c := by simp
      rw [hwritten, trimEnd_of_last (by simp [hlast, hblank]), if_neg (by simp [hblank]), escapeDoc_append,
        escapeDoc_singleton, hwritten]
    · rw [hwritten, trimEnd_concat]
      split_ifs
      · exact ih
      · rw [escapeDoc_append, escapeDoc_singleton, hwritten]

/-- What is written for a row is a fence just if the row is. -/
theorem isFence_escapeDoc (h : '\n' ∉ row) : isFence (escapeDoc row) = isFence row := by
  by_cases hquoted : ∃ c ∈ row, c = '"' ∨ c = '\\'
  · -- what needs an escape is in no fence, and neither is a backslash
    obtain ⟨c, hmem, hc⟩ := hquoted
    have hback : '\\' ∈ escapeDoc row := by
      refine List.mem_flatMap.mpr ⟨c, hmem, ?_⟩
      rcases hc with rfl | rfl <;> decide
    rw [isFence_of_mem_quote h hmem hc, isFence_of_mem_quote (newline_not_mem_escapeDoc h) hback (.inr rfl)]
  · have hself : escapeDoc row = row := by
      have hwritten : ∀ c ∈ row, escapeDocChar c = [c] := fun c hc =>
        (escapeDocChar_cases c).elim (fun h => absurd ⟨c, hc, h.2⟩ hquoted) And.left
      rw [escapeDoc, List.flatMap_congr hwritten, List.flatMap_singleton']
    rw [hself]

end Escape

/-! ### Cleaning a docstring -/

/-- The closing quotes and the end of their line. -/
def docEnd : List Char := ['"', '"', '"', '\n']

/-- The opening quotes of the docstring of a function. -/
def docStart : List Char := [' ', ' ', ' ', ' ', '"', '"', '"']

theorem escapeDoc_rows (row : List Char) {rows : List (List Char)} (hne : rows ≠ []) :
    escapeDoc (['\n'].intercalate (row :: rows)) = escapeDoc row ++ '\n' :: escapeDoc (['\n'].intercalate rows) := by
  rw [List.intercalate_cons_of_ne_nil hne, escapeDoc_append, escapeDoc_append, List.append_assoc]
  rfl

/-- The row before the closing quotes. -/
theorem tidied_lastRow {line : List Char} (h : '\n' ∉ line) : tidied (line ++ docEnd) = line ++ docEnd := by
  have hline : '\n' ∉ line ++ ['"', '"', '"'] := by simpa using h
  have hquote : '"' ∈ line ++ ['"', '"', '"'] := by simp
  have hsplit : line ++ docEnd = line ++ ['"', '"', '"'] ++ ['\n'] := by simp [docEnd]
  rw [hsplit, tidied_line hline, isFence_of_mem_quote hline hquote (.inl rfl), trimEnd_of_last (by simp; decide)]
  rfl

theorem tidied_below {rows : List (List Char)} (h : ∀ row ∈ rows, '\n' ∉ row) (hne : rows ≠ []) :
    tidied (escapeDoc (['\n'].intercalate rows) ++ docEnd) =
      escapeDoc (['\n'].intercalate (keptBelow rows)) ++ docEnd := by
  induction rows with
  | nil => exact absurd rfl hne
  | cons row rows ih =>
    obtain ⟨hrow, hbelow⟩ := List.forall_mem_cons.mp h
    by_cases hrows : rows = []
    · rw [hrows, keptBelow, List.intercalate_singleton]
      exact tidied_lastRow (newline_not_mem_escapeDoc hrow)
    · -- the row has a line of its own, on which cleaning sees what is written for it
      rw [escapeDoc_rows row hrows, List.append_assoc, List.cons_append, tidied_append_newline,
        tidied_line (newline_not_mem_escapeDoc hrow), ih hbelow hrows, isFence_escapeDoc hrow, trimEnd_escapeDoc,
        keptBelow_cons row hrows]
      split_ifs
      · rfl
      · rw [escapeDoc_rows _ (keptBelow_ne_nil hrows)]
        simp

/-- Cleaning leaves a literal of the docstring, for what it keeps of the text. -/
theorem tidied_docRows (text : List Char) :
    tidied (docStart ++ escapeDoc text ++ docEnd) = docStart ++ escapeDoc (keptDoc text) ++ docEnd := by
  have hsplit : ['\n'].intercalate (text.splitOn '\n') = text := List.intercalate_splitOn '\n'
  have hrows : ∀ row ∈ text.splitOn '\n', '\n' ∉ row := fun row hrow => newline_not_mem_splitOn hrow
  obtain ⟨first, rows, hcons⟩ := List.exists_cons_of_ne_nil (List.splitOn_ne_nil '\n' text)
  rw [keptDoc]
  nth_rewrite 1 [← hsplit]
  rw [hcons] at hrows ⊢
  obtain ⟨hfirst, hbelow⟩ := List.forall_mem_cons.mp hrows
  have hline : '\n' ∉ docStart ++ escapeDoc first := by
    have hnl := newline_not_mem_escapeDoc hfirst
    simpa [docStart] using hnl
  by_cases hnone : rows = []
  · rw [hnone, keptRows, List.intercalate_singleton]
    exact tidied_lastRow hline
  · have hquote : '"' ∈ docStart ++ escapeDoc first := by simp [docStart]
    have htrim : trimEnd (docStart ++ escapeDoc first) = docStart ++ escapeDoc (trimEnd first) := by
      rw [trimEnd_append_of_trimmed rfl, trimEnd_escapeDoc]
    rw [keptRows_cons first hnone, escapeDoc_rows first hnone, escapeDoc_rows _ (keptBelow_ne_nil hnone)]
    have hassoc : docStart ++ (escapeDoc first ++ '\n' :: escapeDoc (['\n'].intercalate rows)) ++ docEnd =
        (docStart ++ escapeDoc first) ++ '\n' :: (escapeDoc (['\n'].intercalate rows) ++ docEnd) := by simp
    rw [hassoc, tidied_append_newline, tidied_line hline, isFence_of_mem_quote hline hquote (.inl rfl), htrim,
      tidied_below hbelow hnone]
    simp

/-- The docstring of a text that was cleaned stands for the text if cleaning and reading change nothing. -/
theorem denotes_docLiteral_keptDoc_iff {named : List Char → Option Char} {text : List Char} :
    Denotes named true (docLiteral (keptDoc text)) text ↔
      Unmarred (text.splitOn '\n') ∧ '\r' ∉ text ∧ '\x00' ∉ text := by
  rw [denotes_docLiteral_iff, ← keptDoc_eq_self_iff]
  constructor
  · rintro ⟨hnull, hvalue⟩
    have hcr : '\r' ∉ text := hvalue ▸ Literal.return_not_mem_newlined _
    -- no carriage return is left to be read otherwise, so the text is what cleaning kept
    have hself : keptDoc text = text := by
      rw [Literal.newlined_eq_self_iff.mpr (not_mem_keptDoc (by decide) hcr)] at hvalue
      exact hvalue.symm
    exact ⟨hself, hcr, hself ▸ hnull⟩
  · rintro ⟨hself, hcr, hnull⟩
    rw [hself]
    exact ⟨hnull, (Literal.newlined_eq_self_iff.mpr hcr).symm⟩

/-! ### Docstrings in modules -/

theorem tidied_append {s : String} (h : Closed s) (t : String) :
    tidied (s ++ t).toList = tidied s.toList ++ tidied t.toList := by
  rw [String.toList_append]
  rcases h with rfl | ⟨a, ha⟩
  · rfl
  · rw [ha, List.append_assoc, List.singleton_append, tidied_append_newline]

theorem tidied_joined {rows : List String} (h : ∀ r ∈ rows, Detect.Stays r.toList) :
    tidied (joined rows).toList = (joined rows).toList := by
  rw [toList_joined]
  exact tidied_unlines (List.forall_mem_map.mpr h)

theorem framed_docLiteral (text : List Char) :
    "    ".toList ++ docLiteral text ++ ['\n'] = docStart ++ escapeDoc text ++ docEnd := by
  have hindent : "    ".toList = [' ', ' ', ' ', ' '] := by decide
  have hmarks : Bracket.Quote.double.marks true = ['"', '"', '"'] := rfl
  simp [hindent, hmarks, docLiteral, docStart, docEnd, escapeDoc]

theorem tidied_docText (doc : String) :
    tidied (docText (some doc)).toList = "    ".toList ++ docLiteral (keptDoc (trim doc.toList)) ++ ['\n'] := by
  have hindent : (indent 1).toList = "    ".toList := by decide
  have hnewline : "\n".toList = ['\n'] := by decide
  rw [docText, String.toList_append, String.toList_append, toList_docstring, hindent, hnewline, framed_docLiteral,
    tidied_docRows, framed_docLiteral]

/-- A declaration stands in what is rendered behind whole lines of code. -/
theorem exists_renderDecls {out : String} {ds : List Decl} {d : Decl} (prev : Option Decl) (hclosed : Closed out)
    (hcomplete : Complete out) (h : ∀ d ∈ ds, Complete d.render) (hd : d ∈ ds) :
    ∃ front back, renderDecls out prev ds = front ++ d.render ++ back ∧ Closed front ∧ Complete front := by
  induction ds generalizing out prev with
  | nil => cases hd
  | cons e ds ih =>
    obtain ⟨he, hds⟩ := List.forall_mem_cons.mp h
    rw [renderDecls]
    have hgap : Closed (if out = "" then "" else e.gap prev ds.head?) ∧
        Complete (if out = "" then "" else e.gap prev ds.head?) := by
      split_ifs
      · exact ⟨.inl rfl, complete_empty⟩
      · exact ⟨e.closed_gap prev ds.head?, complete_gap prev e ds.head?⟩
    rcases List.mem_cons.mp hd with rfl | hd
    · obtain ⟨back, hback⟩ := Module.prefix_renderDecls
        (out ++ (if out = "" then "" else d.gap prev ds.head?) ++ d.render) (some d) ds
      refine ⟨_, String.ofList back, ?_, closed_append hclosed hgap.1, hcomplete.append hgap.2⟩
      rw [← String.toList_inj, String.toList_append, String.toList_ofList, hback]
    · exact ih _ (closed_append (closed_append hclosed hgap.1) e.closed_render)
        ((hcomplete.append hgap.2).append he) hds hd

namespace Module

variable {m : Module}

/-- **The docstring of a declaration** stands in the clean text of the module behind the rows before it, which stand
behind whole lines of code. It is a literal of what cleaning keeps of its text. -/
theorem exists_docLiteral (hsteady : m.Steady) (htidy : m.Tidy) {d : Decl} (hd : d ∈ m.decls) {doc : String}
    (hdoc : d.doc? = some doc) :
    ∃ before after,
      (clean m.render).toList =
        before ++ (joined d.upperRows ++ "    ").toList ++ docLiteral (keptDoc (trim doc.toList)) ++ '\n' :: after ∧
      WholeLines before ∧ Bracket.Reader.start.read before = some Bracket.Reader.start := by
  obtain ⟨text, htext⟩ := Option.isSome_iff_exists.mp hsteady.header
  obtain ⟨front, back, hrender, hclosed, hcomplete⟩ := exists_renderDecls none (closed_renderHead htext)
    (complete_renderHead htidy.imports) htidy.decls hd
  obtain ⟨hupper, -⟩ := List.forall_mem_append.mp (hsteady.decls d hd)
  have hsplit : front ++ d.render ++ back =
      front ++ (joined d.upperRows ++ (docText (some doc) ++ (joined d.lowerRows ++ back))) := by
    rw [d.render_eq, hdoc]
    simp only [String.append_assoc]
  have hread : Bracket.Reader.start.read (tidied front.toList) = some Bracket.Reader.start := by
    rcases hclosed with rfl | ⟨a, ha⟩
    · rfl
    · rw [ha]
      exact read_tidied (ha ▸ hcomplete.read)
  refine ⟨tidied front.toList, tidied (joined d.lowerRows ++ back).toList, ?_, wholeLines_unlines _, hread⟩
  have hclean : (clean m.render).toList = tidied (front ++ d.render ++ back).toList := by
    rw [(toList_clean_render hsteady).1, hrender]
    rfl
  rw [hclean, hsplit, tidied_append hclosed, tidied_append (closed_joined _), tidied_append (closed_docText _),
    tidied_joined hupper, tidied_docText]
  simp

end Module

end Python

end AgentFlow
