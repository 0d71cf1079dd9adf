import AgentFlow.Proofs.Check.Lines
import AgentFlow.Proofs.Python.Render

/-!
# The lines of a rendered module

What is rendered of a declaration is a list of rows, with a docstring among them if it is a function. So the lines of a
clean module are the rows of its imports and of its declarations, the lines of its docstrings, and lines that are empty
(`Module.any_lines_clean`). The rows of an expression that is broken over lines follow the recursion of its layout.
-/

namespace AgentFlow.Python

open Text Source Detect

/-- The rows, each with a newline after it. -/
def joined (rows : List String) : String := String.join (rows.map (· ++ "\n"))

theorem joined_cons (r : String) (rows : List String) : joined (r :: rows) = r ++ "\n" ++ joined rows :=
  String.join_cons

theorem joined_append (rows more : List String) : joined (rows ++ more) = joined rows ++ joined more := by
  rw [joined, List.map_append, String.join_append]
  rfl

theorem toList_joined (rows : List String) : (joined rows).toList = unlines (rows.map String.toList) := by
  induction rows with
  | nil => rfl
  | cons r rows ih => simp [joined_cons, ih, unlines]

/-! ### Layouts -/

mutual

/-- The rows of a layout from column `column` on, later ones `depth` levels deep, with `before` at the start of the
first and `after` at the end of the last. -/
def Layout.rows (before after : String) (depth column : Nat) : Layout → List String
  | .atom text => [before ++ text ++ after]
  | .group opening items closing =>
    let flat := opening ++ flatItems items ++ closing
    if column + flat.utf8ByteSize ≤ maxWidth || items.isEmpty then [before ++ flat ++ after]
    else (before ++ opening) :: itemRows (depth + 1) items ++ [indent depth ++ closing ++ after]

def itemRows (depth : Nat) : List (String × Layout) → List String
  | [] => []
  | (lead, l) :: rest =>
    l.rows (indent depth ++ lead) "," depth (indentWidth depth + lead.utf8ByteSize) ++ itemRows depth rest

end

mutual

/-- The rows of a layout are its text, broken as it is rendered. -/
theorem Layout.joined_rows (before after : String) (depth column : Nat) : ∀ l : Layout,
    joined (l.rows before after depth column) = before ++ l.render depth column ++ after ++ "\n"
  | .atom text => by simp [Layout.rows, Layout.render, joined]
  | .group opening items closing => by
    rw [Layout.rows, Layout.render]
    split_ifs
    · simp [joined]
    · rw [List.cons_append, joined_cons, joined_append, joined_itemRows]
      simp [joined, String.append_assoc]

theorem joined_itemRows (depth : Nat) : ∀ items : List (String × Layout),
    joined (itemRows depth items) = renderItems depth items
  | [] => rfl
  | (lead, l) :: rest => by
    rw [itemRows, renderItems, joined_append, Layout.joined_rows, joined_itemRows]
    simp [String.append_assoc]

end

/-! ### Functions and declarations -/

/-- The rows of lines at a depth. -/
def indentedRows (depth : Nat) (ls : List String) : List String :=
  ls.map fun l => if Text.blank l then "" else indent depth ++ l

theorem joined_indentedRows (depth : Nat) (ls : List String) : joined (indentedRows depth ls) = indented depth ls := by
  rw [joined, indentedRows, indented, List.map_map]
  congr 1
  refine List.map_congr_left fun l _ => ?_
  rw [Function.comp_apply]
  split_ifs <;> rfl

theorem indentedRows_append (depth : Nat) (ls more : List String) :
    indentedRows depth (ls ++ more) = indentedRows depth ls ++ indentedRows depth more := List.map_append

/-- Lines that are moved to the right are one level deeper. -/
theorem indentedRows_shifted (depth : Nat) (ls : List String) :
    indentedRows depth (ls.map ("    " ++ ·)) = indentedRows (depth + 1) ls := by
  have hindent : indent (depth + 1) = indent depth ++ "    " := by
    rw [indent, Nat.mul_succ, ← List.replicate_append_replicate, String.ofList_append]
    rfl
  rw [indentedRows, List.map_map]
  refine List.map_congr_left fun l _ => ?_
  have hblank : Text.blank ("    " ++ l) = Text.blank l := by
    rw [Text.blank, String.toList_append, List.all_append]
    rfl
  rw [Function.comp_apply, hblank, hindent, String.append_assoc]

/-- The docstring of a function, if it has one. -/
def docText : Option String → String
  | none => ""
  | some doc => indent 1 ++ docstring doc ++ "\n"

/-- What a function returns, as its header says it. -/
def resultText : Option String → String
  | none => ""
  | some r => " -> " ++ r

namespace Function

/-- The row that the function starts with, after its decorators. -/
def headRow (f : Function) : String :=
  (if f.isAsync then "async def " else "def ") ++ f.name ++ "(" ++ ", ".intercalate f.params ++ ")"
    ++ resultText f.returns ++ ":"

/-- The rows before the docstring. -/
def upperRows (f : Function) : List String := f.decorators.map ("@" ++ ·) ++ [f.headRow]

/-- The rows after the docstring. -/
def lowerRows (f : Function) : List String :=
  (if f.doc.isNone && f.body.isEmpty then [indent 1 ++ "pass"] else []) ++ indentedRows 1 f.body

theorem render_eq (f : Function) : f.render = joined f.upperRows ++ docText f.doc ++ joined f.lowerRows := by
  have hdecorators : String.join (f.decorators.map fun d => "@" ++ d ++ "\n") =
      joined (f.decorators.map ("@" ++ ·)) := by
    rw [joined, List.map_map]
    rfl
  unfold render
  rw [hdecorators, upperRows, lowerRows, joined_append, joined_append, joined_indentedRows, headRow]
  obtain ⟨name, decorators, isAsync, params, returns, doc, body⟩ := f
  cases returns <;> cases doc <;> cases body.isEmpty <;> simp [resultText, docText, joined, String.append_assoc]

end Function

namespace Decl

/-- The rows of a declaration; of a function, those before its docstring. -/
def upperRows : Decl → List String
  | .comment text => (lines text.toList).map fun l => "# " ++ String.ofList l
  | .assign name _ value => value.layout.rows (name ++ " = ") "" 0 (name.utf8ByteSize + 3)
  | .tool f => f.upperRows
  | .function f => f.upperRows
  | .block ls => indentedRows 0 ls
  | .entryPoint body =>
    ["if __name__ == \"__main__\":"] ++ (if body.isEmpty then [indent 1 ++ "pass"] else []) ++ indentedRows 1 body

/-- The rows of a function after its docstring. -/
def lowerRows : Decl → List String
  | .tool f => f.lowerRows
  | .function f => f.lowerRows
  | _ => []

/-- The docstring of a function. -/
def doc? : Decl → Option String
  | .tool f => f.doc
  | .function f => f.doc
  | _ => none

/-- All rows of a declaration. -/
def rows (d : Decl) : List String := d.upperRows ++ d.lowerRows

theorem rows_assign (x : String) (role : Role) (e : Expr) :
    (assign x role e).rows = e.layout.rows (x ++ " = ") "" 0 (x.utf8ByteSize + 3) := List.append_nil _

theorem render_eq (d : Decl) : d.render = joined d.upperRows ++ docText d.doc? ++ joined d.lowerRows := by
  -- only a function has more than its upper rows
  have hplain : ∀ rows : List String, joined rows ++ docText none ++ joined [] = joined rows := by
    simp [docText, joined]
  cases d with
  | comment text =>
    refine Eq.trans ?_ (hplain _).symm
    simp only [upperRows, joined, List.map_map, Function.comp_def]
    unfold render
    rfl
  | assign name role value =>
    refine Eq.trans ?_ (hplain _).symm
    rw [upperRows, Layout.joined_rows, String.append_empty]
    rfl
  | tool f => exact f.render_eq
  | function f => exact f.render_eq
  | block ls => exact (joined_indentedRows 0 ls).symm.trans (hplain _).symm
  | entryPoint body =>
    have hpass : (if body.isEmpty then indent 1 ++ "pass\n" else "") =
        joined (if body.isEmpty then [indent 1 ++ "pass"] else []) := by
      split_ifs <;> simp [joined, String.append_assoc]
    refine Eq.trans ?_ (hplain _).symm
    rw [upperRows, joined_append, joined_append, joined_indentedRows, ← hpass]
    rfl

end Decl

/-! ### What is found in a module -/

/-- The lines of a docstring, as cleaning leaves them. -/
def docLines (doc : String) : List (List Char) := kept (lines (docstring doc ++ "\n").toList)

/-- The text is empty or ends with a newline. -/
def Closed (s : String) : Prop := s = "" ∨ EndsLine s

theorem closed_append {s t : String} (hs : Closed s) (ht : Closed t) : Closed (s ++ t) := by
  rcases ht with rfl | ht
  · rwa [String.append_empty]
  · exact .inr (ht.after s)

theorem closed_joined (rows : List String) : Closed (joined rows) := by
  induction rows with
  | nil => exact .inl rfl
  | cons r rows ih =>
    rw [joined_cons]
    exact closed_append (.inr (endsLine_newline r)) ih

theorem closed_docText (doc : Option String) : Closed (docText doc) := by
  cases doc with
  | none => exact .inl rfl
  | some doc => exact .inr (endsLine_newline _)

theorem Decl.closed_render (d : Decl) : Closed d.render := by
  rw [d.render_eq]
  exact closed_append (closed_append (closed_joined _) (closed_docText _)) (closed_joined _)

theorem Decl.closed_gap (prev : Option Decl) (d : Decl) (next : Option Decl) : Closed (d.gap prev next) := by
  unfold Decl.gap
  split
  · exact .inr ⟨['\n'], rfl⟩
  · split_ifs
    · exact .inl rfl
    · exact .inr ⟨['\n'], rfl⟩
    · exact .inr ⟨[], rfl⟩

section Found

variable {P : List Char → Bool}

/-- What ends with a newline is checked by itself. -/
theorem found_append {s : String} (hs : Closed s) (t : String) :
    found P (s ++ t).toList = (found P s.toList || found P t.toList) := by
  rw [String.toList_append]
  rcases hs with rfl | ⟨a, ha⟩
  · rfl
  · rw [ha, List.append_assoc, List.singleton_append, found_append_newline]

/-- Rows that stay are checked one by one. -/
theorem found_joined {rows : List String} (h : ∀ r ∈ rows, Stays r.toList) :
    found P (joined rows).toList = rows.any fun r => P r.toList := by
  rw [toList_joined, found_unlines (List.forall_mem_map.mpr h), List.any_map]
  rfl

variable (hP : SkipsBlanks P)

include hP

theorem found_indent (depth : Nat) (s : String) : found P (indent depth ++ s).toList = found P s.toList := by
  rw [String.toList_append, indent, String.toList_ofList]
  induction 4 * depth with
  | zero => rfl
  | succ n ih => rw [List.replicate_succ, List.cons_append, found_blank hP, ih]

theorem found_docText (doc : Option String) :
    found P (docText doc).toList = doc.any fun text => (docLines text).any P := by
  cases doc with
  | none => rfl
  | some doc =>
    rw [docText, String.append_assoc, found_indent hP, Option.any_some, docLines, found]

/-- In a declaration a check finds what it finds on its rows and in its docstring. -/
theorem found_decl {d : Decl} (h : ∀ r ∈ d.rows, Stays r.toList) :
    found P d.render.toList = (d.rows.any (fun r => P r.toList) || d.doc?.any fun text => (docLines text).any P) := by
  obtain ⟨hupper, hlower⟩ := List.forall_mem_append.mp h
  rw [d.render_eq, found_append (closed_append (closed_joined _) (closed_docText _)), found_append (closed_joined _),
    found_joined hupper, found_joined hlower, found_docText hP, Decl.rows, List.any_append, Bool.or_right_comm]

theorem found_decls {ds : List Decl} (h : ∀ d ∈ ds, ∀ r ∈ d.rows, Stays r.toList) :
    (ds.any fun d => found P d.render.toList) = (ds.any (fun d => d.rows.any fun r => P r.toList) ||
      (ds.filterMap Decl.doc?).any fun doc => (docLines doc).any P) := by
  induction ds with
  | nil => rfl
  | cons d ds ih =>
    obtain ⟨hd, hds⟩ := List.forall_mem_cons.mp h
    rw [List.any_cons, List.any_cons, found_decl hP hd, ih hds]
    cases hdoc : d.doc? with
    | none => simp [hdoc, Bool.or_assoc]
    | some doc =>
      rw [List.filterMap_cons_some hdoc, List.any_cons, Option.any_some, Bool.or_assoc, Bool.or_assoc]
      rw [Bool.or_left_comm ((docLines doc).any P)]

/-- Between declarations there are only newlines. -/
theorem found_gap (prev : Option Decl) (d : Decl) (next : Option Decl) (t : String) :
    found P (d.gap prev next ++ t).toList = found P t.toList := by
  have hone : found P ("\n" ++ t).toList = found P t.toList := by
    rw [String.toList_append]
    exact found_newline hP _
  have htwo : found P ("\n\n" ++ t).toList = found P t.toList := by
    rw [String.toList_append]
    exact (found_newline hP _).trans (found_newline hP _)
  unfold Decl.gap
  split
  · exact htwo
  · split_ifs
    · rw [String.empty_append]
    · exact htwo
    · exact hone

/-- In declarations it finds what it finds in each of them. -/
theorem found_renderDecls {out : String} {ds : List Decl} (prev : Option Decl) (hout : Closed out) :
    found P (renderDecls out prev ds).toList = (found P out.toList || ds.any fun d => found P d.render.toList) := by
  induction ds generalizing out prev with
  | nil => exact (Bool.or_false _).symm
  | cons d ds ih =>
    have hgap : found P (out ++ (if out = "" then "" else d.gap prev ds.head?) ++ d.render).toList =
        (found P out.toList || found P d.render.toList) := by
      rw [String.append_assoc, found_append hout]
      split_ifs
      · rw [String.empty_append]
      · rw [found_gap hP]
    -- each declaration starts on a line of its own
    have hclosed : Closed (out ++ (if out = "" then "" else d.gap prev ds.head?) ++ d.render) := by
      refine closed_append (closed_append hout ?_) d.closed_render
      split_ifs
      · exact .inl rfl
      · exact d.closed_gap prev ds.head?
    rw [renderDecls, ih _ hclosed, hgap, List.any_cons, Bool.or_assoc]

end Found

/-! ### Modules -/

/-- The row of an import. -/
def Import.row (i : Import) : String :=
  if i.names.isEmpty then "import " ++ i.module else "from " ++ i.module ++ " import " ++ ", ".intercalate i.names

theorem renderImports_eq (imports : List Import) :
    renderImports imports = joined ((imports.filter fun i => i.names.isEmpty).map Import.row)
      ++ joined ((imports.filter fun i => !i.names.isEmpty).map Import.row) := by
  have hplain : (imports.filter fun i => i.names.isEmpty).map (fun i => "import " ++ i.module ++ "\n") =
      ((imports.filter fun i => i.names.isEmpty).map Import.row).map (· ++ "\n") := by
    rw [List.map_map]
    refine List.map_congr_left fun i hi => ?_
    rw [Function.comp_apply, Import.row, if_pos (List.mem_filter.mp hi).2]
  have hnamed : (imports.filter fun i => !i.names.isEmpty).map
        (fun i => "from " ++ i.module ++ " import " ++ ", ".intercalate i.names ++ "\n") =
      ((imports.filter fun i => !i.names.isEmpty).map Import.row).map (· ++ "\n") := by
    rw [List.map_map]
    refine List.map_congr_left fun i hi => ?_
    rw [Function.comp_apply, Import.row, if_neg (by simpa using (List.mem_filter.mp hi).2)]
  rw [joined, joined, ← hplain, ← hnamed]
  unfold renderImports
  rw [List.partition_eq_filter_filter]
  rfl

namespace Module

/-- The docstrings of a module. -/
def docs (m : Module) : List String := m.header.toList ++ m.decls.filterMap Decl.doc?

/-- The lines of the docstrings, as cleaning leaves them. -/
def docLines (m : Module) : List (List Char) := m.docs.flatMap Python.docLines

/-- The rows of a module stay as they are, and it is set between a docstring and a program. -/
structure Steady (m : Module) : Prop where
  header : m.header.isSome = true
  imports : ∀ i ∈ m.imports, Stays i.row.toList
  decls : ∀ d ∈ m.decls, ∀ r ∈ d.rows, Stays r.toList
  program : EndsInProgram m.decls

variable {m : Module} {P : List Char → Bool}

theorem found_renderImports (h : ∀ i ∈ m.imports, Stays i.row.toList) :
    found P (renderImports m.imports).toList = m.imports.any fun i => P i.row.toList := by
  have hpart : ∀ p : Import → Bool, ∀ r ∈ (m.imports.filter p).map Import.row, Stays r.toList := by
    intro p r hr
    obtain ⟨i, hi, rfl⟩ := List.mem_map.mp hr
    exact h i (List.mem_filter.mp hi).1
  rw [renderImports_eq, found_append (closed_joined _), found_joined (hpart _), found_joined (hpart _), Bool.eq_iff_iff]
  simp only [List.any_map, Bool.or_eq_true, List.any_eq_true, List.mem_filter, Function.comp_apply]
  constructor
  · rintro (⟨i, hi, hP⟩ | ⟨i, hi, hP⟩) <;> exact ⟨i, hi.1, hP⟩
  · -- imports without names are rendered before the others
    rintro ⟨i, hi, hP⟩
    cases hnames : i.names.isEmpty with
    | true => exact .inl ⟨i, ⟨hi, hnames⟩, hP⟩
    | false => exact .inr ⟨i, ⟨hi, by rw [hnames]; rfl⟩, hP⟩

theorem docstring_head (text : String) : ∃ cs, (docstring text).toList = '"' :: cs := by
  rw [docstring, String.toList_append, String.toList_append]
  exact ⟨_, rfl⟩

/-- The head of a module is its docstring and its imports. -/
theorem renderHead_eq {text : String} (h : m.header = some text) :
    m.renderHead = docstring text ++ "\n" ++ (if m.imports.isEmpty then "" else "\n" ++ renderImports m.imports) := by
  have hne : docstring text ++ "\n" ≠ "" := by
    obtain ⟨cs, hcs⟩ := docstring_head text
    intro hempty
    have hlist := congrArg String.toList hempty
    rw [String.toList_append, hcs] at hlist
    cases hlist
  rw [renderHead, h]
  dsimp only
  rw [if_neg hne]
  split_ifs
  · rw [String.append_empty]
  · rw [String.append_assoc]

theorem closed_renderHead {text : String} (h : m.header = some text) : Closed m.renderHead := by
  rw [renderHead_eq h]
  refine closed_append (.inr (endsLine_newline _)) ?_
  split_ifs
  · exact .inl rfl
  · rw [renderImports_eq]
    exact closed_append (.inr ⟨[], rfl⟩) (closed_append (closed_joined _) (closed_joined _))

theorem found_renderHead {text : String} (h : m.header = some text) (himports : ∀ i ∈ m.imports, Stays i.row.toList)
    (hP : SkipsBlanks P) : found P m.renderHead.toList =
      ((Python.docLines text).any P || m.imports.any fun i => P i.row.toList) := by
  rw [renderHead_eq h, found_append (.inr (endsLine_newline _)), ← found_renderImports himports]
  congr 1
  split_ifs with hnone
  · rw [List.isEmpty_iff.mp hnone]
    rfl
  · rw [String.toList_append]
    exact found_newline hP _

/-- What is rendered starts with what it was begun with. -/
theorem prefix_renderDecls (out : String) (prev : Option Decl) (ds : List Decl) :
    out.toList <+: (renderDecls out prev ds).toList := by
  induction ds generalizing out prev with
  | nil => exact List.prefix_rfl
  | cons d ds ih =>
    refine List.IsPrefix.trans ?_ (ih _ _)
    rw [String.toList_append, String.toList_append, List.append_assoc]
    exact List.prefix_append ..

/-- Cleaning cuts nothing at either end of a steady module. -/
theorem toList_clean_render (h : m.Steady) :
    (clean m.render).toList = unlines (kept (lines (renderDecls m.renderHead none m.decls).toList)) ∧
      (clean m.render).toList.head? = some '"' := by
  obtain ⟨text, htext⟩ := Option.isSome_iff_exists.mp h.header
  obtain ⟨hrender, a, l, ha, hl⟩ := h.program.toList_render
  obtain ⟨cs, hcs⟩ := docstring_head text
  obtain ⟨rest, hrest⟩ := prefix_renderDecls m.renderHead none m.decls
  have hhead : m.render.toList.head? = some '"' := by
    rw [hrender, ← hrest, renderHead_eq htext, String.toList_append, String.toList_append, hcs]
    rfl
  rw [← hrender]
  exact toList_clean ha hl hhead (by decide)

/-- **The lines of a clean module**: a check that skips blanks finds on them what it finds on the rows of the imports
and of the declarations, and on the lines of the docstrings. -/
theorem any_lines_clean (h : m.Steady) (hP : SkipsBlanks P) :
    (lines (clean m.render).toList).any P =
      (m.imports.any (fun i => P i.row.toList) || m.decls.any (fun d => d.rows.any fun r => P r.toList) ||
        m.docLines.any P) := by
  obtain ⟨text, htext⟩ := Option.isSome_iff_exists.mp h.header
  have hdocs : m.docLines.any P = ((Python.docLines text).any P ||
      (m.decls.filterMap Decl.doc?).any fun doc => (Python.docLines doc).any P) := by
    rw [docLines, docs, htext, List.any_flatMap, List.any_append]
    simp
  have hfound : (lines (clean m.render).toList).any P =
      (found P m.renderHead.toList || m.decls.any fun d => found P d.render.toList) := by
    rw [(toList_clean_render h).1, lines_unlines_kept, ← found_renderDecls hP none (closed_renderHead htext)]
    rfl
  rw [hfound, found_renderHead htext h.imports hP, found_decls hP h.decls, hdocs, Bool.or_assoc, Bool.or_assoc,
    Bool.or_left_comm ((Python.docLines text).any P), Bool.or_left_comm ((Python.docLines text).any P)]

end Module

end AgentFlow.Python
