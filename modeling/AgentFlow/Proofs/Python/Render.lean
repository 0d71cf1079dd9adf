import AgentFlow.Proofs.Bracket.Clean
import AgentFlow.Proofs.Python.Fragment
import AgentFlow.Python.Render

/-!
# Rendered modules read as code

An expression, function or declaration is tidy if the texts that it holds are fragments of code. What is rendered of it
is then a fragment too, whether it is written on one line or broken over several. A tidy module that ends with a program
is read from start to end with no bracket left open, and so is its clean form.
-/

namespace AgentFlow.Python

open AgentFlow.Bracket AgentFlow.Bracket.Reader

theorem complete_newline : Complete "\n" := complete_text (by decide)

theorem complete_indent (depth : Nat) : Complete (indent depth) := by
  refine complete_of_isPlain fun c hc => ?_
  rw [indent, String.toList_ofList] at hc
  rw [(List.mem_replicate.mp hc).2]
  decide

/-! ### Layouts -/

mutual

/-- Every text of the layout is a fragment of code. -/
def Layout.Tidy : Layout → Prop
  | .atom text => Separable text
  | .group opening items closing => Wraps opening closing ∧ TidyItems items

def TidyItems : List (String × Layout) → Prop
  | [] => True
  | (lead, l) :: rest => Complete lead ∧ l.Tidy ∧ TidyItems rest

end

mutual

/-- On one line a tidy layout is a fragment of code. -/
theorem Layout.Tidy.flat : ∀ {l : Layout}, l.Tidy → Separable l.flat
  | .atom _, h => h
  | .group _ _ _, h => (h.1 _ (separable_flatItems h.2)).separable

theorem separable_flatItems : ∀ {items : List (String × Layout)}, TidyItems items → Separable (flatItems items)
  | [], _ => complete_empty.separable
  | [(_, _)], h => h.1.append_separable h.2.1.flat
  | (_, _) :: _ :: _, h =>
    have hfirst := h.1.append_separable h.2.1.flat
    (hfirst.append_text (by decide)).append_separable (separable_flatItems h.2.2)

end

mutual

/-- It is one however it is broken over lines. -/
theorem Layout.Tidy.render : ∀ {l : Layout} (depth column : Nat), l.Tidy → Separable (l.render depth column)
  | .atom _, _, _, h => h
  | .group opening items closing, depth, column, h => by
    rw [Layout.render]
    split_ifs
    · exact (h.1 _ (separable_flatItems h.2)).separable
    · -- between the brackets there are whole rows
      have hinner : Complete ("\n" ++ renderItems (depth + 1) items ++ indent depth) :=
        (complete_newline.append (complete_renderItems (depth + 1) h.2)).append (complete_indent depth)
      have hgroup := h.1 _ hinner.separable
      simp only [String.append_assoc] at hgroup ⊢
      exact hgroup.separable

theorem complete_renderItems : ∀ {items : List (String × Layout)} (depth : Nat), TidyItems items →
    Complete (renderItems depth items)
  | [], _, _ => complete_empty
  | (lead, l) :: rest, depth, h => by
    rw [renderItems]
    have hitem := ((complete_indent depth).append h.1).append_separable
      (h.2.1.render depth (indentWidth depth + lead.utf8ByteSize))
    exact (hitem.append_text (by decide)).append (complete_renderItems depth h.2.2)

end

/-! ### Expressions -/

/-- Every text of the expression is a fragment of code. -/
def Expr.Tidy (e : Expr) : Prop := e.layout.Tidy

/-- The arguments and their keywords are fragments of code. -/
def TidyArgs (args : List (Option String × Expr)) : Prop := ∀ a ∈ args, (∀ k ∈ a.1, Complete k) ∧ a.2.Tidy

namespace Expr

theorem tidy_str (s : String) : (str s).Tidy := separable_quote s

theorem tidy_ident {name : String} (h : Complete name) : (ident name).Tidy := h.separable

theorem tidy_raw {text : String} (h : Separable text) : (raw text).Tidy := h

theorem tidy_list {items : List Expr} (h : ∀ e ∈ items, e.Tidy) : (list items).Tidy := by
  refine ⟨wraps_text ['['] (by decide), ?_⟩
  induction items with
  | nil => trivial
  | cons e es ih =>
    obtain ⟨he, hes⟩ := List.forall_mem_cons.mp h
    exact ⟨complete_empty, he, ih hes⟩

theorem tidy_dict {entries : List (String × Expr)} (h : ∀ e ∈ entries, e.2.Tidy) : (dict entries).Tidy := by
  refine ⟨wraps_text ['\x7b'] (by decide), ?_⟩
  induction entries with
  | nil => trivial
  | cons e es ih =>
    obtain ⟨he, hes⟩ := List.forall_mem_cons.mp h
    exact ⟨(separable_quote e.1).append_text (by decide), he, ih hes⟩

theorem complete_argLead {k : Option String} (h : ∀ name ∈ k, Complete name) : Complete (argLead k) := by
  cases k with
  | none => exact complete_empty
  | some name => exact (h name rfl).append (complete_text (by decide))

theorem tidy_call {callee : List Char} {args : List (Option String × Expr)}
    (hcallee : start.read callee = some start) (h : TidyArgs args) : (call (String.ofList callee) args).Tidy := by
  refine ⟨(wraps_text ['('] (by decide)).after (complete_text hcallee), ?_⟩
  induction args with
  | nil => trivial
  | cons a as ih =>
    obtain ⟨ha, has⟩ := List.forall_mem_cons.mp h
    exact ⟨complete_argLead ha.1, ha.2, ih has⟩

theorem tidy_strs (items : List String) : (strs items).Tidy := by
  refine tidy_list fun e he => ?_
  obtain ⟨s, -, rfl⟩ := List.mem_map.mp he
  exact tidy_str s

theorem tidy_idents {names : List String} (h : ∀ name ∈ names, Complete name) : (idents names).Tidy := by
  refine tidy_list fun e he => ?_
  obtain ⟨name, hname, rfl⟩ := List.mem_map.mp he
  exact tidy_ident (h name hname)

theorem tidy_strDict (entries : List (String × String)) : (strDict entries).Tidy := by
  refine tidy_dict fun e he => ?_
  obtain ⟨x, -, rfl⟩ := List.mem_map.mp he
  exact tidy_str x.2

end Expr

theorem tidyArgs_nil : TidyArgs [] := by simp [TidyArgs]

theorem tidyArgs_append {as bs : List (Option String × Expr)} : TidyArgs (as ++ bs) ↔ TidyArgs as ∧ TidyArgs bs :=
  List.forall_mem_append

theorem tidyArgs_kw {name : List Char} {value : Expr} (hname : start.read name = some start) (h : value.Tidy) :
    TidyArgs (Expr.kw (String.ofList name) value) := by
  intro a ha
  obtain rfl := List.mem_singleton.mp ha
  exact ⟨fun k hk => Option.some.inj hk ▸ complete_text hname, h⟩

theorem tidyArgs_kw? {name : List Char} {value : Option Expr} (hname : start.read name = some start)
    (h : ∀ v ∈ value, v.Tidy) : TidyArgs (Expr.kw? (String.ofList name) value) := by
  cases value with
  | none => exact tidyArgs_nil
  | some v => exact tidyArgs_kw hname (h v rfl)

/-! ### Functions and declarations -/

theorem complete_indented {ls : List String} (depth : Nat) (h : ∀ l ∈ ls, Separable l) :
    Complete (indented depth ls) := by
  refine complete_join fun t ht => ?_
  obtain ⟨l, hl, rfl⟩ := List.mem_map.mp ht
  split_ifs
  · exact complete_newline
  · exact ((complete_indent depth).append_separable (h l hl)).append_text (by decide)

theorem indented_append (depth : Nat) (as bs : List String) :
    indented depth (as ++ bs) = indented depth as ++ indented depth bs := by
  rw [indented, List.map_append, String.join_append]
  rfl

/-- The texts of the function are fragments of code. -/
structure Function.Tidy (f : Function) : Prop where
  name : Complete f.name
  decorators : ∀ d ∈ f.decorators, Complete d
  params : ∀ p ∈ f.params, Complete p
  returns : ∀ r ∈ f.returns, Complete r
  body : Complete (indented 1 f.body)

/-- A tidy function is complete. -/
theorem Function.Tidy.render {f : Function} (h : f.Tidy) : Complete f.render := by
  have hdecorators : Complete (String.join (f.decorators.map fun d => "@" ++ d ++ "\n")) := by
    refine complete_join fun t ht => ?_
    obtain ⟨d, hd, rfl⟩ := List.mem_map.mp ht
    exact (Complete.append (complete_text (by decide)) (h.decorators d hd)).append complete_newline
  have hdef : Complete (if f.isAsync then "async def " else "def ") := by
    split_ifs <;> exact complete_text (by decide)
  have hparams : Wraps "(" ")" := wraps_text ['('] (by decide)
  have hhead := hparams.after ((hdecorators.append hdef).append h.name) _
    (separable_intercalate fun p hp => (h.params p hp).separable)
  unfold Function.render
  refine ((((hhead.append ?_).append (complete_text (by decide))).append ?_).append h.body)
  · -- what it returns
    split
    · exact complete_empty
    next r hr => exact Complete.append (complete_text (by decide)) (h.returns r hr)
  · -- its docstring, or what stands for an empty body
    split
    · split_ifs
      · exact (complete_indent 1).append (complete_text (by decide))
      · exact complete_empty
    · exact ((complete_indent 1).append (complete_docstring _)).append complete_newline

theorem Function.Tidy.documented {f : Function} (h : f.Tidy) (doc : String) : (f.documented doc).Tidy := by
  unfold Function.documented
  split_ifs
  · exact h
  · exact ⟨h.name, h.decorators, h.params, h.returns, h.body⟩

/-- So is an assignment to a name. -/
theorem complete_assign {name : String} {value : Expr} (role : Role) (hname : Complete name) (h : value.Tidy) :
    Complete (Decl.assign name role value).render := by
  have hlead : Complete (name ++ " = ") := hname.append (complete_text (by decide))
  exact (hlead.append_separable (h.render 0 _)).append_text (by decide)

/-- A comment goes to the end of its line. -/
theorem read_comment {l : List Char} (hl : '\n' ∉ l) (stack rest : List Char) :
    read ⟨.comment, stack⟩ (l ++ '\n' :: rest) = read ⟨.code, stack⟩ rest := by
  induction l with
  | nil => rfl
  | cons c l ih =>
    have hc : c ≠ '\n' := fun hc => hl (by simp [hc])
    rw [List.cons_append, read_cons]
    simp only [step, hc, if_false, Option.bind_some]
    exact ih fun hmem => hl (List.mem_cons_of_mem _ hmem)

theorem complete_comment (text : String) : Complete (Decl.comment text).render := by
  refine complete_join fun t ht => ?_
  obtain ⟨l, hl, rfl⟩ := List.mem_map.mp ht
  intro stack rest
  have hsharp : ∀ tail, read ⟨.code, stack⟩ ('#' :: ' ' :: tail) = read ⟨.comment, stack⟩ tail := fun _ => rfl
  simp only [String.toList_append, String.toList_ofList, List.append_assoc]
  exact (hsharp _).trans (read_comment (Text.newline_not_mem_of_mem_lines hl) stack rest)

/-- So is the entry point of a program. -/
theorem complete_entryPoint {body : List String} (h : ∀ l ∈ body, Separable l) :
    Complete (Decl.entryPoint body).render := by
  have hlead : Complete "if __name__ == \"__main__\":\n" := complete_text (by decide)
  have hpass : Complete (if body.isEmpty then indent 1 ++ "pass\n" else "") := by
    split_ifs
    · exact (complete_indent 1).append (complete_text (by decide))
    · exact complete_empty
  exact (hlead.append hpass).append (complete_indented 1 h)

/-! ### Imports -/

/-- The names of the import are fragments of code. -/
structure Import.Tidy (i : Import) : Prop where
  module : Complete i.module
  names : ∀ name ∈ i.names, Complete name

/-- Imports are complete, with or without names. -/
theorem complete_renderImports {imports : List Import} (h : ∀ i ∈ imports, i.Tidy) :
    Complete (renderImports imports) := by
  unfold renderImports
  rw [List.partition_eq_filter_filter]
  refine (complete_join fun t ht => ?_).append (complete_join fun t ht => ?_)
  · obtain ⟨i, hi, rfl⟩ := List.mem_map.mp ht
    have hmodule := (h i (List.mem_filter.mp hi).1).module
    exact (Complete.append (complete_text (by decide)) hmodule).append complete_newline
  · obtain ⟨i, hi, rfl⟩ := List.mem_map.mp ht
    obtain ⟨hmodule, hnames⟩ := h i (List.mem_filter.mp hi).1
    have hfrom : Complete ("from " ++ i.module ++ " import ") :=
      (Complete.append (complete_text (by decide)) hmodule).append (complete_text (by decide))
    have hlist := separable_intercalate fun name hname => (hnames name hname).separable
    exact (hfrom.append_separable hlist).append_text (by decide)

/-- The modules that are wanted have the one property, and the names that are wanted the other. -/
def AllWanted (P Q : String → Prop) (wanted : List (String × Option String)) : Prop :=
  ∀ w ∈ wanted, P w.1 ∧ ∀ name ∈ w.2, Q name

theorem allWanted_append {P Q : String → Prop} {wanted more : List (String × Option String)} :
    AllWanted P Q (wanted ++ more) ↔ AllWanted P Q wanted ∧ AllWanted P Q more :=
  List.forall_mem_append

namespace AllWanted

variable {P Q : String → Prop} {wanted more : List (String × Option String)}

theorem nil : AllWanted P Q [] := by simp [AllWanted]

theorem consModule {module : String} (hmodule : P module) (h : AllWanted P Q wanted) :
    AllWanted P Q ((module, none) :: wanted) :=
  List.forall_mem_cons.mpr ⟨⟨hmodule, by simp⟩, h⟩

theorem consName {module name : String} (hmodule : P module) (hname : Q name) (h : AllWanted P Q wanted) :
    AllWanted P Q ((module, some name) :: wanted) :=
  List.forall_mem_cons.mpr ⟨⟨hmodule, by simpa using hname⟩, h⟩

theorem ite (c : Prop) [Decidable c] (h : AllWanted P Q wanted) (hmore : AllWanted P Q more) :
    AllWanted P Q (if c then wanted else more) := by
  split_ifs
  · exact h
  · exact hmore

theorem tidyModule {module : List Char} (hmodule : start.read module = some start)
    (h : AllWanted Complete Complete wanted) : AllWanted Complete Complete ((String.ofList module, none) :: wanted) :=
  consModule (complete_text hmodule) h

theorem tidyName {module name : List Char} (h : start.read module = some start ∧ start.read name = some start)
    (hwanted : AllWanted Complete Complete wanted) :
    AllWanted Complete Complete ((String.ofList module, some (String.ofList name)) :: wanted) :=
  consName (complete_text h.1) (complete_text h.2) hwanted

end AllWanted

namespace Import

variable {P Q : String → Prop}

theorem forall_addName {module name : String} {imports : List Import} (hmodule : P module) (hname : Q name)
    (h : ∀ i ∈ imports, P i.module ∧ ∀ n ∈ i.names, Q n) :
    ∀ i ∈ addName module name imports, P i.module ∧ ∀ n ∈ i.names, Q n := by
  induction imports with
  | nil =>
    intro i hi
    obtain rfl := List.mem_singleton.mp hi
    exact ⟨hmodule, by simpa using hname⟩
  | cons j is ih =>
    obtain ⟨hj, his⟩ := List.forall_mem_cons.mp h
    unfold addName
    split_ifs
    · exact List.forall_mem_cons.mpr ⟨hj, his⟩
    · refine List.forall_mem_cons.mpr ⟨⟨hj.1, ?_⟩, his⟩
      -- the name is added to the import of its module
      intro n hn
      rcases List.mem_append.mp hn with hn | hn
      · exact hj.2 n hn
      · obtain rfl := List.mem_singleton.mp hn
        exact hname
    · exact List.forall_mem_cons.mpr ⟨hj, ih his⟩

/-- What holds of all imports and of what is added holds afterwards. -/
theorem forall_add {imports : List Import} {w : String × Option String}
    (h : ∀ i ∈ imports, P i.module ∧ ∀ n ∈ i.names, Q n) (hw : P w.1 ∧ ∀ name ∈ w.2, Q name) :
    ∀ i ∈ add imports w, P i.module ∧ ∀ n ∈ i.names, Q n := by
  obtain ⟨module, name⟩ := w
  cases name with
  | none =>
    simp only [add, addModule]
    split_ifs
    · exact h
    · intro i hi
      rcases List.mem_append.mp hi with hi | hi
      · exact h i hi
      · obtain rfl := List.mem_singleton.mp hi
        exact ⟨hw.1, by simp⟩
  | some name => exact forall_addName hw.1 (hw.2 name rfl) h

/-- What holds of the modules and the names that are wanted holds of the imports for them. -/
theorem forall_collect {wanted : List (String × Option String)} (h : AllWanted P Q wanted) :
    ∀ i ∈ collect wanted, P i.module ∧ ∀ n ∈ i.names, Q n := by
  -- the imports that are there already are part of the induction
  have hfold : ∀ imports : List Import, (∀ i ∈ imports, P i.module ∧ ∀ n ∈ i.names, Q n) →
      ∀ i ∈ wanted.foldl add imports, P i.module ∧ ∀ n ∈ i.names, Q n := by
    induction wanted with
    | nil => exact fun _ himports => himports
    | cons w ws ih =>
      obtain ⟨hw, hws⟩ := List.forall_mem_cons.mp h
      exact fun imports himports => ih hws _ (forall_add himports hw)
  exact hfold [] (by simp)

end Import

theorem tidy_collect {wanted : List (String × Option String)} (h : AllWanted Complete Complete wanted) :
    ∀ i ∈ Import.collect wanted, i.Tidy :=
  fun i hi => ⟨(Import.forall_collect h i hi).1, (Import.forall_collect h i hi).2⟩

/-! ### Modules -/

theorem complete_gap (prev : Option Decl) (d : Decl) (next : Option Decl) : Complete (d.gap prev next) := by
  have hblank : Complete "\n\n" := complete_text (by decide)
  unfold Decl.gap
  split
  · exact hblank
  · split_ifs
    · exact complete_empty
    · exact hblank
    · exact complete_newline

/-- Declarations follow each other with complete gaps between them. -/
theorem complete_renderDecls {out : String} {ds : List Decl} (prev : Option Decl) (hout : Complete out)
    (h : ∀ d ∈ ds, Complete d.render) : Complete (renderDecls out prev ds) := by
  induction ds generalizing out prev with
  | nil => exact hout
  | cons d ds ih =>
    obtain ⟨hd, hds⟩ := List.forall_mem_cons.mp h
    have hgap : Complete (if out = "" then "" else d.gap prev ds.head?) := by
      split_ifs
      · exact complete_empty
      · exact complete_gap prev d ds.head?
    exact ih (some d) ((hout.append hgap).append hd) hds

/-- The head of a module is complete, with or without a docstring. -/
theorem complete_renderHead {m : Module} (h : ∀ i ∈ m.imports, i.Tidy) : Complete m.renderHead := by
  have himports := complete_renderImports h
  unfold Module.renderHead
  cases m.header with
  | none =>
    dsimp only
    split_ifs
    · exact complete_empty
    · exact (complete_empty.append complete_empty).append himports
    · exact (complete_empty.append complete_newline).append himports
  | some text =>
    -- a docstring stands before the imports, with a line between them
    have hdoc : Complete (docstring text ++ "\n") := (complete_docstring text).append complete_newline
    dsimp only
    split_ifs
    · exact hdoc
    · exact (hdoc.append complete_empty).append himports
    · exact (hdoc.append complete_newline).append himports

/-- The last declaration stands at the end. -/
theorem renderDecls_concat (out : String) (prev : Option Decl) (ds : List Decl) (d : Decl) :
    ∃ front, renderDecls out prev (ds ++ [d]) = front ++ d.render := by
  induction ds generalizing out prev with
  | nil => exact ⟨_, rfl⟩
  | cons e ds ih => exact ih _ (some e)

/-- The text ends with a newline. -/
def EndsLine (t : String) : Prop := ∃ a, t.toList = a ++ ['\n']

theorem EndsLine.after {t : String} (h : EndsLine t) (s : String) : EndsLine (s ++ t) := by
  obtain ⟨a, ha⟩ := h
  exact ⟨s.toList ++ a, by rw [String.toList_append, ha, List.append_assoc]⟩

theorem endsLine_newline (s : String) : EndsLine (s ++ "\n") := ⟨s.toList, String.toList_append⟩

theorem EndsLine.append_indented {s : String} (h : EndsLine s) (depth : Nat) (ls : List String) :
    EndsLine (s ++ indented depth ls) := by
  induction ls generalizing s with
  | nil => simpa [indented] using h
  | cons l ls ih =>
    have hline : EndsLine (s ++ if Text.blank l then "\n" else indent depth ++ l ++ "\n") := by
      split_ifs
      · exact endsLine_newline s
      · exact (endsLine_newline _).after s
    rw [indented, List.map_cons, String.join_cons, ← String.append_assoc]
    exact ih hline

theorem indented_concat (depth : Nat) (ls : List String) {l : String} (hl : Text.blank l = false) :
    indented depth (ls ++ [l]) = indented depth ls ++ (indent depth ++ l) ++ "\n" := by
  have hline : indented depth [l] = indent depth ++ l ++ "\n" := by simp [indented, hl]
  rw [indented_append, hline, String.append_assoc, String.append_assoc, String.append_assoc]

theorem render_entryPoint {body : List String} (h : body.isEmpty = false) :
    (Decl.entryPoint body).render = "if __name__ == \"__main__\":\n" ++ indented 1 body := by
  unfold Decl.render
  simp only [h, Bool.false_eq_true, if_false, String.append_empty]

/-- The lines of a program end with one that cleaning leaves as it is. -/
def EndsSolid (ls : List String) : Prop := ∃ front l, ls = front ++ [l] ∧ Solid (indent 1 ++ l).toList

theorem EndsSolid.after {ls : List String} (h : EndsSolid ls) (front : List String) : EndsSolid (front ++ ls) := by
  obtain ⟨inner, l, rfl, hl⟩ := h
  exact ⟨front ++ inner, l, by rw [List.append_assoc], hl⟩

theorem EndsSolid.ne_nil {ls : List String} (h : EndsSolid ls) : ls ≠ [] := by
  obtain ⟨front, l, rfl, -⟩ := h
  simp

theorem endsSolid_text {cs : List Char} (h : Solid ("    ".toList ++ cs)) :
    EndsSolid [String.ofList cs] := by
  have hlist : (indent 1 ++ String.ofList cs).toList = "    ".toList ++ cs := by
    rw [String.toList_append, String.toList_ofList, indent, String.toList_ofList]
    rfl
  exact ⟨[], _, rfl, by rw [hlist]; exact h⟩

/-- The declarations end with a program. -/
def EndsInProgram (ds : List Decl) : Prop := ∃ front body, ds = front ++ [.entryPoint body] ∧ EndsSolid body

theorem endsInProgram_concat {body : List String} (front : List Decl) (h : EndsSolid body) :
    EndsInProgram (front ++ [.entryPoint body]) :=
  ⟨front, body, rfl, h⟩

theorem EndsInProgram.after {ds : List Decl} (h : EndsInProgram ds) (front : List Decl) :
    EndsInProgram (front ++ ds) := by
  obtain ⟨inner, body, rfl, hbody⟩ := h
  exact ⟨front ++ inner, body, by rw [List.append_assoc], hbody⟩

/-- A solid line has more than its indentation. -/
theorem blank_eq_false_of_solid {depth : Nat} {l : String} (h : Solid (indent depth ++ l).toList) :
    Text.blank l = false := by
  obtain ⟨c, hlast, hc⟩ := h.exists_last
  have hmem := List.mem_of_getLast? hlast
  rw [String.toList_append, List.mem_append, indent, String.toList_ofList] at hmem
  rw [← Bool.not_eq_true, Text.blank, List.all_eq_true]
  intro hall
  rcases hmem with hmem | hmem
  · rw [(List.mem_replicate.mp hmem).2] at hc
    exact absurd hc (by decide)
  · rw [hall c hmem] at hc
    cases hc

/-- The last line of the program stands at the end of what is rendered. -/
theorem EndsInProgram.renderDecls {ds : List Decl} (h : EndsInProgram ds) (out : String) :
    ∃ a l, (renderDecls out none ds).toList = a ++ '\n' :: (l ++ ['\n']) ∧ Solid l := by
  obtain ⟨front, _, rfl, body, l, rfl, hl⟩ := h
  obtain ⟨text, htext⟩ := renderDecls_concat out none front (.entryPoint (body ++ [l]))
  have hmain : EndsLine "if __name__ == \"__main__\":\n" := ⟨"if __name__ == \"__main__\":".toList, by decide⟩
  obtain ⟨a, ha⟩ := (hmain.after text).append_indented 1 body
  have hwhole : Python.renderDecls out none (front ++ [.entryPoint (body ++ [l])]) =
      text ++ "if __name__ == \"__main__\":\n" ++ indented 1 body ++ (indent 1 ++ l) ++ "\n" := by
    rw [htext, render_entryPoint (by simp), indented_concat 1 body (blank_eq_false_of_solid hl)]
    simp only [String.append_assoc]
  refine ⟨a, (indent 1 ++ l).toList, ?_, hl⟩
  rw [hwhole, String.toList_append, String.toList_append, ha, List.append_assoc, List.append_assoc]
  rfl

/-- A solid last line is all that a module's text ends with, so its end is not cut. -/
theorem trimEnd_of_solid {a l : List Char} (hl : Solid l) :
    Text.trimEnd (a ++ '\n' :: (l ++ ['\n'])) = a ++ '\n' :: l := by
  obtain ⟨c, hlast, hc⟩ := hl.exists_last
  obtain ⟨l', rfl⟩ := List.getLast?_eq_some_iff.mp hlast
  have hconcat : a ++ '\n' :: (l' ++ [c] ++ ['\n']) = (a ++ '\n' :: l' ++ [c]) ++ ['\n'] := by simp
  rw [hconcat, Text.trimEnd_concat, if_pos (by decide), Text.trimEnd_concat, if_neg (by simp [hc])]
  simp

/-- So the text of a module that ends with a program is what is rendered of its declarations. -/
theorem EndsInProgram.toList_render {m : Module} (h : EndsInProgram m.decls) :
    m.render.toList = (Python.renderDecls m.renderHead none m.decls).toList ∧
      ∃ a l, m.render.toList = a ++ '\n' :: (l ++ ['\n']) ∧ Solid l := by
  obtain ⟨a, l, ha, hl⟩ := h.renderDecls m.renderHead
  have hrender : m.render.toList = a ++ '\n' :: (l ++ ['\n']) := by
    rw [Module.render, String.toList_append, String.toList_ofList, ha, trimEnd_of_solid hl]
    simp
  exact ⟨hrender.trans ha.symm, a, l, hrender, hl⟩

/-- What the module is rendered of are fragments of code, and it ends with a program. -/
structure Module.Tidy (m : Module) : Prop where
  imports : ∀ i ∈ m.imports, i.Tidy
  decls : ∀ d ∈ m.decls, Complete d.render
  program : EndsInProgram m.decls

/-- **A tidy module reads as code**: from the start of its clean text to the end, with no bracket left open. -/
theorem Module.Tidy.read_clean_render {m : Module} (h : m.Tidy) :
    start.read (Source.clean m.render).toList = some start := by
  have hcomplete := (complete_renderDecls none (complete_renderHead h.imports) h.decls).read
  obtain ⟨hrender, a, l, ha, hl⟩ := h.program.toList_render
  refine read_clean ha hl ?_
  rw [hrender]
  exact hcomplete

end AgentFlow.Python
