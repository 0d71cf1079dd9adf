import AgentFlow.Proofs.Python.Rows

/-!
# The width of rendered expressions

An expression is written on one row if it fits there, and what has to be broken gets a row for each of its items, so a
row that is too wide should hold nothing that could be broken further. This is so but for one column: an expression is
measured without the comma that its list, dictionary or call puts after it. An item that ends just at the limit stays
on its row, and the comma comes to stand behind the limit (`Row.Overhangs`).
-/

namespace AgentFlow.Python

open Text

/-! ### Lines and their widths -/

/-- The lines of a text: what stands between its newlines. -/
def textLines (s : String) : List String := (splitWhere (· == '\n') s.toList).map String.ofList

theorem size_ofList_cons (c : Char) (cs : List Char) :
    (String.ofList (c :: cs)).utf8ByteSize = c.utf8Size + (String.ofList cs).utf8ByteSize := by
  rw [String.ofList_cons, String.utf8ByteSize_append, String.utf8ByteSize_singleton]

/-- Blanks up to a column. -/
def blanks (column : Nat) : String := String.ofList (List.replicate column ' ')

@[simp] theorem size_blanks (column : Nat) : (blanks column).utf8ByteSize = column := by
  induction column with
  | zero => rfl
  | succ column ih =>
    rw [blanks, List.replicate_succ, size_ofList_cons, ← blanks, ih, Nat.add_comm]
    rfl

/-- The expression cannot be broken over rows: it is a literal, a name or a text, or it has no items. -/
def Expr.isSingle : Expr → Bool
  | .str _ => true
  | .ident _ => true
  | .bool _ => true
  | .int _ => true
  | .list items => items.isEmpty
  | .dict entries => entries.isEmpty
  | .call _ args => args.isEmpty
  | .raw _ => true

/-- What an item is called by. -/
inductive Lead where
  | bare
  | key (k : String)
  | keyword (name : String)

namespace Lead

def text : Lead → String
  | .bare => ""
  | .key k => quote k ++ ": "
  | .keyword name => name ++ "="

def ofArg : Option String → Lead
  | none => .bare
  | some name => .keyword name

theorem text_ofArg (k : Option String) : (ofArg k).text = argLead k := by cases k <;> rfl

end Lead

/-- What stands on a row, between the key or keyword before it and the comma after it. -/
inductive Content where
  /-- An expression that is not broken. -/
  | whole (e : Expr)
  /-- The start of an expression that is broken: a callee and a bracket, or a bracket. -/
  | opening (text : String)
  /-- The bracket at the end of such an expression. -/
  | closing (text : String)

namespace Content

def text : Content → String
  | .whole e => e.layout.flat
  | .opening text => text
  | .closing text => text

/-- Nothing here can be broken further. -/
def isSingle : Content → Bool
  | .whole e => e.isSingle
  | .opening _ => true
  | .closing _ => true

end Content

/-- A comma, where there is one. -/
def commaText (comma : Bool) : String := if comma then "," else ""

/-- A row of an expression, beginning at column `margin`. -/
structure Row where
  margin : Nat
  lead : Lead
  content : Content
  comma : Bool

namespace Row

/-- The row without its comma. -/
def body (r : Row) : String := blanks r.margin ++ r.lead.text ++ r.content.text

def text (r : Row) : String := r.body ++ commaText r.comma

/-- The lines of a row. There is more than one if a name or a text that stands as it is has newlines. -/
def lines (r : Row) : List String := textLines r.text

end Row

/-- The rows of an expression that has the rows `inner` between its brackets if it is broken. -/
def brokenRows (margin : Nat) (lead : Lead) (comma : Bool) (depth : Nat) (e : Expr) (opening closing : String)
    (inner : List Row) : List Row :=
  if margin + lead.text.utf8ByteSize + e.layout.flat.utf8ByteSize ≤ maxWidth || e.isSingle then
    [⟨margin, lead, .whole e, comma⟩]
  else ⟨margin, lead, .opening opening, false⟩ :: inner ++ [⟨indentWidth depth, .bare, .closing closing, comma⟩]

mutual

/-- The rows of an expression whose first row begins at column `margin`, later ones `depth` levels deep. -/
def Expr.rows (margin : Nat) (lead : Lead) (comma : Bool) (depth : Nat) : Expr → List Row
  | .str s => [⟨margin, lead, .whole (.str s), comma⟩]
  | .ident name => [⟨margin, lead, .whole (.ident name), comma⟩]
  | .bool b => [⟨margin, lead, .whole (.bool b), comma⟩]
  | .int i => [⟨margin, lead, .whole (.int i), comma⟩]
  | .list items => brokenRows margin lead comma depth (.list items) "[" "]" (rowsOfItems (depth + 1) items)
  | .dict entries =>
    brokenRows margin lead comma depth (.dict entries) "\x7b" "\x7d" (rowsOfEntries (depth + 1) entries)
  | .call callee args =>
    brokenRows margin lead comma depth (.call callee args) (callee ++ "(") ")" (rowsOfArgs (depth + 1) args)
  | .raw text => [⟨margin, lead, .whole (.raw text), comma⟩]

def rowsOfItems (depth : Nat) : List Expr → List Row
  | [] => []
  | e :: es => e.rows (indentWidth depth) .bare true depth ++ rowsOfItems depth es

def rowsOfEntries (depth : Nat) : List (String × Expr) → List Row
  | [] => []
  | (k, e) :: es => e.rows (indentWidth depth) (.key k) true depth ++ rowsOfEntries depth es

def rowsOfArgs (depth : Nat) : List (Option String × Expr) → List Row
  | [] => []
  | (k, e) :: es => e.rows (indentWidth depth) (.ofArg k) true depth ++ rowsOfArgs depth es

end

section Texts

variable {margin depth : Nat} {lead : Lead} {comma : Bool} {e : Expr} {opening closing : String} {inner : List Row}

/-- The rows of a group are those of its layout. -/
theorem map_text_brokenRows {items : List (String × Layout)} (hlayout : e.layout = .group opening items closing)
    (hsingle : e.isSingle = items.isEmpty) (hinner : inner.map Row.text = itemRows (depth + 1) items) :
    (brokenRows margin lead comma depth e opening closing inner).map Row.text =
      e.layout.rows (blanks margin ++ lead.text) (commaText comma) depth (margin + lead.text.utf8ByteSize) := by
  have hflat : e.layout.flat = opening ++ flatItems items ++ closing := by rw [hlayout, Layout.flat]
  have hopening : Row.text ⟨margin, lead, .opening opening, false⟩ = blanks margin ++ lead.text ++ opening :=
    String.append_empty
  have hclosing : Row.text ⟨indentWidth depth, .bare, .closing closing, comma⟩ =
      indent depth ++ closing ++ commaText comma := by
    rw [Row.text, Row.body, Lead.text, String.append_empty]
    rfl
  rw [brokenRows, hflat, hsingle, hlayout, Layout.rows]
  by_cases hfits : (decide (margin + lead.text.utf8ByteSize + (opening ++ flatItems items ++ closing).utf8ByteSize ≤
      maxWidth) || items.isEmpty) = true
  · rw [if_pos hfits, if_pos hfits, List.map_singleton, Row.text, Row.body, Content.text, hflat]
  · rw [if_neg hfits, if_neg hfits, List.map_append, List.map_cons, hopening, hinner, List.map_singleton, hclosing]

end Texts

mutual

theorem Expr.map_text_rows (margin : Nat) (lead : Lead) (comma : Bool) (depth : Nat) : ∀ e : Expr,
    (e.rows margin lead comma depth).map Row.text =
      e.layout.rows (blanks margin ++ lead.text) (commaText comma) depth (margin + lead.text.utf8ByteSize)
  | .str _ => rfl
  | .ident _ => rfl
  | .bool _ => rfl
  | .int _ => rfl
  | .list items => map_text_brokenRows (by rw [Expr.layout]) (by cases items <;> rfl) (map_text_rowsOfItems _ items)
  | .dict entries =>
    map_text_brokenRows (by rw [Expr.layout]) (by cases entries <;> rfl) (map_text_rowsOfEntries _ entries)
  | .call _ args => map_text_brokenRows (by rw [Expr.layout]) (by cases args <;> rfl) (map_text_rowsOfArgs _ args)
  | .raw _ => rfl

theorem map_text_rowsOfItems (depth : Nat) : ∀ items : List Expr,
    (rowsOfItems depth items).map Row.text = itemRows depth (layoutItems items)
  | [] => rfl
  | e :: es => by
    rw [rowsOfItems, List.map_append, e.map_text_rows, map_text_rowsOfItems depth es, layoutItems, itemRows]
    rfl

theorem map_text_rowsOfEntries (depth : Nat) : ∀ entries : List (String × Expr),
    (rowsOfEntries depth entries).map Row.text = itemRows depth (layoutEntries entries)
  | [] => rfl
  | (k, e) :: es => by
    rw [rowsOfEntries, List.map_append, e.map_text_rows, map_text_rowsOfEntries depth es, layoutEntries, itemRows]
    rfl

theorem map_text_rowsOfArgs (depth : Nat) : ∀ args : List (Option String × Expr),
    (rowsOfArgs depth args).map Row.text = itemRows depth (layoutArgs args)
  | [] => rfl
  | (k, e) :: es => by
    rw [rowsOfArgs, List.map_append, e.map_text_rows, map_text_rowsOfArgs depth es, layoutArgs, itemRows,
      Lead.text_ofArg]
    rfl

end

/-- Unless it cannot be broken, the row fits without its comma. -/
def Row.Placed (r : Row) : Prop := r.content.isSingle = false → r.body.utf8ByteSize ≤ maxWidth

section Placed

variable {margin depth : Nat} {lead : Lead} {comma : Bool} {e : Expr} {opening closing : String} {inner : List Row}

theorem placed_of_isSingle (h : e.isSingle = true) : ∀ r ∈ [Row.mk margin lead (.whole e) comma], r.Placed := by
  intro r hr hbreakable
  rw [List.mem_singleton.mp hr, Content.isSingle, h] at hbreakable
  cases hbreakable

/-- A group that is not broken fits, or has nothing to break. -/
theorem placed_brokenRows (hinner : ∀ r ∈ inner, r.Placed) :
    ∀ r ∈ brokenRows margin lead comma depth e opening closing inner, r.Placed := by
  unfold brokenRows
  split_ifs with hfits
  · rcases Bool.or_eq_true_iff.mp hfits with hwidth | hsingle
    · intro r hr _
      rw [List.mem_singleton.mp hr, Row.body, String.utf8ByteSize_append, String.utf8ByteSize_append, size_blanks]
      exact of_decide_eq_true hwidth
    · exact placed_of_isSingle hsingle
  · -- brackets of what is broken cannot be broken themselves
    intro r hr hbreakable
    rcases List.mem_append.mp hr with hr | hr
    · rcases List.mem_cons.mp hr with rfl | hr
      · cases hbreakable
      · exact hinner r hr hbreakable
    · rw [List.mem_singleton.mp hr] at hbreakable
      cases hbreakable

end Placed

mutual

theorem Expr.placed_rows (margin : Nat) (lead : Lead) (comma : Bool) (depth : Nat) : ∀ e : Expr,
    ∀ r ∈ e.rows margin lead comma depth, r.Placed
  | .str _ => placed_of_isSingle rfl
  | .ident _ => placed_of_isSingle rfl
  | .bool _ => placed_of_isSingle rfl
  | .int _ => placed_of_isSingle rfl
  | .list items => placed_brokenRows (placed_rowsOfItems _ items)
  | .dict entries => placed_brokenRows (placed_rowsOfEntries _ entries)
  | .call _ args => placed_brokenRows (placed_rowsOfArgs _ args)
  | .raw _ => placed_of_isSingle rfl

theorem placed_rowsOfItems (depth : Nat) : ∀ items : List Expr, ∀ r ∈ rowsOfItems depth items, r.Placed
  | [] => by simp [rowsOfItems]
  | e :: es => List.forall_mem_append.mpr ⟨e.placed_rows _ _ _ _, placed_rowsOfItems depth es⟩

theorem placed_rowsOfEntries (depth : Nat) : ∀ entries : List (String × Expr),
    ∀ r ∈ rowsOfEntries depth entries, r.Placed
  | [] => by simp [rowsOfEntries]
  | (_, e) :: es => List.forall_mem_append.mpr ⟨e.placed_rows _ _ _ _, placed_rowsOfEntries depth es⟩

theorem placed_rowsOfArgs (depth : Nat) : ∀ args : List (Option String × Expr), ∀ r ∈ rowsOfArgs depth args, r.Placed
  | [] => by simp [rowsOfArgs]
  | (_, e) :: es => List.forall_mem_append.mpr ⟨e.placed_rows _ _ _ _, placed_rowsOfArgs depth es⟩

end

namespace Row

variable {r : Row} {line : String}

end Row

end AgentFlow.Python
