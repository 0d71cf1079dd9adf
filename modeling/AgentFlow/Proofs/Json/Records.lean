import AgentFlow.Proofs.Json.Reading
import AgentFlow.TextMap

/-!
# Records that are written by name

A record is written as an object with one row for each field, and rows without a value are left out (`Json.present`). If
the names of the rows differ, reading a field by its name finds the value of its row, and a row that was left out is
absent. Lists and maps are read back as they were written.
-/

namespace AgentFlow

namespace Json

/-- The members of an object: the rows that have a value. -/
def present (rows : List (String × Option Json)) : List (String × Json) := rows.flatMap fun r => member? r.1 id r.2

theorem member?_map {α : Type} (name : String) (f : α → Json) (o : Option α) :
    member? name id (o.map f) = member? name f o := by
  cases o <;> rfl

theorem member?_some (name : String) (v : Json) : member? name id (some v) = [(name, v)] := rfl

theorem member?_ite (name : String) (p : Prop) [Decidable p] (v : Json) :
    member? name id (if p then none else some v) = if p then [] else [(name, v)] := by
  split_ifs <;> rfl

theorem filter_member? (names : List String) (name : String) (o : Option Json) :
    (member? name id o).filter (fun m => names.contains m.1) =
      if names.contains name then member? name id o else [] := by
  cases o with
  | none => simp [member?]
  | some v => simp [member?, List.filter_cons]

/-- A name that no row has finds no member. -/
theorem filter_present_of_not_mem {names : List String} {rows : List (String × Option Json)}
    (h : ∀ r ∈ rows, names.contains r.1 = false) : (present rows).filter (fun m => names.contains m.1) = [] := by
  induction rows with
  | nil => rfl
  | cons r rows ih =>
    obtain ⟨hr, hrows⟩ := List.forall_mem_cons.mp h
    rw [present, List.flatMap_cons, List.filter_append, filter_member?, hr, if_neg (by simp), List.nil_append]
    exact ih hrows

/-- The name of a row finds the value of the row. -/
theorem filter_present {rows : List (String × Option Json)} (hnames : (rows.map Prod.fst).Nodup) {name : String}
    {o : Option Json} (h : (name, o) ∈ rows) :
    (present rows).filter (fun m => [name].contains m.1) = member? name id o := by
  induction rows with
  | nil => cases h
  | cons r rows ih =>
    rw [List.map_cons, List.nodup_cons] at hnames
    obtain ⟨hr, hrows⟩ := hnames
    rw [present, List.flatMap_cons, List.filter_append, filter_member?]
    -- the row is the first, and no later one has its name, or it is a later one
    rcases List.mem_cons.mp h with rfl | hmem
    · have hlater : (present rows).filter (fun m => [name].contains m.1) = [] := by
        refine filter_present_of_not_mem fun r hmem => ?_
        have hne : r.1 ≠ name := fun he => hr (List.mem_map.mpr ⟨r, hmem, he⟩)
        simpa using hne
      rw [if_pos (by simp), ← present, hlater, List.append_nil]
    · have hne : r.1 ≠ name := fun he => hr (List.mem_map.mpr ⟨(name, o), hmem, he.symm⟩)
      rw [if_neg (by simpa using hne), List.nil_append]
      exact ih hrows hmem

theorem itemNumbers_map {α : Type} {write : α → Json} (h : ∀ a, (write a).numbers = []) (as : List α) :
    itemNumbers (as.map write) = [] := by
  induction as with
  | nil => rfl
  | cons a as ih => rw [List.map_cons, itemNumbers, h, ih, List.append_nil]

theorem memberNumbers_append (ms ms' : List (String × Json)) :
    memberNumbers (ms ++ ms') = memberNumbers ms ++ memberNumbers ms' := by
  induction ms with
  | nil => rfl
  | cons m ms ih => rw [List.cons_append, memberNumbers, ih, memberNumbers, List.append_assoc]

/-- Rows without numbers make an object without numbers. -/
theorem memberNumbers_present {rows : List (String × Option Json)} (h : ∀ r ∈ rows, ∀ v ∈ r.2, v.numbers = []) :
    memberNumbers (present rows) = [] := by
  induction rows with
  | nil => rfl
  | cons r rows ih =>
    obtain ⟨hr, hrows⟩ := List.forall_mem_cons.mp h
    have hrow : memberNumbers (member? r.1 id r.2) = [] := by
      cases hv : r.2 with
      | none => rfl
      | some v => rw [member?_some, memberNumbers, hr v hv]; rfl
    rw [present, List.flatMap_cons, memberNumbers_append, hrow, List.nil_append]
    exact ih hrows

/-- Where there is no number, there is none to spell. -/
theorem spelled_of_numbers {v : Json} (h : v.numbers = []) : v.Spelled := by
  intro n hn
  rw [h] at hn
  cases hn

namespace Fields

variable {α : Type} {rows : List (String × Option Json)} {name : String}

/-- A field whose row has a value. -/
theorem get_given (hnames : (rows.map Prod.fst).Nodup) {v : Json} (h : (name, some v) ∈ rows) (position : Nat)
    (absent : Absent α) (read : Json → Option α) :
    (named (present rows)).get position [name] absent read = read v := by
  simp only [get, filter_present hnames h]
  rfl

/-- A field whose row was left out. -/
theorem get_left_out (hnames : (rows.map Prod.fst).Nodup) (h : (name, none) ∈ rows) (position : Nat)
    (absent : Absent α) (read : Json → Option α) :
    (named (present rows)).get position [name] absent read = absent.named? := by
  simp only [get, filter_present hnames h]
  rfl

/-- A field that the record does not have. -/
theorem get_unknown (h : ∀ r ∈ rows, r.1 ≠ name) (position : Nat) (absent : Absent α) (read : Json → Option α) :
    (named (present rows)).get position [name] absent read = absent.named? := by
  have hnone : (present rows).filter (fun m => [name].contains m.1) = [] :=
    filter_present_of_not_mem fun r hr => by simpa using h r hr
  simp only [get, hnone]

/-- A field that is left out if there is no value, and reads as none then. -/
theorem get_optional (hnames : (rows.map Prod.fst).Nodup) {write : α → Json} {o : Option α}
    (h : (name, o.map write) ∈ rows) {read : Json → Option α} (hread : ∀ a, optional? read (write a) = some (some a))
    (position : Nat) :
    (named (present rows)).get position [name] (.default none) (optional? read) = some o := by
  cases o with
  | none => exact get_left_out hnames h position _ _
  | some a => rw [get_given hnames h, hread]

/-- A list that is left out if it is empty, and reads as empty then. -/
theorem get_list (hnames : (rows.map Prod.fst).Nodup) {write : List α → Json} {as : List α}
    (h : (name, if as.isEmpty then none else some (write as)) ∈ rows) {read : Json → Option (List α)}
    (hread : read (write as) = some as) (position : Nat) :
    (named (present rows)).get position [name] (.default []) read = some as := by
  cases as with
  | nil => exact get_left_out hnames h position _ _
  | cons a as => rw [get_given hnames h, hread]

end Fields

/-! ### Lists and texts -/

/-- What is written item by item is read back item by item. -/
theorem mapM_map {α β : Type} {read : β → Option α} {write : α → β} (h : ∀ a, read (write a) = some a) (as : List α) :
    (as.map write).mapM read = some as := by
  induction as with
  | nil => rfl
  | cons a as ih => rw [List.map_cons, List.mapM_cons, h, ih]; rfl

theorem list?_arr {α : Type} {read : Json → Option α} {write : α → Json} (h : ∀ a, read (write a) = some a)
    (as : List α) : list? read (.arr (as.map write)) = some as :=
  mapM_map h as

theorem list?_strs (items : List String) : list? str? (strs items) = some items := by
  refine list?_arr ?_ items
  intro s
  rfl

end Json

/-! ### Maps -/

namespace TextMap

/-- An entry that comes after all others is put at the end. -/
theorem insertEntry_of_lt {k v : String} {es : List (String × String)} (h : ∀ e ∈ es, e.1 < k) :
    insertEntry k v es = es ++ [(k, v)] := by
  induction es with
  | nil => rfl
  | cons e es ih =>
    obtain ⟨he, hes⟩ := List.forall_mem_cons.mp h
    have hnot : ¬ k < e.1 := fun hlt => String.lt_irrefl k (String.lt_trans hlt he)
    rw [insertEntry, if_neg hnot, if_pos he, ih hes, List.cons_append]

/-- Entries in order are taken over one by one. -/
theorem entries_foldl_insert (m : TextMap) (es : List (String × String))
    (h : (m.entries ++ es).Pairwise fun a b => a.1 < b.1) :
    (es.foldl (fun m e => m.insert e.1 e.2) m).entries = m.entries ++ es := by
  induction es generalizing m with
  | nil => simp
  | cons e es ih =>
    -- the next entry comes after all that were taken over
    have hbefore : ∀ a ∈ m.entries, a.1 < e.1 := fun a ha =>
      (List.pairwise_append.mp h).2.2 a ha e List.mem_cons_self
    have hinsert : (m.insert e.1 e.2).entries = m.entries ++ [e] := insertEntry_of_lt hbefore
    rw [List.foldl_cons, ih, hinsert, List.append_assoc, List.singleton_append]
    rwa [hinsert, List.append_assoc, List.singleton_append]

/-- A map is made again of its entries. -/
theorem ofList_entries (m : TextMap) : ofList m.entries = m := by
  have hentries := entries_foldl_insert empty m.entries m.sorted
  cases m with
  | mk entries sorted => exact (TextMap.mk.injEq ..).mpr hentries

/-- A map is read back from the object it is written as. -/
theorem ofJson?_toJson (m : TextMap) : ofJson? m.toJson = some m := by
  have hread : (m.entries.map fun e => (e.1, Json.str e.2)).mapM
      (fun (m : String × Json) => m.2.str?.map fun s => (m.1, s)) = some m.entries := by
    refine Json.mapM_map ?_ m.entries
    intro e
    rfl
  rw [toJson, ofJson?, hread, Option.map_some, ofList_entries]

theorem numbers_toJson (m : TextMap) : m.toJson.numbers = [] := by
  rw [toJson, Json.numbers]
  induction m.entries with
  | nil => rfl
  | cons e es ih => exact ih

end TextMap

end AgentFlow
