import AgentFlow.Json.Fields

/-!
# Maps from texts to texts

A map is the list of its entries in strictly increasing order of their keys, so two maps with the same entries
are equal. Inserting keeps the order; an entry under the same key is replaced.
-/

namespace AgentFlow

/-- A finite map from texts to texts. -/
structure TextMap where
  entries : List (String × String)
  sorted : entries.Pairwise fun a b => a.1 < b.1
  deriving DecidableEq

namespace TextMap

/-- The map without entries. -/
def empty : TextMap := ⟨[], .nil⟩

/-- `(k, v)` put in its place among sorted entries. -/
def insertEntry (k v : String) : List (String × String) → List (String × String)
  | [] => [(k, v)]
  | e :: es =>
    if k < e.1 then (k, v) :: e :: es
    else if e.1 < k then e :: insertEntry k v es
    else (k, v) :: es

theorem fst_mem_insertEntry {k v : String} {es : List (String × String)} {x : String × String}
    (h : x ∈ insertEntry k v es) : x.1 = k ∨ x ∈ es := by
  induction es with
  | nil => exact .inl (by simp_all [insertEntry])
  | cons e es ih =>
    unfold insertEntry at h
    split at h
    · rcases List.mem_cons.mp h with rfl | h
      · exact .inl rfl
      · exact .inr h
    · split at h
      · rcases List.mem_cons.mp h with rfl | h
        · exact .inr List.mem_cons_self
        · exact (ih h).imp_right (List.mem_cons_of_mem _)
      · rcases List.mem_cons.mp h with rfl | h
        · exact .inl rfl
        · exact .inr (List.mem_cons_of_mem _ h)

/-- Inserting keeps the entries in order. -/
theorem sorted_insertEntry (k v : String) {es : List (String × String)}
    (h : es.Pairwise fun a b => a.1 < b.1) : (insertEntry k v es).Pairwise fun a b => a.1 < b.1 := by
  induction es with
  | nil => exact List.pairwise_singleton _ _
  | cons e es ih =>
    obtain ⟨he, hes⟩ := List.pairwise_cons.mp h
    unfold insertEntry
    split
    next hk =>
      refine List.pairwise_cons.mpr ⟨fun x hx => ?_, h⟩
      rcases List.mem_cons.mp hx with rfl | hx
      · exact hk
      · exact String.lt_trans hk (he x hx)
    next hk =>
      split
      next hk' =>
        refine List.pairwise_cons.mpr ⟨fun x hx => ?_, ih hes⟩
        rcases fst_mem_insertEntry hx with hx | hx
        · exact hx ▸ hk'
        · exact he x hx
      next hk' =>
        have same : e.1 = k := String.le_antisymm (String.not_lt.mp hk) (String.not_lt.mp hk')
        exact List.pairwise_cons.mpr ⟨fun x hx => same ▸ he x hx, hes⟩

/-- The map with `v` under `k`. -/
def insert (m : TextMap) (k v : String) : TextMap :=
  ⟨insertEntry k v m.entries, sorted_insertEntry k v m.sorted⟩

/-- The map of the entries, the last one under a key counting. -/
def ofList (es : List (String × String)) : TextMap := es.foldl (fun m e => m.insert e.1 e.2) empty

/-- `m` with the entries of `other`, which win. -/
def extend (m other : TextMap) : TextMap := other.entries.foldl (fun m e => m.insert e.1 e.2) m

/-- The text under a key. -/
def get? (m : TextMap) (k : String) : Option String := (m.entries.find? fun e => e.1 == k).map (·.2)

def toJson (m : TextMap) : Json := .obj (m.entries.map fun e => (e.1, .str e.2))

/-- The map that an object of strings spells. -/
def ofJson? : Json → Option TextMap
  | .obj members =>
    (members.mapM fun (m : String × Json) => m.2.str?.map fun s => (m.1, s)).map ofList
  | _ => none

end TextMap

end AgentFlow
