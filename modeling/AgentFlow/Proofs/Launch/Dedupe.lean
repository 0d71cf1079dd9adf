import AgentFlow.Proofs.Launch.Joining

/-!
# Joining any records

Records that a caller supplies list whatever nodes they like, also one node twice or in two records. Joining treats them
by one rule: of every key the first record stays, and it takes up the nodes of the later ones that it does not list
(`Joins`). What is joined has one record for each key, so joining it again changes nothing, and joining more records to
it is the same as joining all of them at once.
-/

namespace AgentFlow.LaunchConfig

/-- The ids that are not among `known`, in order and each once. -/
def newIds (known ids : List String) : List String := (ids.filter fun id => !known.contains id).eraseDups

theorem mem_newIds {known ids : List String} {id : String} : id ∈ newIds known ids ↔ id ∈ ids ∧ id ∉ known := by
  simp [newIds, List.mem_eraseDups]

theorem newIds_cons_of_mem {known : List String} {id : String} (h : id ∈ known) (ids : List String) :
    newIds known (id :: ids) = newIds known ids := by
  simp [newIds, h]

/-- An id that is new is known from then on. -/
theorem newIds_cons_of_not_mem {known : List String} {id : String} (h : id ∉ known) (ids : List String) :
    newIds known (id :: ids) = id :: newIds (known ++ [id]) ids := by
  have hfirst : ((id :: ids).filter fun x => !known.contains x) = id :: ids.filter fun x => !known.contains x := by
    simp [h]
  have hrest : ((ids.filter fun x => !known.contains x).filter fun x => !x == id) =
      ids.filter fun x => !(known ++ [id]).contains x := by
    rw [List.filter_filter]
    refine List.filter_congr fun x _ => ?_
    by_cases hx : x = id <;> simp [hx]
  rw [newIds, hfirst, List.eraseDups_cons, hrest, newIds]

/-- Adding ids one by one adds those that are new. -/
theorem addSources_eq (c : LaunchConfig) (ids : List String) :
    c.addSources ids = { c with sources := c.sources ++ newIds c.sources ids } := by
  suffices ∀ sources : List String,
      ids.foldl (fun s id => if s.contains id then s else s ++ [id]) sources = sources ++ newIds sources ids by
    rw [addSources, this]
  induction ids with
  | nil => simp [newIds]
  | cons id ids ih =>
    intro sources
    rw [List.foldl_cons, ih]
    -- an id that is listed already is passed over
    by_cases hid : id ∈ sources
    · simp [hid, newIds_cons_of_mem]
    · simp [hid, newIds_cons_of_not_mem]

/-- The nodes of the first record with a key are those of all records with the key. -/
theorem addSources_sharedSources {before after : List LaunchConfig} {c : LaunchConfig}
    (h : ∀ b ∈ before, b.launchKey ≠ c.launchKey) :
    c.addSources (c.sharedSources (before ++ c :: after)) = c.addSources (c.sharedSources after) := by
  have hshared : c.sharedSources (before ++ c :: after) = c.sources ++ c.sharedSources after := by
    induction before with
    | nil => exact sharedSources_cons_of_eq rfl after
    | cons b before ih =>
      obtain ⟨hb, hbefore⟩ := List.forall_mem_cons.mp h
      rw [List.cons_append, sharedSources_cons_of_ne hb, ih hbefore]
  rw [hshared, ← addSources_addSources, addSources_of_subset (List.Subset.refl c.sources)]

/-! ### What joining does -/

/-- `ds` is what joining makes of `cs`. -/
structure Joins (cs ds : List LaunchConfig) : Prop where
  /-- There is one record for each key, in the order in which the keys are first seen. -/
  keys : ds.map (·.launchKey) = (cs.map (·.launchKey)).eraseDups
  /-- It is the first record with the key, and lists besides its own nodes those of the later records with the key that
  it does not list already, in order and each once. -/
  first : ∀ d ∈ ds, ∃ before c after, cs = before ++ c :: after ∧ (∀ b ∈ before, b.launchKey ≠ c.launchKey) ∧
    d = { c with sources := c.sources ++ newIds c.sources (c.sharedSources after) }
  /-- The nodes that launch a package in some way are the same before and after. -/
  nodes : ∀ key id, (∃ c ∈ cs, c.launchKey = key ∧ id ∈ c.sources) ↔ ∃ d ∈ ds, d.launchKey = key ∧ id ∈ d.sources

/-- The keys stay, each at its first place. -/
theorem map_launchKey_dedupe (cs : List LaunchConfig) :
    (dedupe cs).map (·.launchKey) = (cs.map (·.launchKey)).eraseDups := by
  have hleaders : leaders id (cs.map launchKey) = (leaders launchKey cs).map launchKey := leaders_map launchKey cs
  rw [dedupe_eq, List.map_map]
  exact hleaders.symm

/-- A record that stays is the first with its key. -/
theorem exists_first_of_mem_dedupe {d : LaunchConfig} {cs : List LaunchConfig} (h : d ∈ dedupe cs) :
    ∃ before c after, cs = before ++ c :: after ∧ (∀ b ∈ before, b.launchKey ≠ c.launchKey) ∧
      d = c.addSources (c.sharedSources after) := by
  obtain ⟨c, hfirst, rfl⟩ := (mem_dedupe cs).mp h
  obtain ⟨-, before, after, rfl, hbefore⟩ := List.find?_eq_some_iff_append.mp hfirst
  have hother : ∀ b ∈ before, b.launchKey ≠ c.launchKey := by
    intro b hb
    simpa using hbefore b hb
  exact ⟨before, c, after, rfl, hother, addSources_sharedSources hother⟩

theorem mem_sharedSources {c : LaunchConfig} {cs : List LaunchConfig} {id : String} :
    id ∈ c.sharedSources cs ↔ ∃ d ∈ cs, d.launchKey = c.launchKey ∧ id ∈ d.sources := by
  simp [sharedSources, and_assoc]

theorem mem_sources_addSources {c : LaunchConfig} {ids : List String} {id : String} :
    id ∈ (c.addSources ids).sources ↔ id ∈ c.sources ∨ id ∈ ids := by
  rw [addSources_eq]
  by_cases hid : id ∈ c.sources <;> simp [mem_newIds, hid]

/-- No node is lost, and none is made up. -/
theorem mem_sources_dedupe (cs : List LaunchConfig) (key : Transport × String × String) (id : String) :
    (∃ c ∈ cs, c.launchKey = key ∧ id ∈ c.sources) ↔ ∃ d ∈ dedupe cs, d.launchKey = key ∧ id ∈ d.sources := by
  constructor
  · rintro ⟨c, hc, rfl, hid⟩
    -- the first record with the key lists the node, be it its own or not
    obtain ⟨k, hk, hkey⟩ := exists_mem_leaders launchKey hc
    have hshared : id ∈ k.sharedSources cs := mem_sharedSources.mpr ⟨c, hc, hkey.symm, hid⟩
    exact ⟨_, (mem_dedupe cs).mpr ⟨k, mem_leaders.mp hk, rfl⟩, hkey, mem_sources_addSources.mpr (.inr hshared)⟩
  · rintro ⟨d, hd, rfl, hid⟩
    obtain ⟨k, hfirst, rfl⟩ := (mem_dedupe cs).mp hd
    rcases mem_sources_addSources.mp hid with hown | hshared
    · exact ⟨k, List.mem_of_find?_eq_some hfirst, rfl, hown⟩
    · exact mem_sharedSources.mp hshared

theorem joins_dedupe (cs : List LaunchConfig) : Joins cs (dedupe cs) where
  keys := map_launchKey_dedupe cs
  first d hd := by
    obtain ⟨before, c, after, hcs, hbefore, rfl⟩ := exists_first_of_mem_dedupe hd
    exact ⟨before, c, after, hcs, hbefore, addSources_eq c _⟩
  nodes := mem_sources_dedupe cs

/-! ### Joining again -/

/-- Records with different keys stay as they are. -/
theorem dedupe_of_nodup {cs : List LaunchConfig} (h : (cs.map (·.launchKey)).Nodup) : dedupe cs = cs := by
  induction cs with
  | nil => rfl
  | cons c cs ih =>
    obtain ⟨hc, hcs⟩ := List.nodup_cons.mp h
    have hother : ∀ d ∈ cs, d.launchKey ≠ c.launchKey := by
      intro d hd hkey
      exact hc (List.mem_map.mpr ⟨d, hd, hkey⟩)
    have hnone : c.sharedSources cs = [] := by
      refine List.eq_nil_iff_forall_not_mem.mpr fun id hid => ?_
      obtain ⟨d, hd, hkey, -⟩ := mem_sharedSources.mp hid
      exact hother d hd hkey
    have hall : others launchKey cs c = cs := List.filter_eq_self.mpr fun d hd => by simpa using hother d hd
    rw [dedupe_cons, hnone, hall, ih hcs]
    rfl

/-- Joining again changes nothing. -/
theorem dedupe_dedupe (cs : List LaunchConfig) : dedupe (dedupe cs) = dedupe cs := by
  refine dedupe_of_nodup ?_
  rw [dedupe_eq, List.map_map]
  exact nodup_map_leaders cs

theorem dedupe_append (xs ys : List LaunchConfig) : dedupe (xs ++ ys) = ys.foldl absorb (dedupe xs) :=
  List.foldl_append

/-- **Joining keeps the first record of each key, with the nodes of all, and absorbs itself.** -/
theorem dedupe_keeps_first_and_absorbs (xs ys : List LaunchConfig) :
    Joins xs (dedupe xs) ∧ dedupe (dedupe xs) = dedupe xs ∧ dedupe (dedupe xs ++ ys) = dedupe (xs ++ ys) := by
  refine ⟨joins_dedupe xs, dedupe_dedupe xs, ?_⟩
  rw [dedupe_append, dedupe_append, dedupe_dedupe]

end AgentFlow.LaunchConfig
