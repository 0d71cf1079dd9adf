import Mathlib.Data.List.Nodup
import Mathlib.Data.List.Pairwise
import Mathlib.Tactic.SplitIfs
import AgentFlow.Launch.OfGraph

/-!
# Joined launch records

Records with the same key are joined one by one. Here the outcome is said at once: of every key the first record stays,
with the nodes of all records that have the key (`dedupe_eq`). For a graph with unique ids this means that every tool
server has one record, which is that of the first protocol node that launches it, and lists the protocol nodes that
launch it (`launchConfigs_eq`). So the records share out the protocol nodes among them (`launchConfigs_share_out`).
-/

namespace AgentFlow

/-! ### The first of each key -/

section Leaders

variable {α β γ : Type} [BEq β] (key : α → β)

/-- The elements before which none has the same key, in order. -/
def leaders (xs : List α) : List α := xs.eraseDupsBy fun x y => key x == key y

/-- The elements with the key of `x`, in order. -/
def followers (xs : List α) (x : α) : List α := xs.filter fun y => key y == key x

/-- The elements with other keys than `x`, in order. -/
def others (xs : List α) (x : α) : List α := xs.filter fun y => !(key y == key x)

/-- The first element leads, and those with its key do not. -/
theorem leaders_cons (x : α) (xs : List α) : leaders key (x :: xs) = x :: leaders key (others key xs x) := by
  have hothers : (xs.filter fun y => decide ((key y == key x) = false)) = others key xs x :=
    List.filter_congr fun y _ => by cases h : key y == key x <;> rfl
  rw [leaders, List.eraseDupsBy_cons, hothers, leaders]

/-- The first element takes all elements with its key away, so an induction goes on with the others, not with the
tail. -/
theorem leaders_induction {motive : List α → Prop} (nil : motive [])
    (cons : ∀ x xs, motive (others key xs x) → motive (x :: xs)) (xs : List α) : motive xs := by
  match xs with
  | [] => exact nil
  | x :: xs => exact cons x xs (leaders_induction nil cons (others key xs x))
termination_by xs.length
decreasing_by exact Nat.lt_succ_of_le (List.length_filter_le _ _)

variable {key}

/-- Elements that lead stay in order. -/
theorem sublist_leaders (xs : List α) : (leaders key xs).Sublist xs := by
  induction xs using leaders_induction key with
  | nil => exact List.Sublist.refl []
  | cons x xs ih =>
    rw [leaders_cons]
    exact (ih.trans List.filter_sublist).cons_cons x

/-- Only the keys decide which elements lead. -/
theorem leaders_map (f : γ → α) (xs : List γ) :
    leaders key (xs.map f) = (leaders (fun x => key (f x)) xs).map f := by
  induction xs using leaders_induction (fun x => key (f x)) with
  | nil => rfl
  | cons x xs ih =>
    have hothers : others key (xs.map f) (f x) = (others (fun x => key (f x)) xs x).map f := by
      simp [others, List.filter_map, Function.comp_def]
    rw [List.map_cons, leaders_cons, leaders_cons, List.map_cons, hothers, ih]

variable [LawfulBEq β]

theorem mem_others {xs : List α} {x y : α} : y ∈ others key xs x ↔ y ∈ xs ∧ key y ≠ key x := by
  simp [others]

theorem key_ne_of_mem_leaders {xs : List α} {x y : α} (h : y ∈ leaders key (others key xs x)) : key y ≠ key x :=
  (mem_others.mp ((sublist_leaders _).subset h)).2

/-- No two elements that lead have the same key. -/
theorem nodup_map_leaders (xs : List α) : ((leaders key xs).map key).Nodup := by
  induction xs using leaders_induction key with
  | nil => exact List.nodup_nil
  | cons x xs ih =>
    rw [leaders_cons, List.map_cons, List.nodup_cons]
    refine ⟨?_, ih⟩
    intro h
    obtain ⟨y, hy, hkey⟩ := List.mem_map.mp h
    exact key_ne_of_mem_leaders hy hkey

/-- Other keys are found among the others as well. -/
theorem followers_others {xs : List α} {x y : α} (h : key y ≠ key x) :
    followers key (others key xs x) y = followers key (x :: xs) y := by
  have hfirst : followers key (x :: xs) y = followers key xs y := by simp [followers, h.symm]
  rw [hfirst, followers, others, List.filter_filter]
  refine List.filter_congr fun z _ => ?_
  by_cases hz : key z = key y
  · simp [hz, h]
  · simp [hz]

/-- An element leads exactly if it is the first one with its key. -/
theorem mem_leaders {xs : List α} {x : α} :
    x ∈ leaders key xs ↔ xs.find? (fun y => key y == key x) = some x := by
  rw [← List.head?_filter]
  show _ ↔ (followers key xs x).head? = some x
  induction xs using leaders_induction key with
  | nil => simp [leaders, followers]
  | cons y xs ih =>
    rw [leaders_cons, List.mem_cons]
    -- with the key of the first element, no later one leads
    by_cases hkey : key x = key y
    · have hout : x ∉ leaders key (others key xs y) := fun h => key_ne_of_mem_leaders h hkey
      simp [followers, hkey, hout, eq_comm]
    · have hne : x ≠ y := fun h => hkey (h ▸ rfl)
      rw [ih, followers_others hkey]
      simp [hne]

variable (key) in
/-- For each element there is one with its key that leads. -/
theorem exists_mem_leaders {xs : List α} {x : α} (h : x ∈ xs) : ∃ y ∈ leaders key xs, key y = key x := by
  have hsome : (xs.find? fun y => key y == key x).isSome = true := List.find?_isSome.mpr ⟨x, h, beq_self_eq_true _⟩
  obtain ⟨y, hy⟩ := Option.isSome_iff_exists.mp hsome
  have hkey : key y = key x := by simpa using List.find?_some hy
  exact ⟨y, mem_leaders.mpr (by rw [hkey, hy]), hkey⟩

/-- Together with their followers, the elements that lead are all. -/
theorem perm_flatMap_followers (xs : List α) : ((leaders key xs).flatMap (followers key xs)).Perm xs := by
  induction xs using leaders_induction key with
  | nil => exact .nil
  | cons x xs ih =>
    have hfirst : followers key (x :: xs) x = x :: followers key xs x := by simp [followers]
    have hrest : (leaders key (others key xs x)).flatMap (followers key (x :: xs)) =
        (leaders key (others key xs x)).flatMap (followers key (others key xs x)) := by
      refine List.flatMap_congr fun y hy => ?_
      exact (followers_others (key_ne_of_mem_leaders hy)).symm
    rw [leaders_cons, List.flatMap_cons, hfirst, hrest, List.cons_append]
    exact .cons x ((ih.append_left _).trans (List.filter_append_perm _ xs))

end Leaders

namespace LaunchConfig

@[simp] theorem launchKey_addSources (c : LaunchConfig) (ids : List String) :
    (c.addSources ids).launchKey = c.launchKey := rfl

theorem addSources_addSources (c : LaunchConfig) (ids ids' : List String) :
    (c.addSources ids).addSources ids' = c.addSources (ids ++ ids') := by
  simp [addSources, List.foldl_append]

/-- Ids that are listed already are left out. -/
theorem addSources_of_subset {c : LaunchConfig} {ids : List String} (h : ids ⊆ c.sources) : c.addSources ids = c := by
  have hsame : ids.foldl (fun s id => if s.contains id then s else s ++ [id]) c.sources = c.sources := by
    induction ids with
    | nil => rfl
    | cons id ids ih =>
      obtain ⟨hid, hids⟩ := List.cons_subset.mp h
      simpa [hid] using ih hids
  rw [addSources, hsame]

/-- New ids are all added. -/
theorem sources_addSources {c : LaunchConfig} {ids : List String} (h : (c.sources ++ ids).Nodup) :
    (c.addSources ids).sources = c.sources ++ ids := by
  suffices ∀ sources : List String, (sources ++ ids).Nodup →
      ids.foldl (fun s id => if s.contains id then s else s ++ [id]) sources = sources ++ ids from this _ h
  clear h
  induction ids with
  | nil => simp
  | cons id ids ih =>
    intro sources hnodup
    have hnew : id ∉ sources := fun hid => (List.nodup_append.mp hnodup).2.2 id hid id (by simp) rfl
    have hrest : (sources ++ [id] ++ ids).Nodup := by simpa using hnodup
    simpa [hnew] using ih _ hrest

/-! ### The outcome of joining -/

/-- The nodes of the records with the key of `c`. -/
def sharedSources (c : LaunchConfig) (cs : List LaunchConfig) : List String :=
  (cs.filter fun d => d.launchKey == c.launchKey).flatMap (·.sources)

theorem sharedSources_cons_of_eq {c d : LaunchConfig} (h : d.launchKey = c.launchKey) (cs : List LaunchConfig) :
    c.sharedSources (d :: cs) = d.sources ++ c.sharedSources cs := by
  simp [sharedSources, h]

theorem sharedSources_cons_of_ne {c d : LaunchConfig} (h : d.launchKey ≠ c.launchKey) (cs : List LaunchConfig) :
    c.sharedSources (d :: cs) = c.sharedSources cs := by
  simp [sharedSources, h]

/-- A record takes up the nodes of all records with its key, and the other records are joined without it. -/
theorem foldl_absorb (k : LaunchConfig) (ks cs : List LaunchConfig) :
    cs.foldl absorb (k :: ks) =
      k.addSources (k.sharedSources cs) :: (cs.filter fun d => !(d.launchKey == k.launchKey)).foldl absorb ks := by
  induction cs generalizing k ks with
  | nil => rfl
  | cons c cs ih =>
    -- the record joins the first one, or passes it and joins the rest
    by_cases hkey : k.launchKey = c.launchKey
    · have hkept : (k.addSources c.sources).sharedSources cs = k.sharedSources cs := rfl
      rw [List.foldl_cons, absorb, if_pos hkey, ih, hkept, addSources_addSources,
        sharedSources_cons_of_eq hkey.symm]
      simp [hkey]
    · have hother : c.launchKey ≠ k.launchKey := fun h => hkey h.symm
      rw [List.foldl_cons, absorb, if_neg hkey, ih, sharedSources_cons_of_ne hother]
      simp [hother]

theorem dedupe_cons (c : LaunchConfig) (cs : List LaunchConfig) :
    dedupe (c :: cs) = c.addSources (c.sharedSources cs) :: dedupe (others launchKey cs c) :=
  foldl_absorb c [] cs

theorem sharedSources_others {c k : LaunchConfig} (h : c.launchKey ≠ k.launchKey) (cs : List LaunchConfig) :
    c.sharedSources (others launchKey cs k) = c.sharedSources (k :: cs) :=
  congrArg (List.flatMap LaunchConfig.sources) (followers_others h)

/-- Of every key the first record stays, with the nodes of all records that have the key. -/
theorem dedupe_eq (cs : List LaunchConfig) :
    dedupe cs = (leaders launchKey cs).map fun c => c.addSources (c.sharedSources cs) := by
  induction cs using leaders_induction launchKey with
  | nil => rfl
  | cons k cs ih =>
    -- its own nodes are listed already when they are added again
    have hself : k.addSources (k.sharedSources (k :: cs)) = k.addSources (k.sharedSources cs) := by
      rw [sharedSources_cons_of_eq rfl, ← addSources_addSources, addSources_of_subset (List.Subset.refl k.sources)]
    have hothers : ((leaders launchKey (others launchKey cs k)).map fun c => c.addSources (c.sharedSources (k :: cs))) =
        (leaders launchKey (others launchKey cs k)).map fun c =>
          c.addSources (c.sharedSources (others launchKey cs k)) := by
      refine List.map_congr_left fun c hc => ?_
      rw [sharedSources_others (key_ne_of_mem_leaders hc)]
    rw [dedupe_cons, leaders_cons, List.map_cons, hself, hothers, ih]

/-- `c` is the first of the records with its key. -/
def IsFirst (cs : List LaunchConfig) (c : LaunchConfig) : Prop :=
  cs.find? (fun d => d.launchKey == c.launchKey) = some c

/-- What is left after joining. -/
theorem mem_dedupe {d : LaunchConfig} (cs : List LaunchConfig) :
    d ∈ dedupe cs ↔ ∃ c, IsFirst cs c ∧ d = c.addSources (c.sharedSources cs) := by
  rw [dedupe_eq, List.mem_map]
  constructor
  · rintro ⟨c, hc, rfl⟩
    exact ⟨c, mem_leaders.mp hc, rfl⟩
  · rintro ⟨c, hc, rfl⟩
    exact ⟨c, mem_leaders.mpr hc, rfl⟩

end LaunchConfig

/-! ### The records of a graph -/

namespace Graph

/-- The nodes that describe tool servers. -/
def protocolNodes (g : Graph) : List Node := g.nodes.filter fun n => n.kind.isProtocol

/-- The two nodes launch the same server: the same package by the same command. -/
def sameLaunch (g : Graph) (credential : Option String) (n m : Node) : Bool :=
  (g.launchConfig credential n).launchKey == (g.launchConfig credential m).launchKey

/-- The protocol nodes that launch the server of `n`. -/
def launchGroup (g : Graph) (credential : Option String) (n : Node) : List Node :=
  g.protocolNodes.filter fun m => g.sameLaunch credential m n

/-- Of the protocol nodes that launch its server, `n` is declared first. -/
def Leads (g : Graph) (credential : Option String) (n : Node) : Prop :=
  g.protocolNodes.find? (fun m => g.sameLaunch credential m n) = some n

/-- The record of the server that `n` leads. -/
def joinedConfig (g : Graph) (credential : Option String) (n : Node) : LaunchConfig :=
  { g.launchConfig credential n with sources := (g.launchGroup credential n).map (·.id) }

variable {g : Graph} {credential : Option String} {n m : Node}

theorem sameLaunch_iff : g.sameLaunch credential n m = true ↔
    (g.launchConfig credential n).launchKey = (g.launchConfig credential m).launchKey := by
  simp [sameLaunch]

/-- The record of a node lists that node. -/
@[simp] theorem sources_launchConfig (g : Graph) (credential : Option String) (n : Node) :
    (g.launchConfig credential n).sources = [n.id] := by
  have hid : (g.inheritedSource n).nodeId = some n.id := by
    unfold inheritedSource
    dsimp only
    split <;> split <;> (try split) <;> rfl
  simp [launchConfig, LaunchSource.normalize, hid]

@[simp] theorem toolFilter_launchConfig (g : Graph) (credential : Option String) (n : Node) :
    (g.launchConfig credential n).toolFilter = g.toolFilter n := rfl

theorem mem_protocolNodes : n ∈ g.protocolNodes ↔ n ∈ g.nodes ∧ n.kind.isProtocol = true := List.mem_filter

theorem mem_launchGroup : m ∈ g.launchGroup credential n ↔ m ∈ g.protocolNodes ∧ g.sameLaunch credential m n = true :=
  List.mem_filter

theorem Leads.mem (h : g.Leads credential n) : n ∈ g.protocolNodes := List.mem_of_find?_eq_some h

/-- The node that leads is the first of its group. -/
theorem Leads.group_eq (h : g.Leads credential n) : ∃ rest, g.launchGroup credential n = n :: rest := by
  have hhead : (g.launchGroup credential n).head? = some n := by rw [launchGroup, List.head?_filter, h]
  exact ⟨_, (List.cons_head?_tail hhead).symm⟩

theorem nodup_launchGroup (hids : (g.nodes.map (·.id)).Nodup) (credential : Option String) (n : Node) :
    ((g.launchGroup credential n).map (·.id)).Nodup :=
  hids.sublist ((List.filter_sublist.trans List.filter_sublist).map _)

/-- The record of the node that leads takes up its whole group. -/
theorem addSources_group (hids : (g.nodes.map (·.id)).Nodup) (h : g.Leads credential n) :
    (g.launchConfig credential n).addSources ((g.launchGroup credential n).map (·.id)) = g.joinedConfig credential n := by
  obtain ⟨rest, hgroup⟩ := h.group_eq
  have hnodup : ((g.launchConfig credential n).sources ++ rest.map (·.id)).Nodup := by
    have hall := nodup_launchGroup hids credential n
    rw [hgroup] at hall
    simpa using hall
  -- the first of the group is the node itself, which is listed already
  have hself : (g.launchConfig credential n).addSources [n.id] = g.launchConfig credential n :=
    LaunchConfig.addSources_of_subset (by simp)
  have hadded : (g.launchConfig credential n).addSources ((n :: rest).map (·.id)) =
      (g.launchConfig credential n).addSources (rest.map (·.id)) := by
    rw [List.map_cons, ← List.singleton_append, ← LaunchConfig.addSources_addSources, hself]
  have hsources := LaunchConfig.sources_addSources hnodup
  rw [joinedConfig, hgroup, hadded]
  simp only [LaunchConfig.addSources] at hsources ⊢
  rw [hsources]
  simp

/-- The nodes that lead, in order. -/
def leadNodes (g : Graph) (credential : Option String) : List Node :=
  leaders (fun n => (g.launchConfig credential n).launchKey) g.protocolNodes

theorem mem_leadNodes : n ∈ g.leadNodes credential ↔ g.Leads credential n := mem_leaders

/-- Every protocol node launches a server that some node leads. -/
theorem exists_leads (credential : Option String) (hm : m ∈ g.protocolNodes) :
    ∃ n, g.Leads credential n ∧ g.sameLaunch credential n m = true := by
  obtain ⟨n, hn, hkey⟩ := exists_mem_leaders (fun n => (g.launchConfig credential n).launchKey) hm
  exact ⟨n, mem_leadNodes.mp hn, sameLaunch_iff.mpr hkey⟩

theorem sharedSources_launchConfig (g : Graph) (credential : Option String) (n : Node) :
    (g.launchConfig credential n).sharedSources (g.protocolNodes.map (g.launchConfig credential)) =
      (g.launchGroup credential n).map (·.id) := by
  have hids : ∀ ms : List Node, (ms.map (g.launchConfig credential)).flatMap (·.sources) = ms.map (·.id) := by
    intro ms
    induction ms with
    | nil => rfl
    | cons k ms ih => simpa using ih
  rw [LaunchConfig.sharedSources, List.filter_map, hids]
  rfl

/-- Every tool server has one record: that of the node that leads, with all nodes that launch the server. -/
theorem launchConfigs_eq (hids : (g.nodes.map (·.id)).Nodup) (credential : Option String) :
    g.launchConfigs credential = (g.leadNodes credential).map (g.joinedConfig credential) := by
  show LaunchConfig.dedupe (g.protocolNodes.map (g.launchConfig credential)) = _
  rw [LaunchConfig.dedupe_eq, leaders_map, List.map_map]
  refine List.map_congr_left fun n hn => ?_
  show (g.launchConfig credential n).addSources _ = _
  rw [sharedSources_launchConfig, addSources_group hids (mem_leadNodes.mp hn)]

theorem mem_launchConfigs (hids : (g.nodes.map (·.id)).Nodup) {d : LaunchConfig} :
    d ∈ g.launchConfigs credential ↔ ∃ n, g.Leads credential n ∧ d = g.joinedConfig credential n := by
  rw [launchConfigs_eq hids, List.mem_map]
  constructor
  · rintro ⟨n, hn, rfl⟩
    exact ⟨n, mem_leadNodes.mp hn, rfl⟩
  · rintro ⟨n, hn, rfl⟩
    exact ⟨n, mem_leadNodes.mpr hn, rfl⟩

/-! ### Sharing out the nodes -/

/-- The records share out the protocol nodes of the graph. -/
structure SharesOut (g : Graph) (credential : Option String) (cs : List LaunchConfig) : Prop where
  /-- The sources are the protocol nodes, -/
  all : (cs.flatMap (·.sources)).Perm (g.protocolNodes.map (·.id))
  /-- each of them once, -/
  once : (cs.flatMap (·.sources)).Nodup
  /-- and in one record. -/
  owner : ∀ n ∈ g.protocolNodes, ∃! c, c ∈ cs ∧ n.id ∈ c.sources
  /-- The sources of a record are in the order of the nodes, -/
  declared : ∀ c ∈ cs, c.sources.Sublist (g.nodes.map (·.id))
  /-- and the records in that of their first sources. -/
  ordered : (cs.map (·.sources.head?)).Sublist (g.nodes.map fun n => some n.id)
  /-- No two records launch the same package in the same way. -/
  keys : (cs.map (·.launchKey)).Nodup
  /-- But for its sources, a record is that of its first source. -/
  first : ∀ c ∈ cs, ∃ n ∈ g.protocolNodes, c.sources.head? = some n.id ∧
    c = { g.launchConfig credential n with sources := c.sources }

theorem sources_joinedConfig (g : Graph) (credential : Option String) (n : Node) :
    (g.joinedConfig credential n).sources = (g.launchGroup credential n).map (·.id) := rfl

theorem Leads.head?_sources (h : g.Leads credential n) : (g.joinedConfig credential n).sources.head? = some n.id := by
  obtain ⟨rest, hgroup⟩ := h.group_eq
  rw [sources_joinedConfig, hgroup]
  rfl

theorem perm_launchGroups (g : Graph) (credential : Option String) :
    ((g.leadNodes credential).flatMap (g.launchGroup credential)).Perm g.protocolNodes :=
  perm_flatMap_followers g.protocolNodes

theorem perm_sources (g : Graph) (credential : Option String) :
    (((g.leadNodes credential).map (g.joinedConfig credential)).flatMap (·.sources)).Perm
      (g.protocolNodes.map (·.id)) := by
  have hsources : ((g.leadNodes credential).map (g.joinedConfig credential)).flatMap (·.sources) =
      ((g.leadNodes credential).flatMap (g.launchGroup credential)).map (·.id) := by
    rw [List.flatMap_map, List.map_flatMap]
    rfl
  rw [hsources]
  exact (g.perm_launchGroups credential).map _

/-- A source that is listed once has one record. -/
theorem existsUnique_owner {cs : List LaunchConfig} {id : String} (honce : (cs.flatMap (·.sources)).Nodup)
    (hid : id ∈ cs.flatMap (·.sources)) : ∃! c, c ∈ cs ∧ id ∈ c.sources := by
  obtain ⟨c, hc, hsource⟩ := List.mem_flatMap.mp hid
  refine ⟨c, ⟨hc, hsource⟩, ?_⟩
  rintro d ⟨hd, hother⟩
  by_contra hne
  have hsymm : Std.Symm (Function.onFun List.Disjoint LaunchConfig.sources) := ⟨fun _ _ h _ hb ha => h ha hb⟩
  have hapart : List.Disjoint d.sources c.sources := (List.nodup_flatMap.mp honce).2.forall hd hc hne
  exact hapart hother hsource

/-- **The launch records of a graph share out its protocol nodes.** With unique ids every protocol node is a source of
exactly one record, and once; sources and records are in the order of the nodes; no two records have the same key; and
each is the record of its first source. -/
theorem launchConfigs_share_out (hids : (g.nodes.map (·.id)).Nodup) (credential : Option String) :
    g.SharesOut credential (g.launchConfigs credential) := by
  rw [launchConfigs_eq hids]
  have hperm := g.perm_sources credential
  have hprotocol : g.protocolNodes.Sublist g.nodes := List.filter_sublist
  have honce := hperm.nodup_iff.mpr (hids.sublist (hprotocol.map _))
  refine ⟨hperm, honce, ?_, ?_, ?_, ?_, ?_⟩
  · intro n hn
    exact existsUnique_owner honce (hperm.mem_iff.mpr (List.mem_map_of_mem hn))
  · intro c hc
    obtain ⟨n, -, rfl⟩ := List.mem_map.mp hc
    exact (List.filter_sublist.trans hprotocol).map _
  · -- the first source of a record is the node that leads
    have hheads : ((g.leadNodes credential).map (g.joinedConfig credential)).map (·.sources.head?) =
        (g.leadNodes credential).map fun n => some n.id := by
      rw [List.map_map]
      exact List.map_congr_left fun n hn => (mem_leadNodes.mp hn).head?_sources
    rw [hheads]
    exact ((sublist_leaders g.protocolNodes).trans hprotocol).map _
  · rw [List.map_map]
    exact nodup_map_leaders g.protocolNodes
  · intro c hc
    obtain ⟨n, hn, rfl⟩ := List.mem_map.mp hc
    have hleads := mem_leadNodes.mp hn
    exact ⟨n, hleads.mem, hleads.head?_sources, rfl⟩

/-- A client with its server and tool, and between them in the order of the nodes a client of another package. -/
def clockTeam : Graph where
  nodes := [{ id := "c", kind := .protocolClient, label := "Clock" }, { id := "a", kind := .agent },
    { id := "f", kind := .protocolClient, package := some "files" }, { id := "t", kind := .protocolTool, label := "now" },
    { id := "s", kind := .protocolServer, package := some "clock" }]
  edges := [⟨"1", "c", "a"⟩, ⟨"2", "t", "c"⟩, ⟨"3", "c", "s"⟩]

theorem launchConfigs_share_out_clockTeam :
    (clockTeam.nodes.map (·.id)).Nodup ∧
      (clockTeam.launchConfigs none).map (·.sources) = [["c", "t", "s"], ["f"]] ∧
      clockTeam.SharesOut none (clockTeam.launchConfigs none) :=
  ⟨by decide, by decide, launchConfigs_share_out (by decide) none⟩

end Graph

end AgentFlow
