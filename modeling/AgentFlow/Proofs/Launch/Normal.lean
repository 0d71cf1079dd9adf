import AgentFlow.Launch.Basic
import AgentFlow.Proofs.TextMap

/-!
# Complete launch records are in canonical form

`LaunchSource.normalize` rewrites the arguments three times: the package takes the place of its placeholder, later key
flags go with their values, and the credential takes the place of its placeholder. Each step could bring back what an
earlier one removed, but only if the package or the credential is itself one of the words in question. `Canonical` says
what holds of the outcome, and from it follows that a complete record whose fields are read as authored ones normalizes
to itself.
-/

namespace AgentFlow

namespace Launch

/-! ### Putting a word in the place of another -/

section Substitute

variable {old new a : String} {args : List String}

/-- What is among the arguments after a word was put in the place of another. -/
theorem mem_substitute : a ∈ substitute old new args ↔ a = new ∧ old ∈ args ∨ a ≠ old ∧ a ∈ args := by
  induction args with
  | nil => simp [substitute]
  | cons b args ih =>
    rw [substitute, List.map_cons, List.mem_cons, List.mem_cons, List.mem_cons, ← substitute, ih]
    by_cases hb : b = old <;> grind

theorem substitute_of_not_mem (h : old ∉ args) : substitute old new args = args := by
  have hsame : args.map (fun a => if a = old then new else a) = args.map id := by
    refine List.map_congr_left fun a ha => if_neg ?_
    rintro rfl
    exact h ha
  rw [substitute, hsame, List.map_id]

theorem substitute_self (old : String) (args : List String) : substitute old old args = args := by
  have hsame : (fun a => if a = old then old else a) = id := by
    funext a
    split_ifs with ha
    · exact ha.symm
    · rfl
  rw [substitute, hsame, List.map_id]

/-- Other words stay where they are. -/
theorem count_substitute (hold : a ≠ old) (hnew : a ≠ new) (args : List String) :
    (substitute old new args).count a = args.count a := by
  induction args with
  | nil => rfl
  | cons b args ih =>
    rw [substitute, List.map_cons, List.count_cons, List.count_cons, ← substitute, ih]
    congr 1
    split_ifs with hb <;> simp_all

end Substitute

/-! ### Key flags -/

/-- What is left of arguments without any key flag; each takes the argument after it along. -/
inductive WithoutKeys : List String → List String → Prop
  | nil : WithoutKeys [] []
  | keep {a : String} {args rest : List String} :
    a ≠ keyFlag → WithoutKeys args rest → WithoutKeys (a :: args) (a :: rest)
  | pair {args rest : List String} (value : String) :
    WithoutKeys args rest → WithoutKeys (keyFlag :: value :: args) rest
  /-- After the last argument there is none to take along. -/
  | last : WithoutKeys [keyFlag] []

/-- `kept` has the first key flag of `args` only. -/
structure KeepsFirstKey (args kept : List String) : Prop where
  /-- Arguments with one key flag at most stay as they are. -/
  same : args.count keyFlag ≤ 1 → kept = args
  /-- After the first of several, key flags go with the arguments after them, and nothing else goes. -/
  later : 1 < args.count keyFlag → ∃ before after rest, args = before ++ keyFlag :: after ∧ keyFlag ∉ before ∧
    WithoutKeys after rest ∧ kept = before ++ keyFlag :: rest

/-- No key flag is left. -/
theorem WithoutKeys.not_mem {args rest : List String} (h : WithoutKeys args rest) : keyFlag ∉ rest := by
  induction h with
  | nil => exact List.not_mem_nil
  | keep ha _ ih => exact List.not_mem_cons_of_ne_of_not_mem ha.symm ih
  | pair _ _ ih => exact ih
  | last => exact List.not_mem_nil

theorem WithoutKeys.sublist {args rest : List String} (h : WithoutKeys args rest) : rest.Sublist args := by
  induction h with
  | nil => exact List.Sublist.refl []
  | keep _ _ ih => exact ih.cons_cons _
  | pair value _ ih => exact (ih.cons value).cons keyFlag
  | last => exact List.nil_sublist _

theorem dropKeys_cons_of_ne {a : String} (h : a ≠ keyFlag) (seen : Bool) (args : List String) :
    dropKeys seen (a :: args) = a :: dropKeys seen args := by
  cases args with
  | nil => simp [dropKeys, h]
  | cons b args => simp [dropKeys, h]

theorem dropKeys_first (args : List String) : dropKeys false (keyFlag :: args) = keyFlag :: dropKeys true args := by
  cases args <;> simp [dropKeys]

/-- After the first key flag the pass drops all others. -/
theorem withoutKeys_dropKeys : ∀ args : List String, WithoutKeys args (dropKeys true args)
  | [] => .nil
  | [a] => by
    by_cases ha : a = keyFlag
    · subst ha
      exact .last
    · rw [dropKeys_cons_of_ne ha]
      exact .keep ha .nil
  | a :: b :: args => by
    -- the flag takes the next argument along, whatever it is
    by_cases ha : a = keyFlag
    · subst ha
      exact .pair b (withoutKeys_dropKeys args)
    · rw [dropKeys_cons_of_ne ha]
      exact .keep ha (withoutKeys_dropKeys (b :: args))

theorem dropKeys_of_not_mem {args : List String} (h : keyFlag ∉ args) (seen : Bool) : dropKeys seen args = args := by
  induction args with
  | nil => rfl
  | cons a args ih =>
    obtain ⟨ha, hargs⟩ := List.ne_and_not_mem_of_not_mem_cons h
    rw [dropKeys_cons_of_ne ha.symm, ih hargs]

/-- Up to the first key flag nothing changes, and after it no other is left. -/
theorem firstKeyOnly_append {before : List String} (h : keyFlag ∉ before) (after : List String) :
    firstKeyOnly (before ++ keyFlag :: after) = before ++ keyFlag :: dropKeys true after := by
  unfold firstKeyOnly
  induction before with
  | nil => exact dropKeys_first after
  | cons a before ih =>
    obtain ⟨ha, hbefore⟩ := List.ne_and_not_mem_of_not_mem_cons h
    rw [List.cons_append, dropKeys_cons_of_ne ha.symm, ih hbefore, List.cons_append]

/-- Arguments have no key flag, or there is a first one. -/
theorem firstKeyOnly_cases (args : List String) :
    keyFlag ∉ args ∧ firstKeyOnly args = args ∨
      ∃ before after, args = before ++ keyFlag :: after ∧ keyFlag ∉ before ∧
        firstKeyOnly args = before ++ keyFlag :: dropKeys true after := by
  by_cases h : keyFlag ∈ args
  · obtain ⟨before, after, rfl, hbefore⟩ := List.eq_append_cons_of_mem h
    exact .inr ⟨before, after, rfl, hbefore, firstKeyOnly_append hbefore after⟩
  · exact .inl ⟨h, dropKeys_of_not_mem h false⟩

/-- At most one key flag is left. -/
theorem count_firstKeyOnly_le (args : List String) : (firstKeyOnly args).count keyFlag ≤ 1 := by
  rcases firstKeyOnly_cases args with ⟨hnone, hsame⟩ | ⟨before, after, -, hbefore, hfirst⟩
  · rw [hsame, List.count_eq_zero.mpr hnone]
    exact Nat.zero_le 1
  · have hrest := (withoutKeys_dropKeys after).not_mem
    rw [hfirst, List.count_append, List.count_cons_self, List.count_eq_zero.mpr hbefore, List.count_eq_zero.mpr hrest]

theorem firstKeyOnly_sublist (args : List String) : (firstKeyOnly args).Sublist args := by
  rcases firstKeyOnly_cases args with ⟨-, hsame⟩ | ⟨before, after, hargs, -, hfirst⟩
  · rw [hsame]
  · rw [hfirst, hargs]
    exact ((withoutKeys_dropKeys after).sublist.cons_cons keyFlag).append_left before

/-- Where there is no second key flag, nothing is dropped. -/
theorem firstKeyOnly_of_count_le {args : List String} (h : args.count keyFlag ≤ 1) : firstKeyOnly args = args := by
  rcases firstKeyOnly_cases args with ⟨-, hsame⟩ | ⟨before, after, rfl, hbefore, hfirst⟩
  · exact hsame
  · have hafter : keyFlag ∉ after := by
      rw [List.count_append, List.count_cons_self] at h
      exact List.count_eq_zero.mp (by omega)
    rw [hfirst, dropKeys_of_not_mem hafter]

theorem keepsFirstKey_firstKeyOnly (args : List String) : KeepsFirstKey args (firstKeyOnly args) where
  same := firstKeyOnly_of_count_le
  later hseveral := by
    -- there are several, so there is a first one
    rcases firstKeyOnly_cases args with ⟨hnone, -⟩ | ⟨before, after, hargs, hbefore, hfirst⟩
    · rw [List.count_eq_zero.mpr hnone] at hseveral
      omega
    · exact ⟨before, after, _, hargs, hbefore, withoutKeys_dropKeys after, hfirst⟩

-- a key flag is the value of the one before it
example : firstKeyOnly ["a", "--key", "1", "--key", "--key", "b"] = ["a", "--key", "1", "b"] := by decide

end Launch

open Launch

/-! ### Canonical form -/

/-- `c` is in the canonical form of a record for the launch fields `s`. -/
structure LaunchConfig.Canonical (s : LaunchSource) (c : LaunchConfig) : Prop where
  /-- The arguments are the given ones with the package in place and the first key flag only; the credential may have
  been put in its place as well. -/
  args : ∃ placed, KeepsFirstKey (substitute placeholderPackage c.package s.argList) placed ∧
    (c.args = placed ∨ c.args = substitute placeholderKey c.credential placed)
  /-- There is one key flag at most, unless the credential is a second one. -/
  keys : c.credential ≠ keyFlag → c.args.count keyFlag ≤ 1
  /-- The credential is among the arguments, or else nothing stands there in its place. -/
  credential : c.credential ≠ "" → c.credential ∈ c.args ∨ placeholderKey ∉ c.args
  /-- Nothing stands in the place of the package, unless the package or the credential is called so. -/
  package : placeholderPackage ∈ c.args → c.package = placeholderPackage ∨ c.credential = placeholderPackage
  /-- A variable has the given value, or else the credential if it carries that, or else its built-in value. -/
  env : ∀ name, c.env.get? name = (s.env.bind (·.get? name)).or
    (if name = credentialVariable ∧ c.credential ≠ "" then some c.credential else defaultEnv.get? name)

namespace LaunchSource

theorem count_placedArgs_le (s : LaunchSource) : s.placedArgs.count keyFlag ≤ 1 := count_firstKeyOnly_le _

theorem packageName_of_mem_placedArgs {s : LaunchSource} (h : placeholderPackage ∈ s.placedArgs) :
    s.packageName = placeholderPackage := by
  rcases mem_substitute.mp ((firstKeyOnly_sublist _).subset h) with ⟨hname, -⟩ | ⟨hne, -⟩
  · exact hname.symm
  · exact absurd rfl hne

/-- Whether the credential was put in its place. -/
theorem finalArgs_cases (s : LaunchSource) :
    (s.key = "" ∨ s.key ∈ s.placedArgs) ∧ s.finalArgs = s.placedArgs ∨
      s.key ∉ s.placedArgs ∧ s.finalArgs = substitute placeholderKey s.key s.placedArgs := by
  unfold finalArgs
  split_ifs with h
  · exact .inr ⟨by simpa using h.2, rfl⟩
  · refine .inl ⟨?_, rfl⟩
    by_cases hempty : s.key = ""
    · exact .inl hempty
    · exact .inr (by simpa [hempty] using h)

/-- Putting the credential in adds no key flag, unless it is one. -/
theorem count_finalArgs_le {s : LaunchSource} (h : s.key ≠ keyFlag) : s.finalArgs.count keyFlag ≤ 1 := by
  have hplaced := s.count_placedArgs_le
  rcases s.finalArgs_cases with ⟨-, hsame⟩ | ⟨-, hput⟩
  · rwa [hsame]
  · rwa [hput, count_substitute (by decide) h.symm]

/-- The credential is among the arguments, or nothing stands in its place. -/
theorem key_mem_finalArgs_or {s : LaunchSource} (h : s.key ≠ "") :
    s.key ∈ s.finalArgs ∨ placeholderKey ∉ s.finalArgs := by
  rcases s.finalArgs_cases with ⟨hempty | hmem, hsame⟩ | ⟨-, hput⟩
  · exact absurd hempty h
  · exact .inl (hsame ▸ hmem)
  · rw [hput]
    -- the credential is put where its placeholder stands, if it stands anywhere
    by_cases hplace : placeholderKey ∈ s.placedArgs
    · exact .inl (mem_substitute.mpr (.inl ⟨rfl, hplace⟩))
    · rw [substitute_of_not_mem hplace]
      exact .inr hplace

/-- The name that stands for a package is left only if something is called so. -/
theorem packageName_of_mem_finalArgs {s : LaunchSource} (h : placeholderPackage ∈ s.finalArgs) :
    s.packageName = placeholderPackage ∨ s.key = placeholderPackage := by
  rcases s.finalArgs_cases with ⟨-, hsame⟩ | ⟨-, hput⟩
  · exact .inl (packageName_of_mem_placedArgs (hsame ▸ h))
  · rw [hput] at h
    rcases mem_substitute.mp h with ⟨hkey, -⟩ | ⟨-, hplaced⟩
    · exact .inr hkey.symm
    · exact .inl (packageName_of_mem_placedArgs hplaced)

/-- The variables that are set without being given. -/
theorem get?_finalEnv (s : LaunchSource) (name : String) :
    s.finalEnv.get? name = (s.env.bind (·.get? name)).or
      (if name = credentialVariable ∧ s.key ≠ "" then some s.key else defaultEnv.get? name) := by
  have hgiven : (s.env.getD .empty).get? name = s.env.bind (·.get? name) := by cases s.env <;> rfl
  -- the credential takes the place of the built-in value of its variable
  have hset : (if s.key ≠ "" then defaultEnv.insert credentialVariable s.key else defaultEnv).get? name =
      if name = credentialVariable ∧ s.key ≠ "" then some s.key else defaultEnv.get? name := by
    by_cases hempty : s.key = ""
    · simp [hempty]
    · simp [hempty, TextMap.get?_insert]
  rw [finalEnv, TextMap.get?_extend, hgiven, hset]

/-- Every complete record is in canonical form. -/
theorem canonical_normalize (s : LaunchSource) : LaunchConfig.Canonical s s.normalize where
  args := ⟨s.placedArgs, keepsFirstKey_firstKeyOnly _, s.finalArgs_cases.imp And.right And.right⟩
  keys := count_finalArgs_le
  credential := key_mem_finalArgs_or
  package := packageName_of_mem_finalArgs
  env := s.get?_finalEnv

/-- **Complete records are in canonical form,** and of several key flags the first one stays. -/
theorem normalize_is_canonical (s : LaunchSource) :
    LaunchConfig.Canonical s s.normalize ∧ ∀ args, KeepsFirstKey args (firstKeyOnly args) :=
  ⟨s.canonical_normalize, keepsFirstKey_firstKeyOnly⟩

end LaunchSource

/-! ### Normalizing again -/

theorem Text.nonBlank_some {text : String} (h : blank text = false) : nonBlank (some text) = some text := by
  simp [nonBlank, h]

namespace LaunchConfig

/-- The fields of a record as if an author had written them. -/
def asAuthored (c : LaunchConfig) (nodeId : Option String) : LaunchSource where
  nodeId := nodeId
  name := c.name
  command := some c.command
  args := some (.list c.args)
  env := some c.env
  package := some c.package
  credential := some c.credential
  profile := c.profile
  toolFilter := c.toolFilter

variable {s : LaunchSource} {c : LaunchConfig} (nodeId : Option String)

theorem packageName_asAuthored (h : Text.blank c.package = false) : (c.asAuthored nodeId).packageName = c.package := by
  show ((Text.nonBlank (some c.package)).or _).getD _ = _
  rw [Text.nonBlank_some h]
  rfl

/-- Neither the package nor the key flags give anything to do. -/
theorem Canonical.placedArgs_asAuthored (h : Canonical s c) (hpackage : Text.blank c.package = false)
    (hflag : c.credential ≠ keyFlag) (hplaceholder : c.credential ≠ placeholderPackage) :
    (c.asAuthored nodeId).placedArgs = c.args := by
  have hplaced : substitute placeholderPackage c.package c.args = c.args := by
    -- a package that is called like the placeholder is put in its own place
    by_cases hmem : placeholderPackage ∈ c.args
    · rw [(h.package hmem).resolve_right hplaceholder, substitute_self]
    · exact substitute_of_not_mem hmem
  show firstKeyOnly (substitute placeholderPackage (c.asAuthored nodeId).packageName c.args) = c.args
  rw [packageName_asAuthored nodeId hpackage, hplaced, firstKeyOnly_of_count_le (h.keys hflag)]

/-- Nor does the credential. -/
theorem Canonical.finalArgs_asAuthored (h : Canonical s c)
    (hplaced : (c.asAuthored nodeId).placedArgs = c.args) : (c.asAuthored nodeId).finalArgs = c.args := by
  have hkey : (c.asAuthored nodeId).key = c.credential := rfl
  rw [LaunchSource.finalArgs, hplaced, hkey]
  split_ifs with hput
  · have hout : c.credential ∉ c.args := by simpa using hput.2
    exact substitute_of_not_mem ((h.credential hput.1).resolve_left hout)
  · rfl

/-- All variables that would be set are set already. -/
theorem Canonical.finalEnv_asAuthored (h : Canonical s c) : (c.asAuthored nodeId).finalEnv = c.env := by
  refine TextMap.ext fun name => ?_
  rw [LaunchSource.get?_finalEnv]
  show (c.env.get? name).or (if name = credentialVariable ∧ c.credential ≠ "" then some c.credential
    else defaultEnv.get? name) = c.env.get? name
  rw [h.env, Option.or_assoc, Option.or_self]

end LaunchConfig

namespace LaunchSource

/-- A complete record has a command. -/
theorem blank_command_normalize (s : LaunchSource) : Text.blank s.normalize.command = false := by
  show Text.blank ((Text.nonBlank s.command).getD defaultCommand) = false
  cases hcommand : Text.nonBlank s.command with
  | none => decide
  | some command => simpa using (Option.filter_eq_some_iff.mp hcommand).2

/-- **Normalizing a complete record again changes nothing.** -/
theorem normalize_asAuthored (s : LaunchSource) (hpackage : Text.blank s.normalize.package = false)
    (hflag : s.normalize.credential ≠ keyFlag) (hplaceholder : s.normalize.credential ≠ placeholderPackage) :
    (s.normalize.asAuthored s.nodeId).normalize = s.normalize := by
  have hcanonical := s.canonical_normalize
  have hplaced := hcanonical.placedArgs_asAuthored s.nodeId hpackage hflag hplaceholder
  have hargs := hcanonical.finalArgs_asAuthored s.nodeId hplaced
  have henv := hcanonical.finalEnv_asAuthored s.nodeId
  have hname := LaunchConfig.packageName_asAuthored s.nodeId hpackage
  have hcommand := Text.nonBlank_some s.blank_command_normalize
  calc (s.normalize.asAuthored s.nodeId).normalize
      = { s.normalize with
          command := (Text.nonBlank (some s.normalize.command)).getD defaultCommand
          args := (s.normalize.asAuthored s.nodeId).finalArgs
          env := (s.normalize.asAuthored s.nodeId).finalEnv
          package := (s.normalize.asAuthored s.nodeId).packageName } := rfl
    _ = s.normalize := by rw [hcommand, hargs, henv, hname]; rfl

/-- A command line with both placeholders and two key flags, and a credential to put in. -/
def spareKeys : LaunchSource where
  nodeId := some "c"
  name := "clock"
  args := some (.line "-y run @smithery/placeholder-server --key placeholder_api_key --key old")
  env := some (TextMap.empty.insert "NODE_OPTIONS" "--inspect")
  package := some "clock"
  credential := some "secret"

theorem normalize_asAuthored_spareKeys :
    Text.blank spareKeys.normalize.package = false ∧ spareKeys.normalize.credential ≠ keyFlag ∧
      spareKeys.normalize.credential ≠ placeholderPackage ∧
      spareKeys.normalize.args = ["-y", "run", "clock", "--key", "secret"] ∧
      (spareKeys.normalize.asAuthored spareKeys.nodeId).normalize = spareKeys.normalize :=
  ⟨by decide, by decide, by decide, by decide, normalize_asAuthored spareKeys (by decide) (by decide) (by decide)⟩

end LaunchSource

end AgentFlow
