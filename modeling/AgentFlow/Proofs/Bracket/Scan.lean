import AgentFlow.Check.Bracket
import AgentFlow.Proofs.Text.Lines

/-!
# The scan, one bite at a time

`Bracket.scan` takes up to three characters at once. `Mode.bite` says how many and where the scan stands then, and
every fact below follows from one equation about a bite (`scan_cons`) by one induction (`scan_induction`). A scan of
whole lines followed by more text is the scan of the lines and then, from where it stands, of the rest (`scan_append`),
and a scan that starts on a later line lists the same brackets further down (`scan_add`). So whole lines whose scan ends
in code with no bracket open, `TopLevel`, may stand before other text without changing what is found there.
-/

namespace AgentFlow.Bracket

open Text

/-! ### Bites -/

/-- What a scan takes at once. -/
structure Bite where
  /-- The characters after the first one. -/
  extra : Nat := 0
  /-- Whether a line ends. -/
  newline : Bool := false
  /-- Where the scan stands then. -/
  mode : Mode
  deriving DecidableEq, Repr

/-- What a scan takes of the text `c :: cs`. -/
def Mode.bite (mode : Mode) (c : Char) (cs : List Char) : Bite :=
  match mode with
  | .code =>
    if c = '\n' then { newline := true, mode := .code }
    else if c = '#' then { mode := .comment }
    else if c = '"' || c = '\'' then
      if [c, c].isPrefixOf cs then { extra := 2, mode := .literal c true } else { mode := .literal c false }
    else { mode := .code }
  | .comment => if c = '\n' then { newline := true, mode := .code } else { mode := .comment }
  | .literal q triple =>
    if c = '\\' then { extra := 1, mode := .literal q triple }
    else if c = '\n' then { newline := true, mode := if triple then .literal q triple else .code }
    else if c = q then
      if triple then
        if [q, q].isPrefixOf cs then { extra := 2, mode := .code } else { mode := .literal q triple }
      else { mode := .code }
    else { mode := .literal q triple }

/-- The line after the bite. -/
def Bite.lineAfter (b : Bite) (line : Nat) : Nat := if b.newline then line + 1 else line

/-- The bracket that a scan lists for the first character of a bite, if it is one. -/
def Mode.listed (mode : Mode) (line : Nat) (c : Char) : List Bracket :=
  if mode = .code ∧ (isOpener c || isCloser c) = true then [⟨c, line⟩] else []

/-- A scan of nothing lists nothing. -/
theorem scan_nil (line : Nat) (mode : Mode) : scan line mode [] = [] := by rw [scan]

/-- Looking two characters ahead is comparing with a text of two. -/
theorem isPrefixOf_pair (q a b : Char) (cs : List Char) : [q, q].isPrefixOf (a :: b :: cs) = (a = q && b = q) := by
  rw [Bool.eq_iff_iff, List.isPrefixOf_iff_prefix, List.cons_prefix_cons, List.cons_prefix_cons, Bool.and_eq_true,
    decide_eq_true_eq, decide_eq_true_eq]
  exact ⟨fun h => ⟨h.1.symm, h.2.1.symm⟩, fun h => ⟨h.1.symm, h.2.symm, List.nil_prefix⟩⟩

theorem isPrefixOf_pair_singleton (q a : Char) : [q, q].isPrefixOf [a] = false := by
  rw [← Bool.not_eq_true, List.isPrefixOf_iff_prefix]
  exact fun h => absurd h.length_le (by simp)

/-- A quote in code: two more of its kind make it open a literal in triple quotes. -/
theorem scan_quote {c : Char} (hc : (c = '"' || c = '\'') = true) (line : Nat) (cs : List Char) :
    scan line .code (c :: cs) =
      if [c, c].isPrefixOf cs then scan line (.literal c true) (cs.drop 2) else scan line (.literal c false) cs := by
  have hnl : c ≠ '\n' := by rintro rfl; cases hc
  have hhash : c ≠ '#' := by rintro rfl; cases hc
  rw [scan.eq_def]
  simp only [if_neg hnl, if_neg hhash, if_pos hc]
  rcases cs with _ | ⟨a, _ | ⟨b, rest⟩⟩
  · rfl
  · rw [isPrefixOf_pair_singleton]
    rfl
  · rw [isPrefixOf_pair]
    rfl

/-- A quote in a literal in triple quotes: two more of its kind make it end the literal. -/
theorem scan_closing {q : Char} (hback : q ≠ '\\') (hnl : q ≠ '\n') (line : Nat) (cs : List Char) :
    scan line (.literal q true) (q :: cs) =
      if [q, q].isPrefixOf cs then scan line .code (cs.drop 2) else scan line (.literal q true) cs := by
  rw [scan.eq_def]
  simp only [if_neg hback, if_neg hnl, if_true]
  rcases cs with _ | ⟨a, _ | ⟨b, rest⟩⟩
  · rfl
  · rw [isPrefixOf_pair_singleton]
    rfl
  · rw [isPrefixOf_pair]
    rfl

/-- What a bite does. -/
theorem scan_cons (line : Nat) (mode : Mode) (c : Char) (cs : List Char) :
    scan line mode (c :: cs) =
      mode.listed line c ++
        scan ((mode.bite c cs).lineAfter line) (mode.bite c cs).mode (cs.drop (mode.bite c cs).extra) := by
  cases mode with
  | comment =>
    -- a comment holds no brackets and goes on to the end of its line
    have hnone : Mode.comment.listed line c = [] := if_neg (fun h => by cases h.1)
    rw [hnone, List.nil_append, scan.eq_def]
    dsimp only [Mode.bite]
    split_ifs <;> rfl
  | literal q triple =>
    -- nor does a literal; what ends it is a quote, or the line if it is in single quotes
    have hnone : (Mode.literal q triple).listed line c = [] := if_neg (fun h => by cases h.1)
    rw [hnone, List.nil_append]
    by_cases hback : c = '\\'
    · rw [scan.eq_def]
      simp only [Mode.bite, if_pos hback]
      cases cs with
      -- the backslash is the last character, and the bite takes one that is not there
      | nil => exact (scan_nil _ _).symm
      | cons d cs => rfl
    by_cases hnl : c = '\n'
    · rw [scan.eq_def]
      simp only [Mode.bite, if_neg hback, if_pos hnl]
      rfl
    by_cases hq : c = q
    · subst hq
      cases triple with
      | false =>
        rw [scan.eq_def]
        simp only [Mode.bite, if_neg hback, if_neg hnl, if_true, Bool.false_eq_true, if_false]
        rfl
      | true =>
        -- three quotes in a row end the literal, fewer are part of it
        rw [scan_closing hback hnl]
        simp only [Mode.bite, if_neg hback, if_neg hnl, if_true]
        split_ifs <;> rfl
    · rw [scan.eq_def]
      simp only [Mode.bite, if_neg hback, if_neg hnl, if_neg hq]
      rfl
  | code =>
    -- in code a bracket is listed; nothing that starts a line, a comment or a literal is one
    have hnone : (isOpener c || isCloser c) ≠ true → Mode.code.listed line c = [] := fun h => if_neg fun h' => h h'.2
    by_cases hnl : c = '\n'
    · rw [hnone (by subst hnl; decide), scan.eq_def]
      simp only [Mode.bite, if_pos hnl]
      rfl
    by_cases hhash : c = '#'
    · rw [hnone (by subst hhash; decide), scan.eq_def]
      simp only [Mode.bite, if_neg hnl, if_pos hhash]
      rfl
    by_cases hquote : (c = '"' || c = '\'') = true
    · have hplain : (isOpener c || isCloser c) ≠ true := by
        have hc : c = '"' ∨ c = '\'' := by simpa using hquote
        rcases hc with rfl | rfl <;> decide
      rw [scan_quote hquote, hnone hplain]
      simp only [Mode.bite, if_neg hnl, if_neg hhash, if_pos hquote]
      split_ifs <;> rfl
    rw [scan.eq_def]
    simp only [Mode.bite, Mode.listed, if_neg hnl, if_neg hhash, if_neg hquote]
    -- any other character is taken by itself
    split_ifs <;> simp_all [Bite.lineAfter]

/-- An induction along the bites of a scan. -/
theorem scan_induction {P : Mode → List Char → Prop} (hnil : ∀ mode, P mode [])
    (hcons : ∀ mode c cs, P (mode.bite c cs).mode (cs.drop (mode.bite c cs).extra) → P mode (c :: cs))
    (mode : Mode) (cs : List Char) : P mode cs := by
  induction hlen : cs.length using Nat.strongRecOn generalizing mode cs with
  | _ n ih =>
    cases cs with
    | nil => exact hnil mode
    | cons c cs =>
      -- a bite takes at least one character, so the rest is shorter
      refine hcons mode c cs (ih _ ?_ _ _ rfl)
      rw [← hlen, List.length_cons, List.length_drop]
      omega

/-! ### Where a scan stands at the end of a text -/

/-- Where a scan stands at the end of a text of which it has taken `skip` characters already. -/
def Mode.standing : Nat → Mode → List Char → Mode
  | _, mode, [] => mode
  | skip + 1, mode, _ :: cs => standing skip mode cs
  | 0, mode, c :: cs => standing (mode.bite c cs).extra (mode.bite c cs).mode cs

/-- Where a scan stands at the end of a text. -/
def Mode.after (mode : Mode) (cs : List Char) : Mode := standing 0 mode cs

theorem Mode.standing_drop (skip : Nat) (mode : Mode) (cs : List Char) :
    standing skip mode cs = mode.after (cs.drop skip) := by
  induction skip generalizing cs with
  | zero => rfl
  | succ skip ih =>
    cases cs with
    | nil => rfl
    | cons c cs => exact ih cs

/-- Where a scan stands at the end is where it stands after the rest of its first bite. -/
theorem Mode.after_cons (mode : Mode) (c : Char) (cs : List Char) :
    mode.after (c :: cs) = (mode.bite c cs).mode.after (cs.drop (mode.bite c cs).extra) := by
  rw [← standing_drop]
  rfl

/-! ### Whole lines before other text -/

/-- No two quotes follow only because of what comes after whole lines. -/
theorem isPrefixOf_pair_append {c : Char} {cs : List Char} (h : WholeLines (c :: cs)) (hc : c ≠ '\n')
    (rest : List Char) : [c, c].isPrefixOf (cs ++ rest) = [c, c].isPrefixOf cs := by
  -- what is left of the line is at least a newline, so only a text of two or more can begin with the pair
  rcases cs with _ | ⟨a, _ | ⟨b, cs⟩⟩
  · exact absurd rfl (h.ne_nil hc)
  · obtain rfl := h.of_cons.eq_newline
    rw [isPrefixOf_pair_singleton]
    simp [List.isPrefixOf, hc]
  · rw [List.cons_append, List.cons_append, isPrefixOf_pair, isPrefixOf_pair]

/-- What a scan takes of whole lines does not depend on what comes after them. -/
theorem Mode.bite_append {c : Char} {cs : List Char} (h : WholeLines (c :: cs)) (mode : Mode) (rest : List Char) :
    mode.bite c (cs ++ rest) = mode.bite c cs := by
  by_cases hnl : c = '\n'
  · subst hnl
    cases mode <;> rfl
  -- apart from a newline, a bite looks two characters ahead at most
  have hpair := isPrefixOf_pair_append h hnl rest
  cases mode with
  | comment => rfl
  | code => simp only [Mode.bite, hpair]
  | literal q triple =>
    by_cases hq : c = q
    · subst hq
      simp only [Mode.bite, hpair]
    · simp only [Mode.bite, if_neg hq]

/-- A scan takes no more than there is of whole lines. -/
theorem Mode.extra_bite_le {c : Char} {cs : List Char} (h : WholeLines (c :: cs)) (mode : Mode) :
    (mode.bite c cs).extra ≤ cs.length := by
  have htwo : ∀ q : Char, [q, q].isPrefixOf cs = true → 2 ≤ cs.length :=
    fun _ hpair => (List.isPrefixOf_iff_prefix.mp hpair).length_le
  cases mode with
  | comment =>
    simp only [Mode.bite]
    split_ifs <;> exact Nat.zero_le _
  | code =>
    simp only [Mode.bite]
    split_ifs with _ _ _ hpair
    · exact Nat.zero_le _
    · exact Nat.zero_le _
    · exact htwo c hpair
    · exact Nat.zero_le _
    · exact Nat.zero_le _
  | literal q triple =>
    simp only [Mode.bite]
    split_ifs with hback _ _ _ _ hpair
    · exact List.length_pos_iff.mpr (h.ne_nil (by rw [hback]; decide))
    · exact Nat.zero_le _
    · exact Nat.zero_le _
    · exact htwo q hpair
    · exact Nat.zero_le _
    · exact Nat.zero_le _
    · exact Nat.zero_le _

/-- A scan of whole lines and more is a scan of the lines, and of the rest from where that one stands. -/
theorem scan_append {a : List Char} (ha : WholeLines a) (mode : Mode) (b : List Char) (line : Nat) :
    ∃ k, scan line mode (a ++ b) = scan line mode a ++ scan (line + k) (mode.after a) b := by
  revert ha line
  refine scan_induction (P := fun mode a => WholeLines a → ∀ line,
    ∃ k, scan line mode (a ++ b) = scan line mode a ++ scan (line + k) (mode.after a) b) ?_ ?_ mode a
  · intro mode _ line
    exact ⟨0, by rw [scan_nil]; rfl⟩
  · intro mode c cs ih hwhole line
    have hbite := mode.bite_append hwhole b
    have hextra := mode.extra_bite_le hwhole
    obtain ⟨k, hk⟩ := ih (hwhole.of_cons.drop _) ((mode.bite c cs).lineAfter line)
    obtain ⟨j, hj⟩ : ∃ j, (mode.bite c cs).lineAfter line = line + j := by
      unfold Bite.lineAfter
      split_ifs
      · exact ⟨1, rfl⟩
      · exact ⟨0, rfl⟩
    -- the bite is the same with more text behind it, and leaves whole lines again
    refine ⟨j + k, ?_⟩
    rw [List.cons_append, scan_cons, scan_cons, hbite, List.drop_append_of_le_length hextra, hk, List.append_assoc,
      Mode.after_cons, hj, Nat.add_assoc]

/-- Whole lines before other text only say where the scan of that text starts. -/
theorem Mode.after_append {a : List Char} (ha : WholeLines a) (mode : Mode) (b : List Char) :
    mode.after (a ++ b) = (mode.after a).after b := by
  revert ha
  refine scan_induction (P := fun mode a => WholeLines a → mode.after (a ++ b) = (mode.after a).after b) ?_ ?_ mode a
  · exact fun mode _ => rfl
  · intro mode c cs ih hwhole
    have hbite := mode.bite_append hwhole b
    have hextra := mode.extra_bite_le hwhole
    rw [List.cons_append, after_cons, after_cons, hbite, List.drop_append_of_le_length hextra]
    exact ih (hwhole.of_cons.drop _)

/-! ### Scans that start on a later line -/

/-- The bracket `k` lines further down. -/
def down (k : Nat) (b : Bracket) : Bracket := { b with line := b.line + k }

/-- A scan that starts on a later line lists the same brackets, each as much further down. -/
theorem scan_add (k line : Nat) (mode : Mode) (cs : List Char) :
    scan (line + k) mode cs = (scan line mode cs).map (down k) := by
  revert line
  refine scan_induction (P := fun mode cs => ∀ line, scan (line + k) mode cs = (scan line mode cs).map (down k))
    ?_ ?_ mode cs
  · intro mode line
    rw [scan_nil, scan_nil]
    rfl
  · intro mode c cs ih line
    have hline : (mode.bite c cs).lineAfter (line + k) = (mode.bite c cs).lineAfter line + k := by
      unfold Bite.lineAfter
      split_ifs
      · omega
      · rfl
    have hlisted : mode.listed (line + k) c = (mode.listed line c).map (down k) := by
      unfold Mode.listed
      split_ifs <;> rfl
    -- the bite does not depend on the line
    rw [scan_cons, scan_cons, hline, ih, hlisted, List.map_append]

namespace Problem

/-- The problem `k` lines further down. -/
def down (k : Nat) : Problem → Problem
  | .mismatch opener closer => .mismatch (opener.down k) (closer.down k)
  | .unmatched closer => .unmatched (closer.down k)
  | .unclosed opener => .unclosed (opener.down k)

end Problem

section Nest

variable {b o : Bracket} {open_ bs os : List Bracket}

theorem nest_opener (h : isOpener b.char = true) : nest open_ (b :: bs) = nest (b :: open_) bs := by
  rw [nest.eq_def]
  exact if_pos h

theorem nest_unmatched (h : isOpener b.char ≠ true) : nest [] (b :: bs) = some (.unmatched b) := by
  rw [nest.eq_def]
  exact if_neg h

theorem nest_closer (h : isOpener b.char ≠ true) :
    nest (o :: os) (b :: bs) = if closer? o.char = some b.char then nest os bs else some (.mismatch o b) := by
  rw [nest.eq_def]
  exact if_neg h

/-- Brackets that all stand further down have the same problem, further down. -/
theorem nest_down (k : Nat) (open_ bs : List Bracket) :
    nest (open_.map (down k)) (bs.map (down k)) = (nest open_ bs).map (Problem.down k) := by
  induction bs generalizing open_ with
  | nil => cases open_ <;> rfl
  | cons b bs ih =>
    rw [List.map_cons]
    by_cases hopener : isOpener b.char = true
    · rw [nest_opener hopener, nest_opener (b := down k b) hopener]
      exact ih (b :: open_)
    · cases open_ with
      | nil =>
        rw [nest_unmatched hopener, List.map_nil, nest_unmatched (b := down k b) hopener]
        rfl
      | cons o os =>
        rw [List.map_cons, nest_closer hopener, nest_closer (b := down k b) hopener, ih]
        show (if closer? o.char = some b.char then _ else _) = _
        split_ifs <;> rfl

/-- Brackets that nest may stand before others. -/
theorem nest_append (h : nest open_ bs = none) (more : List Bracket) : nest open_ (bs ++ more) = nest [] more := by
  induction bs generalizing open_ with
  | nil =>
    cases open_ with
    | nil => rfl
    -- an open bracket would be a problem
    | cons o os => cases h
  | cons b bs ih =>
    rw [List.cons_append]
    by_cases hopener : isOpener b.char = true
    · rw [nest_opener hopener] at h ⊢
      exact ih h
    · cases open_ with
      | nil =>
        rw [nest_unmatched hopener] at h
        cases h
      | cons o os =>
        rw [nest_closer hopener] at h ⊢
        split_ifs at h ⊢
        exact ih h

end Nest

/-! ### Text at top level -/

/-- From where it stands, a scan of the text ends in code, and no bracket is open then. -/
structure Settles (mode : Mode) (text : List Char) : Prop where
  brackets : nest [] (scan 1 mode text) = none
  code : mode.after text = .code

instance (mode : Mode) (text : List Char) : Decidable (Settles mode text) :=
  decidable_of_iff (nest [] (scan 1 mode text) = none ∧ mode.after text = .code)
    ⟨fun h => ⟨h.1, h.2⟩, fun h => ⟨h.1, h.2⟩⟩

/-- After the text no bracket is open, and no literal is unfinished. -/
abbrev TopLevel (text : List Char) : Prop := Settles .code text

theorem topLevel_nil : TopLevel [] := ⟨by rw [scan_nil]; rfl, rfl⟩

/-- Scans that end alike and find the same, only further down, settle alike. -/
theorem settles_congr {m m' : Mode} {cs cs' : List Char} {k : Nat} (hmode : m.after cs = m'.after cs')
    (hfound : nest [] (scan 1 m cs) = (nest [] (scan 1 m' cs')).map (Problem.down k)) :
    Settles m cs ↔ Settles m' cs' := by
  constructor
  · intro h
    have hnone := h.brackets
    rw [hfound, Option.map_eq_none_iff] at hnone
    exact ⟨hnone, hmode ▸ h.code⟩
  · intro h
    exact ⟨by rw [hfound, h.brackets]; rfl, hmode.trans h.code⟩

/-- Whole lines at top level change nothing in what is found after them. -/
theorem Settles.append_iff {a : List Char} (h : TopLevel a) (ha : WholeLines a) (b : List Char) :
    TopLevel (a ++ b) ↔ TopLevel b := by
  obtain ⟨k, hk⟩ := scan_append ha .code b 1
  refine settles_congr (k := k) (by rw [Mode.after_append ha, h.code]) ?_
  rw [hk, h.code, nest_append h.brackets, scan_add]
  exact nest_down k [] _

/-! ### Text without brackets -/

/-- From `m` a scan of `cs` comes to stand at `m'` before `rest`, and it lists no bracket on the way. -/
structure Skips (m : Mode) (cs : List Char) (m' : Mode) (rest : List Char) : Prop where
  after : m.after cs = m'.after rest
  scan : ∀ line, ∃ k, scan line m cs = scan (line + k) m' rest

namespace Skips

variable {m m' m'' : Mode} {c : Char} {cs rest rest' : List Char}

theorem refl (m : Mode) (cs : List Char) : Skips m cs m cs := ⟨rfl, fun _ => ⟨0, rfl⟩⟩

theorem trans (h : Skips m cs m' rest) (h' : Skips m' rest m'' rest') : Skips m cs m'' rest' := by
  refine ⟨h.after.trans h'.after, fun line => ?_⟩
  obtain ⟨j, hj⟩ := h.scan line
  obtain ⟨k, hk⟩ := h'.scan (line + j)
  exact ⟨j + k, by rw [hj, hk, Nat.add_assoc]⟩

/-- One bite, if it does not begin with a bracket of the code. -/
theorem bite (h : ∀ line, m.listed line c = []) :
    Skips m (c :: cs) (m.bite c cs).mode (cs.drop (m.bite c cs).extra) := by
  refine ⟨m.after_cons c cs, fun line => ?_⟩
  rw [scan_cons, h, List.nil_append, Bite.lineAfter]
  split_ifs
  · exact ⟨1, rfl⟩
  · exact ⟨0, rfl⟩

/-- What a scan skips makes no difference to how the rest settles. -/
theorem settles_iff (h : Skips m cs m' rest) : Settles m cs ↔ Settles m' rest := by
  obtain ⟨k, hk⟩ := h.scan 1
  refine settles_congr (k := k) h.after ?_
  rw [hk, scan_add]
  exact nest_down k [] _

end Skips

end AgentFlow.Bracket
