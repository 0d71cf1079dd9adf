import AgentFlow.Proofs.Bracket.Scan

/-!
# Well-nested words

`Bracket.nest` goes through a list of brackets with a stack of those still open. What it decides is said here without a
stack: a word is well-nested if each opening bracket in it is closed by its partner (`WellNested`), and what may still
become well-nested is `Completable`. A problem is the first closing bracket after which a word is not completable any
more, or else the innermost bracket that is never closed (`Reports`). The invariant of the stack is `Pending`: what was
read is well-nested but for the brackets on the stack.
-/

namespace AgentFlow.Bracket

/-! ### Partners -/

/-- An opening bracket is one that has a partner. -/
theorem isOpener_iff {c : Char} : isOpener c = true ↔ ∃ d, closer? c = some d := by
  unfold isOpener closer?
  split_ifs with h₁ h₂ h₃ <;> simp [*]

/-- What closes a bracket does not open one. -/
theorem isCloser_of_closer? {o c : Char} (h : closer? o = some c) : isCloser c = true ∧ isOpener c = false := by
  unfold closer? at h
  split_ifs at h <;> obtain rfl := Option.some.inj h <;> decide

/-! ### Words -/

/-- Every opening bracket of the word is closed by its partner. -/
inductive WellNested : List Char → Prop
  | nil : WellNested []
  | wrap {o c : Char} {inner rest : List Char} :
    closer? o = some c → WellNested inner → WellNested rest → WellNested (o :: (inner ++ c :: rest))

/-- More brackets make the word well-nested. -/
def Completable (w : List Char) : Prop := ∃ more, WellNested (w ++ more)

/-- What follows the opening bracket `o` closes it. -/
def ClosedIn (o : Char) (after : List Char) : Prop :=
  ∃ inner c rest, after = inner ++ c :: rest ∧ WellNested inner ∧ closer? o = some c

/-- The word was completable up to the closing bracket `c`, and is not with it. -/
structure Breaks (before : List Char) (c : Char) : Prop where
  closer : isCloser c = true
  completable : Completable before
  impossible : ¬ Completable (before ++ [c])

theorem WellNested.append {v w : List Char} (hv : WellNested v) (hw : WellNested w) : WellNested (v ++ w) := by
  induction hv with
  | nil => exact hw
  | wrap hpair hinner _ _ ih =>
    rw [List.cons_append, List.append_assoc, List.cons_append]
    exact .wrap hpair hinner ih

/-- All brackets of a well-nested word are closed. -/
theorem WellNested.closedIn {w : List Char} (h : WellNested w) {before after : List Char} {o : Char}
    (hw : w = before ++ o :: after) (ho : isOpener o = true) : ClosedIn o after := by
  induction h generalizing before after with
  | nil => simp at hw
  | @wrap o' c inner rest hpair hinner _ ihinner ihrest =>
    cases before with
    | nil =>
      obtain ⟨rfl, rfl⟩ := List.cons.inj hw
      exact ⟨inner, c, rest, rfl, hinner, hpair⟩
    | cons b before =>
      -- the bracket is neither of the two that enclose the word, so it is between or after them
      have hne : o ≠ c := by
        rintro rfl
        exact absurd ho (Bool.eq_false_iff.mp (isCloser_of_closer? hpair).2)
      rcases List.append_eq_append_iff.mp (List.cons.inj hw).2 with ⟨mid, rfl, hmid⟩ | ⟨mid, rfl, hmid⟩
      · cases mid with
        | nil => exact absurd (List.cons.inj hmid).1.symm hne
        | cons _ mid => exact ihrest (List.cons.inj hmid).2
      · cases mid with
        | nil => exact absurd (List.cons.inj hmid).1 hne
        | cons _ mid =>
          obtain ⟨rfl, rfl⟩ := List.cons.inj hmid
          obtain ⟨inner', c', rest', rfl, hinner', hpair'⟩ := ihinner rfl
          exact ⟨inner', c', rest' ++ c :: rest, by simp, hinner', hpair'⟩

/-! ### Well-nested brackets and the stack -/

/-- The word that brackets spell. -/
def spelled (bs : List Bracket) : List Char := bs.map (·.char)

@[simp] theorem spelled_nil : spelled [] = [] := rfl

@[simp] theorem spelled_cons (b : Bracket) (bs : List Bracket) : spelled (b :: bs) = b.char :: spelled bs := rfl

@[simp] theorem spelled_append (as bs : List Bracket) : spelled (as ++ bs) = spelled as ++ spelled bs :=
  List.map_append

/-- Every word is spelled by brackets, since their lines do not matter. -/
theorem exists_spelled (w : List Char) : ∃ bs, spelled bs = w := by
  refine ⟨w.map fun c => ⟨c, 0⟩, ?_⟩
  rw [spelled, List.map_map]
  exact List.map_id w

/-- Well-nested brackets leave the stack as it is. -/
theorem nest_append_of_wellNested {bs : List Bracket} (h : WellNested (spelled bs)) (open_ more : List Bracket) :
    nest open_ (bs ++ more) = nest open_ more := by
  generalize hw : spelled bs = w at h
  induction h generalizing bs open_ more with
  | nil =>
    obtain rfl := List.map_eq_nil_iff.mp hw
    rfl
  | wrap hpair _ _ ihinner ihrest =>
    -- the brackets that spell the pair, what is in it and what is after it
    obtain ⟨o, bs, rfl, rfl, htail⟩ := List.map_eq_cons_iff.mp hw
    obtain ⟨inner, bs', rfl, hinner, hclosed⟩ := List.map_eq_append_iff.mp htail
    obtain ⟨c, rest, rfl, rfl, hrest⟩ := List.map_eq_cons_iff.mp hclosed
    have hopener : isOpener o.char = true := isOpener_iff.mpr ⟨_, hpair⟩
    have hcloser : isOpener c.char ≠ true := Bool.eq_false_iff.mp (isCloser_of_closer? hpair).2
    rw [List.cons_append, List.append_assoc, List.cons_append, nest_opener hopener, ihinner _ _ hinner,
      nest_closer hcloser, if_pos hpair, ihrest _ _ hrest]

/-- A well-nested word has no problem. -/
theorem nest_of_wellNested {bs : List Bracket} (h : WellNested (spelled bs)) : nest [] bs = none := by
  have hend := nest_append_of_wellNested h [] []
  rwa [List.append_nil] at hend

/-- A well-nested word has no closing bracket left over for a bracket before it. -/
theorem WellNested.not_closedIn {w : List Char} (h : WellNested w) (o : Char) : ¬ ClosedIn o w := by
  rintro ⟨inner, c, rest, rfl, hinner, hpair⟩
  obtain ⟨as, rfl⟩ := exists_spelled inner
  obtain ⟨bs, rfl⟩ := exists_spelled rest
  have hcloser : isOpener (Bracket.mk c 0).char ≠ true := Bool.eq_false_iff.mp (isCloser_of_closer? hpair).2
  have hnone : nest [] (as ++ ⟨c, 0⟩ :: bs) = none := nest_of_wellNested (by simpa using h)
  rw [nest_append_of_wellNested hinner, nest_unmatched hcloser] at hnone
  cases hnone

/-- After `bs` the brackets `open_` are open, innermost first. -/
inductive Pending : List Bracket → List Bracket → Prop
  | settled {bs : List Bracket} : WellNested (spelled bs) → Pending [] bs
  | opened {o : Bracket} {open_ bs inner : List Bracket} :
    Pending open_ bs → isOpener o.char = true → WellNested (spelled inner) → Pending (o :: open_) (bs ++ o :: inner)

namespace Pending

variable {o b : Bracket} {open_ bs : List Bracket}

theorem append (h : Pending open_ bs) {more : List Bracket} (hmore : WellNested (spelled more)) :
    Pending open_ (bs ++ more) := by
  cases h with
  | settled hbs =>
    refine .settled ?_
    rw [spelled_append]
    exact hbs.append hmore
  | opened hbs ho hinner =>
    rw [List.append_assoc, List.cons_append]
    refine .opened hbs ho ?_
    rw [spelled_append]
    exact hinner.append hmore

theorem opener (h : Pending open_ bs) (hb : isOpener b.char = true) : Pending (b :: open_) (bs ++ [b]) :=
  .opened h hb .nil

theorem closer (h : Pending (o :: open_) bs) (hb : closer? o.char = some b.char) : Pending open_ (bs ++ [b]) := by
  cases h with
  | opened hbs _ hinner =>
    rw [List.append_assoc, List.cons_append]
    refine hbs.append ?_
    rw [spelled_cons, spelled_append]
    exact .wrap hb hinner .nil

/-- The stack is all that matters about what was read. -/
theorem nest_append (h : Pending open_ bs) (more : List Bracket) : nest [] (bs ++ more) = nest open_ more := by
  induction h generalizing more with
  | settled hbs => exact nest_append_of_wellNested hbs [] more
  | opened _ ho hinner ih =>
    rw [List.append_assoc, ih, List.cons_append, nest_opener ho, nest_append_of_wellNested hinner]

theorem completable (h : Pending open_ bs) : Completable (spelled bs) := by
  induction open_ generalizing bs with
  | nil =>
    cases h with
    | settled hbs => exact ⟨[], by rwa [List.append_nil]⟩
  | cons o open_ ih =>
    have ho : isOpener o.char = true := by
      cases h with
      | opened _ ho _ => exact ho
    obtain ⟨c, hc⟩ := isOpener_iff.mp ho
    have hclosed : Pending open_ (bs ++ [⟨c, 0⟩]) := h.closer hc
    obtain ⟨more, hmore⟩ := ih hclosed
    exact ⟨c :: more, by simpa using hmore⟩

/-- A closing bracket that the stack has no use for. -/
theorem breaks (h : Pending open_ bs) (hb : isCloser b.char = true) (hstuck : ∀ more, nest open_ (b :: more) ≠ none) :
    Breaks (spelled bs) b.char where
  closer := hb
  completable := h.completable
  impossible := by
    rintro ⟨more, hmore⟩
    obtain ⟨cs, rfl⟩ := exists_spelled more
    have hnone : nest [] (bs ++ b :: cs) = none := nest_of_wellNested (by simpa using hmore)
    rw [h.nest_append] at hnone
    exact hstuck cs hnone

end Pending

/-! ### Problems -/

/-- The problem of brackets that are not well-nested. -/
inductive Reports (bs : List Bracket) : Problem → Prop
  /-- No bracket is open where `b` makes the word impossible to complete. -/
  | unmatched {before after : List Bracket} {b : Bracket} :
    bs = before ++ b :: after → Breaks (spelled before) b.char → WellNested (spelled before) → Reports bs (.unmatched b)
  /-- The innermost open bracket is `o` where `b` makes the word impossible to complete. -/
  | mismatch {before inner after : List Bracket} {o b : Bracket} :
    bs = before ++ o :: inner ++ b :: after → Breaks (spelled (before ++ o :: inner)) b.char →
    isOpener o.char = true → WellNested (spelled inner) → Reports bs (.mismatch o b)
  /-- The word could be completed: `o` is never closed, and all brackets opened after it are. -/
  | unclosed {before after : List Bracket} {o : Bracket} :
    bs = before ++ o :: after → Completable (spelled bs) → isOpener o.char = true → ¬ ClosedIn o.char (spelled after) →
    (∀ mid p rest, spelled after = mid ++ p :: rest → isOpener p = true → ClosedIn p rest) → Reports bs (.unclosed o)

/-- What is found about brackets: that they are well-nested, or their problem. -/
def Judged (bs : List Bracket) : Option Problem → Prop
  | none => WellNested (spelled bs)
  | some p => Reports bs p

theorem Pending.judged_nil {open_ bs : List Bracket} (h : Pending open_ bs) : Judged bs (nest open_ []) := by
  have hcompletable := h.completable
  cases h with
  | settled hbs => exact hbs
  -- what is open innermost is never closed, and all brackets opened after it are
  | opened _ ho hinner => exact .unclosed rfl hcompletable ho (hinner.not_closedIn _) fun _ _ _ => hinner.closedIn

/-- Reading on from where the stack stands finds what there is to find. -/
theorem Pending.judged {open_ bs : List Bracket} (h : Pending open_ bs) {more : List Bracket}
    (hmore : ∀ b ∈ more, (isOpener b.char || isCloser b.char) = true) : Judged (bs ++ more) (nest open_ more) := by
  induction more generalizing open_ bs with
  | nil =>
    rw [List.append_nil]
    exact h.judged_nil
  | cons b more ih =>
    obtain ⟨hb, hmore⟩ := List.forall_mem_cons.mp hmore
    have hstep : bs ++ b :: more = bs ++ [b] ++ more := by simp
    by_cases hopener : isOpener b.char = true
    · rw [nest_opener hopener, hstep]
      exact ih (h.opener hopener) hmore
    · have hcloser : isCloser b.char = true := by simpa [hopener] using hb
      cases h with
      | settled hbs =>
        -- a closing bracket with nothing open
        have hstuck : ∀ more, nest [] (b :: more) ≠ none := by simp [nest_unmatched hopener]
        rw [nest_unmatched hopener]
        exact .unmatched rfl ((Pending.settled hbs).breaks hcloser hstuck) hbs
      | @opened o open_ bs inner hbs ho hinner =>
        have hopened : Pending (o :: open_) (bs ++ o :: inner) := .opened hbs ho hinner
        rw [nest_closer hopener]
        -- it closes the innermost open bracket, or it does not fit
        split_ifs with hpair
        · rw [hstep]
          exact ih (hopened.closer hpair) hmore
        · have hstuck : ∀ more, nest (o :: open_) (b :: more) ≠ none := by simp [nest_closer hopener, hpair]
          exact .mismatch rfl (hopened.breaks hcloser hstuck) ho hinner

/-- What is found about brackets is right. -/
theorem judged_nest {bs : List Bracket} (h : ∀ b ∈ bs, (isOpener b.char || isCloser b.char) = true) :
    Judged bs (nest [] bs) := by
  have hstart : Pending [] [] := .settled .nil
  exact hstart.judged h

/-- Nothing is found exactly if the brackets are well-nested. -/
theorem nest_eq_none_iff {bs : List Bracket} (h : ∀ b ∈ bs, (isOpener b.char || isCloser b.char) = true) :
    nest [] bs = none ↔ WellNested (spelled bs) := by
  refine ⟨fun hnone => ?_, nest_of_wellNested⟩
  have hjudged := judged_nest h
  rwa [hnone] at hjudged

end AgentFlow.Bracket
