import Mathlib.Data.List.TakeWhile
import AgentFlow.Check.Symbol

/-!
# Calls in a text that is put together

A name is called in a text where it stands whole, before a parenthesis or after an at sign. If the seam of two texts
separates names, the name is called in the two together exactly if it is called in one of them (`called_append`).
Blanks separate names, so a line calls what it calls without the blanks around it.
-/

namespace AgentFlow

namespace Text

/-- The code points of blanks. -/
def blankCodes : List Nat :=
  [0x9, 0xa, 0xb, 0xc, 0xd, 0x20, 0x85, 0xa0, 0x1680, 0x2000, 0x2001, 0x2002, 0x2003, 0x2004, 0x2005, 0x2006, 0x2007,
   0x2008, 0x2009, 0x200a, 0x2028, 0x2029, 0x202f, 0x205f, 0x3000]

theorem toNat_mem_blankCodes {c : Char} (h : isBlank c = true) : c.toNat ∈ blankCodes := by
  simp only [isBlank, inRanges, List.any_cons, List.any_nil, Bool.or_false, Bool.or_eq_true, Bool.and_eq_true,
    decide_eq_true_eq] at h
  simp only [blankCodes, List.mem_cons, List.not_mem_nil, or_false]
  omega

/-- What holds of no blank by its code point holds of none. -/
theorem eq_false_of_isBlank {p : Char → Bool} (hp : blankCodes.all (fun n => !p (Char.ofNat n)) = true) {c : Char}
    (h : isBlank c = true) : p c = false := by
  have hcode := List.all_eq_true.mp hp c.toNat (toNat_mem_blankCodes h)
  rw [Char.ofNat_toNat] at hcode
  simpa using hcode

end Text

namespace Symbol

/-- The text is a name. -/
structure IsName (name : List Char) : Prop where
  ne_nil : name ≠ []
  chars : ∀ c ∈ name, isNameChar c = true

/-- A name before the text ends there, and the text does not call it. -/
def startsApart (cs : List Char) : Bool := cs.head?.all fun c => !isNameChar c && c != '('

/-- A name after the text starts there, and the text makes no decorator or member of it. -/
def endsApart (cs : List Char) : Bool := cs.getLast?.all fun c => !isNameChar c && c != '.' && c != '@'

/-- The name is called where the text starts. -/
def hits (name : List Char) (prev : Option Char) (cs : List Char) : Bool :=
  name.isPrefixOf cs && !prev.any (fun b => isNameChar b || b = '.')
    && ((cs.drop name.length).head? == some '(' || prev == some '@')

variable {name : List Char}

theorem called_cons (prev : Option Char) (c : Char) (cs : List Char) :
    called name prev (c :: cs) = (hits name prev (c :: cs) || called name (some c) cs) := rfl

/-- No name begins with a character that names do not have. -/
theorem not_prefix_of_head {c : Char} {cs : List Char} (hname : IsName name) (hc : isNameChar c = false) :
    ¬ name <+: c :: cs := by
  rintro ⟨t, ht⟩
  obtain ⟨d, ds, rfl⟩ := List.exists_cons_of_ne_nil hname.ne_nil
  obtain ⟨rfl, -⟩ := List.cons.inj ht
  rw [hname.chars d List.mem_cons_self] at hc
  cases hc

theorem hits_eq_false {prev : Option Char} {cs : List Char} (h : ¬ name <+: cs) : hits name prev cs = false := by
  have hno : name.isPrefixOf cs = false := by
    rw [← Bool.not_eq_true]
    exact fun hp => h (List.isPrefixOf_iff_prefix.mp hp)
  rw [hits, hno, Bool.false_and, Bool.false_and]

/-! ### Seams -/

/-- The seam of two texts separates names. -/
def apart (a b : List Char) : Bool := endsApart a || startsApart b

theorem isNameChar_head {b : List Char} {c : Char} (h : startsApart b = true) (hc : b.head? = some c) :
    isNameChar c = false ∧ c ≠ '(' := by
  rw [startsApart, hc, Option.all_some] at h
  simpa using h

theorem isNameChar_last {a : List Char} {c : Char} (h : endsApart a = true) (hc : a.getLast? = some c) :
    isNameChar c = false ∧ c ≠ '.' ∧ c ≠ '@' := by
  rw [endsApart, hc, Option.all_some] at h
  simpa [and_assoc] using h

/-- No name runs over the seam. -/
theorem prefix_of_prefix_append {a b : List Char} (hname : IsName name) (ha : a ≠ []) (hseam : apart a b = true)
    (h : name <+: a ++ b) : name <+: a := by
  rcases List.prefix_or_prefix_of_prefix h (List.prefix_append a b) with hshort | ⟨u, hu⟩
  · exact hshort
  rw [← hu, List.prefix_append_right_inj] at h
  rcases Bool.or_eq_true_iff.mp hseam with hends | hstarts
  · -- the last character before the seam would belong to the name
    have hmem : a.getLast ha ∈ name := by
      rw [← hu]
      exact List.mem_append_left _ (List.getLast_mem ha)
    have hno := (isNameChar_last hends (List.getLast?_eq_some_getLast ha)).1
    rw [hname.chars _ hmem] at hno
    cases hno
  · cases u with
    | nil =>
      obtain rfl : a = name := (List.append_nil a).symm.trans hu
      exact List.prefix_rfl
    | cons c u =>
      -- and so would the first one after it
      obtain ⟨t, ht⟩ := h
      have hhead : b.head? = some c := by rw [← ht]; rfl
      have hmem : c ∈ name := by
        rw [← hu]
        exact List.mem_append_right _ List.mem_cons_self
      have hno := (isNameChar_head hstarts hhead).1
      rw [hname.chars c hmem] at hno
      cases hno

/-- What follows a name in front of the seam does not turn it into a call. -/
theorem head?_drop_append {a b : List Char} (hname : IsName name) (hseam : apart a b = true) (h : name <+: a) :
    (((a ++ b).drop name.length).head? == some '(') = ((a.drop name.length).head? == some '(') := by
  obtain ⟨t, rfl⟩ := h
  rw [List.append_assoc, List.drop_left, List.drop_left]
  cases t with
  | cons c t => rfl
  | nil =>
    rw [List.append_nil] at hseam
    rcases Bool.or_eq_true_iff.mp hseam with hends | hstarts
    · have hno := (isNameChar_last hends (List.getLast?_eq_some_getLast hname.ne_nil)).1
      rw [hname.chars _ (List.getLast_mem hname.ne_nil)] at hno
      cases hno
    · cases b with
      | nil => rfl
      | cons c b =>
        have hne := (isNameChar_head hstarts rfl).2
        simpa using hne

/-- What follows the seam makes no difference to a call before it. -/
theorem hits_append {prev : Option Char} {a b : List Char} (hname : IsName name) (ha : a ≠ [])
    (hseam : apart a b = true) : hits name prev (a ++ b) = hits name prev a := by
  by_cases h : name <+: a
  · have hpre : name.isPrefixOf (a ++ b) = true :=
      List.isPrefixOf_iff_prefix.mpr (h.trans (List.prefix_append a b))
    rw [hits, hits, hpre, List.isPrefixOf_iff_prefix.mpr h, head?_drop_append hname hseam h]
  · have hlong : ¬ name <+: a ++ b := fun hp => h (prefix_of_prefix_append hname ha hseam hp)
    rw [hits_eq_false h, hits_eq_false hlong]

/-- A character that separates names leaves what follows as it is, and so does any before a separated text. -/
theorem called_some {c : Char} {b : List Char} (hname : IsName name) (hseam : apart [c] b = true) :
    called name (some c) b = called name none b := by
  cases b with
  | nil => rfl
  | cons d b =>
    rw [called_cons, called_cons]
    congr 1
    -- the character cannot be part of the name, or no name begins after it
    rcases Bool.or_eq_true_iff.mp hseam with hends | hstarts
    · obtain ⟨hc, hdot, hat⟩ := isNameChar_last hends (c := c) rfl
      have hbefore : (some c).any (fun b => isNameChar b || b = '.') = false := by simp [hc, hdot]
      have hmark : (some c == some '@') = false := by simpa using hat
      rw [hits, hits, hbefore, hmark]
      rfl
    · have hno : ¬ name <+: d :: b := not_prefix_of_head hname (isNameChar_head hstarts rfl).1
      rw [hits_eq_false hno, hits_eq_false hno]

/-- The induction is on the first text; its last character is what the second one sees. -/
theorem called_append_of_ne_nil {prev : Option Char} {a b : List Char} (hname : IsName name) (ha : a ≠ [])
    (hseam : apart a b = true) : called name prev (a ++ b) = (called name prev a || called name none b) := by
  induction a generalizing prev with
  | nil => exact absurd rfl ha
  | cons c a ih =>
    have hhits : hits name prev (c :: (a ++ b)) = hits name prev (c :: a) := hits_append hname ha hseam
    rw [List.cons_append, called_cons, called_cons, hhits, Bool.or_assoc]
    congr 1
    by_cases hnil : a = []
    · subst hnil
      exact called_some hname hseam
    · have hlast : endsApart (c :: a) = endsApart a := by
        rw [endsApart, endsApart, List.getLast?_cons_of_ne_nil hnil]
      refine ih hnil ?_
      rw [apart, ← hlast]
      exact hseam

/-- A name is called in two texts together if it is called in one of them. -/
theorem called_append {a b : List Char} (hname : IsName name) (hseam : apart a b = true) :
    called name none (a ++ b) = (called name none a || called name none b) := by
  by_cases ha : a = []
  · rw [ha]
    rfl
  · exact called_append_of_ne_nil hname ha hseam

/-! ### Texts that call nothing -/

/-- The text has neither a parenthesis nor an at sign. -/
def isQuiet (cs : List Char) : Bool := cs.all fun c => c != '(' && c != '@'

/-- A text without a parenthesis or an at sign calls nothing. -/
theorem called_of_isQuiet {prev : Option Char} {cs : List Char} (hprev : prev ≠ some '@') (h : isQuiet cs = true) :
    called name prev cs = false := by
  induction cs generalizing prev with
  | nil => rfl
  | cons c cs ih =>
    have hchars := List.all_eq_true.mp h
    have hc : some c ≠ some '@' := by simpa using (Bool.and_eq_true_iff.mp (hchars c List.mem_cons_self)).2
    have hhead : ((c :: cs).drop name.length).head? ≠ some '(' := by
      intro hopen
      have hmem : '(' ∈ c :: cs := List.mem_of_mem_drop (List.mem_of_mem_head? hopen)
      simpa using hchars '(' hmem
    rw [called_cons, ih hc (List.all_eq_true.mpr fun d hd => hchars d (List.mem_cons_of_mem c hd)), Bool.or_false]
    have hopen : (((c :: cs).drop name.length).head? == some '(') = false := beq_eq_false_iff_ne.mpr hhead
    have hmark : (prev == some '@') = false := beq_eq_false_iff_ne.mpr hprev
    rw [hits, hopen, hmark, Bool.or_self, Bool.and_false]

/-- Inside a longer name nothing is called. -/
theorem called_inside {c : Char} {word : List Char} (hname : IsName name) (hc : isNameChar c = true)
    (hword : ∀ d ∈ word, isNameChar d = true) : called name (some c) (word ++ ['(']) = false := by
  induction word generalizing c with
  | nil =>
    have hno : ¬ name <+: ['('] := not_prefix_of_head hname (by decide)
    rw [List.nil_append, called_cons, hits_eq_false hno]
    rfl
  | cons d word ih =>
    obtain ⟨hd, hword⟩ := List.forall_mem_cons.mp hword
    rw [List.cons_append, called_cons, ih hd hword, Bool.or_false]
    simp [hits, hc]

/-- A call of another name is no call of this one. -/
theorem called_call {word : List Char} (hname : IsName name) (hword : ∀ c ∈ word, isNameChar c = true)
    (hne : word ≠ name) : called name none (word ++ ['(']) = false := by
  have hparen : isNameChar '(' = false := by decide
  -- at its start the word is called, and it is not the name
  have hhits : hits name none (word ++ ['(']) = false := by
    by_cases hp : name <+: word ++ ['(']
    · obtain ⟨t, ht⟩ := hp
      rcases List.eq_nil_or_concat t with rfl | ⟨t, d, rfl⟩
      · -- the name would take in the parenthesis
        have hmem : '(' ∈ name := by
          rw [← List.append_nil name, ht]
          simp
        rw [hname.chars _ hmem] at hparen
        cases hparen
      · rw [List.concat_eq_append, ← List.append_assoc] at ht
        obtain ⟨rfl, hd⟩ := List.append_inj' ht rfl
        cases t with
        | nil => exact absurd (List.append_nil name) hne
        | cons c t =>
          have hc : isNameChar c = true := hword c (List.mem_append_right _ List.mem_cons_self)
          have hopen : (some c == some '(') = false := by
            refine beq_eq_false_iff_ne.mpr fun hsame => ?_
            rw [Option.some.inj hsame, hparen] at hc
            cases hc
          rw [hits, List.append_assoc, List.drop_left]
          show (_ && _ && (some c == some '(' || _)) = false
          rw [hopen]
          simp
    · exact hits_eq_false hp
  cases word with
  | nil =>
    rw [List.nil_append] at hhits ⊢
    rw [called_cons, hhits]
    rfl
  | cons c word =>
    obtain ⟨hc, htail⟩ := List.forall_mem_cons.mp hword
    rw [List.cons_append] at hhits ⊢
    rw [called_cons, hhits, called_inside hname hc htail]
    rfl

/-! ### Blanks around a text -/

theorem isNameChar_of_isBlank {c : Char} (h : Text.isBlank c = true) : isNameChar c = false :=
  Text.eq_false_of_isBlank (by decide +kernel) h

theorem isQuiet_of_blanks {cs : List Char} (h : ∀ c ∈ cs, Text.isBlank c = true) : isQuiet cs = true := by
  refine List.all_eq_true.mpr fun c hc => ?_
  have hloud : (c == '(' || c == '@') = false :=
    Text.eq_false_of_isBlank (p := fun c => c == '(' || c == '@') (by decide) (h c hc)
  simpa using hloud

theorem endsApart_of_blanks {cs : List Char} (h : ∀ c ∈ cs, Text.isBlank c = true) : endsApart cs = true := by
  cases hlast : cs.getLast? with
  | none => simp [endsApart, hlast]
  | some c =>
    have hblank := h c (List.mem_of_getLast? hlast)
    have hmark : (c == '.' || c == '@') = false :=
      Text.eq_false_of_isBlank (p := fun c => c == '.' || c == '@') (by decide) hblank
    obtain ⟨hdot, hat⟩ : c ≠ '.' ∧ c ≠ '@' := by simpa using hmark
    simp [endsApart, hlast, isNameChar_of_isBlank hblank, hdot, hat]

theorem called_blanks_append {blanks cs : List Char} (hname : IsName name)
    (h : ∀ c ∈ blanks, Text.isBlank c = true) : called name none (blanks ++ cs) = called name none cs := by
  have hseam : apart blanks cs = true := by rw [apart, endsApart_of_blanks h, Bool.true_or]
  rw [called_append hname hseam, called_of_isQuiet (by simp) (isQuiet_of_blanks h), Bool.false_or]

/-- Blanks before a text make no difference to what it calls. -/
theorem called_trimStart (hname : IsName name) (cs : List Char) :
    called name none (Text.trimStart cs) = called name none cs := by
  have hblanks : ∀ c ∈ cs.takeWhile Text.isBlank, Text.isBlank c = true := fun c hc => List.mem_takeWhile_imp hc
  rw [← called_blanks_append hname hblanks]
  exact congrArg (called name none) List.takeWhile_append_dropWhile

end Symbol

end AgentFlow
