import AgentFlow.PatternFix
import AgentFlow.Proofs.Check.Edit
import AgentFlow.Proofs.Python.Plain
import AgentFlow.Proofs.Python.Value
import AgentFlow.Proofs.Text.Fragment

/-!
# A credential in a literal

The repair of a placeholder credential writes the credential into finished code as it is, in the place of its
placeholder. Literals stay apart from the rest of the code as far as the placeholder goes (`toList_putCredential`). The
literal that held the placeholder holds the credential afterwards exactly if the credential is verbatim text; it is
written as code generation writes it exactly if the credential has no character that has to be escaped.
-/

namespace AgentFlow

open Text

/-! ### Literals of texts with a fragment -/

namespace Python

/-- What stands between the quotes of a literal. -/
def escaped (s : List Char) : List Char := s.flatMap escapeChar

theorem toList_quote (s : String) : (quote s).toList = '"' :: (escaped s.toList ++ ['"']) := by
  rw [quote, String.toList_ofList, List.cons_append]
  rfl

theorem escaped_cons (c : Char) (s : List Char) : escaped (c :: s) = escapeChar c ++ escaped s := rfl

theorem escaped_append (a b : List Char) : escaped (a ++ b) = escaped a ++ escaped b := List.flatMap_append

/-- Characters that need no escape. -/
def Unescaped (cs : List Char) : Prop := ∀ c ∈ cs, escapeChar c = [c]

/-- Without escapes a literal holds its text as it is. -/
theorem Unescaped.escaped_eq {cs : List Char} (h : Unescaped cs) : escaped cs = cs := by
  induction cs with
  | nil => rfl
  | cons c cs ih =>
    obtain ⟨hc, hcs⟩ := List.forall_mem_cons.mp h
    rw [escaped_cons, hc, ih hcs]
    rfl

/-- Escapes do not make a text shorter. -/
theorem length_le_escaped (cs : List Char) : cs.length ≤ (escaped cs).length := by
  induction cs with
  | nil => exact Nat.le_refl 0
  | cons c cs ih =>
    rw [escaped_cons, List.length_append, List.length_cons]
    rcases Literal.escapeChar_cases c with ⟨hc, -⟩ | ⟨d, ds, hc, -⟩
    · rw [hc, List.length_singleton]
      omega
    · rw [hc, List.length_cons]
      omega

/-- Every escape makes a text longer. -/
theorem unescaped_of_escaped_eq {cs : List Char} (h : escaped cs = cs) : Unescaped cs := by
  induction cs with
  | nil => simp [Unescaped]
  | cons c cs ih =>
    rw [escaped_cons] at h
    rcases Literal.escapeChar_cases c with ⟨hc, -⟩ | ⟨d, ds, hc, -⟩
    · rw [hc] at h
      exact List.forall_mem_cons.mpr ⟨hc, ih (List.cons.inj h).2⟩
    · have hlen := congrArg List.length h
      have hle := length_le_escaped cs
      rw [hc, List.length_append, List.length_cons, List.length_cons, List.length_cons] at hlen
      omega

/-- A fragment without escapes begins a literal exactly if it begins its text. -/
theorem prefix_escaped_iff {w : List Char} (hw : Unescaped w) (s : List Char) : w <+: escaped s ↔ w <+: s := by
  induction w generalizing s with
  | nil => simp
  | cons x w ih =>
    obtain ⟨hx, hw⟩ := List.forall_mem_cons.mp hw
    cases s with
    | nil => rfl
    | cons c s =>
      rw [escaped_cons, List.cons_prefix_cons]
      rcases Literal.escapeChar_cases c with ⟨hc, -⟩ | ⟨d, ds, hc, -⟩
      · rw [hc, List.singleton_append, List.cons_prefix_cons, ih hw]
      · rw [hc, List.cons_append, List.cons_prefix_cons]
        constructor
        · -- an escape begins with a backslash, which itself needs an escape
          rintro ⟨rfl, -⟩
          exact absurd hx (by decide)
        · rintro ⟨rfl, -⟩
          rw [hc] at hx
          cases hx

end Python

open Python Launch

/-! ### The credential in the place of its placeholder -/

namespace PatternFix

/-- The text with the credential in the place of its placeholder. -/
def fill (key : String) (cs : List Char) : List Char := replace placeholderKey.toList key.toList cs

section Fill

variable {key : String}

theorem placeholderKey_ne_nil : placeholderKey.toList ≠ [] := by decide

theorem unescaped_placeholderKey : Unescaped placeholderKey.toList := by
  have hall : (placeholderKey.toList.all fun c => escapeChar c == [c]) = true := by decide
  exact fun c hc => by simpa using List.all_eq_true.mp hall c hc

theorem fill_placeholderKey_append (b : List Char) : fill key (placeholderKey.toList ++ b) = key.toList ++ fill key b :=
  replace_append_self placeholderKey_ne_nil b

theorem fill_placeholderKey : fill key placeholderKey.toList = key.toList := by
  rw [← List.append_nil placeholderKey.toList, fill_placeholderKey_append]
  exact List.append_nil _

/-- Where no placeholder begins, a character stays. -/
theorem fill_cons {c : Char} {cs : List Char} (h : ¬ placeholderKey.toList <+: c :: cs) :
    fill key (c :: cs) = c :: fill key cs := replace_cons h

/-- Quotes part what is filled in. -/
theorem fill_append_quote (a b : List Char) : fill key (a ++ '"' :: b) = fill key a ++ '"' :: fill key b :=
  replace_append_cons placeholderKey_ne_nil (by decide) a b

theorem fill_escaped_placeholderKey (b : List Char) :
    fill key (escaped (placeholderKey.toList ++ b)) = key.toList ++ fill key (escaped b) := by
  rw [escaped_append, unescaped_placeholderKey.escaped_eq, fill_placeholderKey_append]

/-- No placeholder begins inside of an escape. -/
theorem fill_escaped_cons {c : Char} {cs : List Char} (h : ¬ placeholderKey.toList <+: c :: cs) :
    fill key (escaped (c :: cs)) = escapeChar c ++ fill key (escaped cs) := by
  rw [escaped_cons]
  by_cases hc : escapeChar c = [c]
  · have hno : ¬ placeholderKey.toList <+: c :: escaped cs := by
      rw [← prefix_escaped_iff unescaped_placeholderKey, escaped_cons, hc] at h
      exact h
    rw [hc, List.singleton_append, fill_cons hno]
    rfl
  · -- a placeholder begins with a letter that is in no escape
    have hp : c ≠ 'p' := by
      rintro rfl
      exact hc (by decide)
    refine replace_append_of_head placeholderKey_ne_nil (fun d hd => ?_) _
    have hd := forall_mem_escapeChar (p := (· != 'p')) (by decide) (fun _ => by simpa using hp) d hd
    have hhead : placeholderKey.toList.head? = some 'p' := by decide
    rw [hhead]
    intro heq
    rw [← Option.some.inj heq] at hd
    exact absurd hd (by decide)

/-- An induction along a text with placeholders. -/
theorem fill_induction {P : List Char → Prop} (hnil : P []) (hkey : ∀ b, P b → P (placeholderKey.toList ++ b))
    (hcons : ∀ c cs, ¬ placeholderKey.toList <+: c :: cs → P cs → P (c :: cs)) (cs : List Char) : P cs :=
  replace_induction placeholderKey_ne_nil hnil hkey hcons cs

/-- A literal with a verbatim credential in it stands for the text with the credential in it. -/
theorem read_fill_escaped (named : List Char → Option Char) (h : Literal.isVerbatim key.toList = true)
    (s rest : List Char) : Literal.read named 0 (fill key (escaped s) ++ '"' :: rest) = some (fill key s, rest) := by
  refine fill_induction
    (P := fun s => Literal.read named 0 (fill key (escaped s) ++ '"' :: rest) = some (fill key s, rest)) ?_ ?_ ?_ s
  · exact Literal.read_quote rest
  · intro b ih
    rw [fill_escaped_placeholderKey, fill_placeholderKey_append, List.append_assoc, Literal.read_verbatim h, ih,
      Option.map_some]
  · intro c cs hno ih
    rw [fill_escaped_cons hno, fill_cons hno, List.append_assoc, Literal.read_escapeChar, ih, Option.map_some]

/-- A credential without escapes is written as code generation writes it. -/
theorem fill_escaped_eq (h : Unescaped key.toList) (s : List Char) : fill key (escaped s) = escaped (fill key s) := by
  refine fill_induction (P := fun s => fill key (escaped s) = escaped (fill key s)) rfl ?_ ?_ s
  · intro b ih
    rw [fill_escaped_placeholderKey, fill_placeholderKey_append, escaped_append, h.escaped_eq, ih]
  · intro c cs hno ih
    rw [fill_escaped_cons hno, ih, fill_cons hno, escaped_cons]

end Fill

section Repair

variable {key : String} {findings : List Finding}

/-- Putting the credential in changes nothing but placeholders. -/
theorem toList_putCredential (hkey : blank key = false) (hasks : asks findings "placeholder-credential" = true)
    (fix : PatternFix) :
    (putCredential findings (some key) fix).code.toList = fill key fix.code.toList := by
  have hsome : nonBlank (some key) = some key := by simp [nonBlank, hkey]
  simp only [putCredential, hsome, hasks, if_true, String.toList_ofList]
  rfl

/-- Where nothing else is asked for, only the credential is put in. -/
theorem apply_eq_putCredential (honly : ∀ id, id ≠ "placeholder-credential" → asks findings id = false)
    (credential : Option String) (code : String) :
    apply code findings credential = putCredential findings credential { code := code } := by
  rw [apply, removeFences, honly _ (by decide), Bool.false_and, replaceTabs, honly _ (by decide), addColons,
    honly _ (by decide), addImports, honly _ (by decide), addEntry, honly _ (by decide)]
  simp

end Repair

/-- What becomes of a literal when a credential takes the place of its placeholder in finished code. The code around the
literal stays apart from it. The literal stands for its text with the credential in it exactly if the credential is
verbatim, and it is the one that code generation writes for that text exactly if the credential needs no escape. -/
theorem credential_in_literal_iff {key : String} {findings : List Finding} (hkey : blank key = false)
    (hasks : asks findings "placeholder-credential" = true) (named : List Char → Option Char) :
    (∀ fix a s b, fix.code.toList = a ++ ((quote s).toList ++ b) →
      (putCredential findings (some key) fix).code.toList =
        fill key a ++ '"' :: (fill key (escaped s.toList) ++ '"' :: fill key b)) ∧
    ((∀ id, id ≠ "placeholder-credential" → asks findings id = false) → ∀ code,
      apply code findings (some key) = putCredential findings (some key) { code := code }) ∧
    ((∀ s rest, contains placeholderKey s = true →
        Literal.read named 0 (fill key (escaped s) ++ '"' :: rest) = some (fill key s, rest)) ↔
      Literal.isVerbatim key.toList = true) ∧
    ((∀ s, contains placeholderKey s = true →
        '"' :: (fill key (escaped s) ++ ['"']) = (quote (String.ofList (fill key s))).toList) ↔
      Unescaped key.toList) := by
  have hself : contains placeholderKey placeholderKey.toList = true := occurs_iff.mpr List.infix_rfl
  refine ⟨fun fix a s b hcode => ?_, fun honly code => apply_eq_putCredential honly _ code,
    ⟨fun h => ?_, fun h s rest _ => ?_⟩, ⟨fun h => ?_, fun h s _ => ?_⟩⟩
  · rw [toList_putCredential hkey hasks, hcode, toList_quote, List.cons_append, List.append_assoc,
      List.singleton_append, fill_append_quote, fill_append_quote]
  · -- the literal of the placeholder alone becomes that of the credential
    have hread := h placeholderKey.toList [] hself
    rw [unescaped_placeholderKey.escaped_eq, fill_placeholderKey] at hread
    exact Literal.read_eq_self_iff.mp hread
  · exact read_fill_escaped named h s rest
  · have hwritten := h placeholderKey.toList hself
    rw [unescaped_placeholderKey.escaped_eq, fill_placeholderKey, toList_quote, String.toList_ofList] at hwritten
    have hsame : key.toList = escaped key.toList := List.append_cancel_right (List.cons.inj hwritten).2
    exact unescaped_of_escaped_eq hsame.symm
  · rw [toList_quote, String.toList_ofList, fill_escaped_eq h]

/-- What the checks report about a placeholder credential on the first line. -/
def placeholderFinding : Finding :=
  { id := "placeholder-credential", category := .protocol, severity := .error,
    message := "Tool server still uses the placeholder credential", line := some 1, fixable := true }

theorem credential_in_literal_iff_backslash :
    blank "k\\d" = false ∧ asks [placeholderFinding] "placeholder-credential" = true ∧
    contains placeholderKey "\tplaceholder_api_key".toList = true ∧
    Literal.read (fun _ => none) 0 (fill "k\\d" (escaped "\tplaceholder_api_key".toList) ++ ['"']) =
      some ("\tk\\d".toList, []) := by
  have hasks : asks [placeholderFinding] "placeholder-credential" = true := by decide
  have hverbatim : Literal.isVerbatim "k\\d".toList = true := by decide
  have hfilled : fill "k\\d" "\tplaceholder_api_key".toList = "\tk\\d".toList := by decide
  have hread := (credential_in_literal_iff (by decide) hasks fun _ => none).2.2.1.mpr hverbatim
    "\tplaceholder_api_key".toList [] (by decide)
  rw [hfilled] at hread
  exact ⟨by decide, hasks, by decide, hread⟩

/-- A quote in the credential ends the literal. -/
theorem credential_quote_ends_literal :
    (apply "args = [\"--key\", \"placeholder_api_key\"]\n" [placeholderFinding] (some "a\"b")).code =
      "args = [\"--key\", \"a\"b\"]\n" ∧
    ∀ named, Literal.read named 0 "a\"b\"]\n".toList = some ("a".toList, "b\"]\n".toList) :=
  ⟨by decide, fun _ => rfl⟩

end PatternFix

end AgentFlow
