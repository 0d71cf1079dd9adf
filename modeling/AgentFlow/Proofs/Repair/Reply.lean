import AgentFlow.Proofs.Json.Literal
import AgentFlow.Proofs.Source.Projection
import AgentFlow.Repair.Basic

/-!
# Replies are read back

A repairer may talk around its answer. The object is looked for between the first opening brace of the reply and the
last closing one, so the prose around it must be free of braces and the texts within it need not be: `braced` passes
over such prose on either side, and over the blanks that are trimmed first, and leaves an object as it stands.
`Carries` says in these terms that a value can be found in a reply. A reply that carries no text `code` is taken for
the code itself.
-/

namespace AgentFlow

namespace Text

/-- Trimming takes blanks from both ends. -/
theorem exists_trim (cs : List Char) : ∃ front back, cs = front ++ trim cs ++ back ∧
    (∀ c ∈ front, isBlank c = true) ∧ ∀ c ∈ back, isBlank c = true := by
  obtain ⟨back, hback, hcut⟩ := cutFrom_trimEnd (trimStart cs)
  refine ⟨cs.takeWhile isBlank, back, ?_, fun c hc => List.mem_takeWhile_imp hc, hback⟩
  calc cs = cs.takeWhile isBlank ++ trimStart cs := List.takeWhile_append_dropWhile.symm
    _ = cs.takeWhile isBlank ++ (trim cs ++ back) := by rw [hcut]; rfl
    _ = cs.takeWhile isBlank ++ trim cs ++ back := (List.append_assoc _ _ _).symm

end Text

namespace RepairResponse

open Text

/-! ### Between the braces -/

theorem dropWhile_ne_of_not_mem {c : Char} {a : List Char} (h : c ∉ a) (b : List Char) :
    (a ++ b).dropWhile (· != c) = b.dropWhile (· != c) := by
  refine List.dropWhile_append_of_pos fun d hd => ?_
  have hne : d ≠ c := by
    rintro rfl
    exact h hd
  simpa using hne

theorem braced_append_left {front : List Char} (h : '\x7b' ∉ front) (cs : List Char) :
    braced (front ++ cs) = braced cs := by
  rw [braced, dropWhile_ne_of_not_mem h, braced]

theorem braced_append_right {back : List Char} (h : '\x7d' ∉ back) (cs : List Char) :
    braced (cs ++ back) = braced cs := by
  -- what the search for the opening brace leaves of `back` holds no closing brace either
  have hskip : ∀ more rest : List Char, more ⊆ back →
      (rest ++ more).reverse.dropWhile (· != '\x7d') = rest.reverse.dropWhile (· != '\x7d') := by
    intro more rest hmore
    rw [List.reverse_append]
    exact dropWhile_ne_of_not_mem (fun hmem => h (hmore (List.mem_reverse.mp hmem))) _
  unfold braced
  rw [List.dropWhile_append]
  split_ifs with hempty
  · rw [List.isEmpty_iff.mp hempty]
    exact congrArg List.reverse (hskip _ [] (List.dropWhile_suffix _).subset)
  · rw [hskip back _ (List.Subset.refl back)]

theorem braced_object (members : List Char) :
    braced ('\x7b' :: members ++ ['\x7d']) = '\x7b' :: members ++ ['\x7d'] := by
  simp [braced]

/-- An object is found in prose. -/
theorem braced_around {before after : List Char} (hbefore : '\x7b' ∉ before) (hafter : '\x7d' ∉ after)
    (members : List Char) :
    braced (before ++ ('\x7b' :: members ++ ['\x7d']) ++ after) = '\x7b' :: members ++ ['\x7d'] := by
  rw [braced_append_right hafter, braced_append_left hbefore, braced_object]

/-- Blanks at the ends do not matter. -/
theorem braced_trim (cs : List Char) : braced (trim cs) = braced cs := by
  obtain ⟨front, back, hsplit, hfront, hback⟩ := exists_trim cs
  have hopening : '\x7b' ∉ front := fun hmem => absurd (hfront _ hmem) (by decide)
  have hclosing : '\x7d' ∉ back := fun hmem => absurd (hback _ hmem) (by decide)
  conv_rhs => rw [hsplit, braced_append_right hclosing, braced_append_left hopening]

theorem exists_of_dropWhile_ne_nil {c : Char} {cs : List Char} (h : cs.dropWhile (· != c) ≠ []) :
    ∃ before rest, cs = before ++ c :: rest ∧ c ∉ before ∧ cs.dropWhile (· != c) = c :: rest := by
  cases hdrop : cs.dropWhile (· != c) with
  | nil => exact absurd hdrop h
  | cons d rest =>
    have hd : d = c := by simpa [hdrop] using List.head_dropWhile_not (· != c) h
    subst hd
    refine ⟨cs.takeWhile (· != d), rest, ?_, fun hmem => ?_, rfl⟩
    · rw [← hdrop, List.takeWhile_append_dropWhile]
    · have hne : (d != d) = true := List.mem_takeWhile_imp (p := (· != d)) hmem
      exact absurd hne (by simp)

/-- What `braced` finds stands in the text, with no opening brace before it and no closing one after it. -/
theorem exists_of_braced_ne_nil {cs : List Char} (h : braced cs ≠ []) : ∃ before members after,
    cs = before ++ ('\x7b' :: members ++ ['\x7d']) ++ after ∧ '\x7b' ∉ before ∧ '\x7d' ∉ after := by
  have hclosing : (cs.dropWhile (· != '\x7b')).reverse.dropWhile (· != '\x7d') ≠ [] := by
    intro hnil
    exact h (by rw [braced, hnil, List.reverse_nil])
  have hopening : cs.dropWhile (· != '\x7b') ≠ [] := by
    intro hnil
    exact hclosing (by rw [hnil]; rfl)
  obtain ⟨before, rest, hcs, hbefore, hdrop⟩ := exists_of_dropWhile_ne_nil hopening
  rw [hdrop] at hclosing
  obtain ⟨after, front, hrest, hafter, -⟩ := exists_of_dropWhile_ne_nil hclosing
  have hfront : '\x7b' :: rest = front.reverse ++ '\x7d' :: after.reverse := by
    rw [← List.reverse_reverse ('\x7b' :: rest), hrest]
    simp
  cases hf : front.reverse with
  | nil =>
    -- a closing brace cannot stand where the opening one does
    rw [hf] at hfront
    exact absurd (List.cons.inj hfront).1 (by decide)
  | cons c members =>
    rw [hf] at hfront
    obtain ⟨rfl, hmembers⟩ := List.cons.inj hfront
    refine ⟨before, members, after.reverse, ?_, hbefore, fun hmem => hafter (List.mem_reverse.mp hmem)⟩
    rw [hcs, hmembers]
    simp

/-! ### Objects in replies -/

/-- The value can be loaded from the text between the first opening brace of the reply and the last closing one. -/
def Carries (text : String) (v : Json) : Prop :=
  ∃ before members after : String, text = before ++ ("\x7b" ++ members ++ "\x7d") ++ after ∧
    '\x7b' ∉ before.toList ∧ '\x7d' ∉ after.toList ∧ Json.load? ("\x7b" ++ members ++ "\x7d") = some v

/-- The reply carries an object that answers: one with a text `code`. -/
def Usable (text : String) : Prop := ∃ v code, Carries text v ∧ v.get? "code" = some (.str code)

theorem toList_object (members : String) :
    ("\x7b" ++ members ++ "\x7d").toList = '\x7b' :: members.toList ++ ['\x7d'] := by
  simp [String.toList_append]

/-- What is loaded from a reply is what it carries. -/
theorem load?_braced_iff {text : String} {v : Json} :
    Json.load? (String.ofList (braced (trim text.toList))) = some v ↔ Carries text v := by
  rw [braced_trim]
  constructor
  · intro hload
    -- nothing is loaded from an empty text
    have hne : braced text.toList ≠ [] := by
      intro hnil
      rw [hnil, Json.load?, Json.parse?, String.toList_ofList] at hload
      cases hload
    obtain ⟨before, members, after, hsplit, hbefore, hafter⟩ := exists_of_braced_ne_nil hne
    refine ⟨String.ofList before, String.ofList members, String.ofList after, ?_, ?_, ?_, ?_⟩
    · apply String.toList_injective
      rw [String.toList_append, String.toList_append, toList_object, String.toList_ofList, String.toList_ofList,
        String.toList_ofList, hsplit]
    · rwa [String.toList_ofList]
    · rwa [String.toList_ofList]
    · rw [hsplit, braced_around hbefore hafter] at hload
      rwa [← String.ofList_toList (s := "\x7b" ++ String.ofList members ++ "\x7d"), toList_object,
        String.toList_ofList]
  · rintro ⟨before, members, after, rfl, hbefore, hafter, hload⟩
    rw [String.toList_append, String.toList_append, toList_object, braced_around hbefore hafter, ← toList_object,
      String.ofList_toList]
    exact hload

/-- A reply that carries an object with a text `code` is read as this object says. -/
theorem parse_of_carries {text code : String} {v : Json} (hv : Carries text v)
    (hcode : v.get? "code" = some (.str code)) :
    parse text = .ok { code := Source.clean code
                       confidence := ((v.get? "confidence").bind Json.float?).map percent
                       explanation := (v.get? "explanation").bind Json.str? } := by
  have hread : (Json.load? (String.ofList (braced (trim text.toList)))).bind ofJson? = some
      { code := Source.clean code
        confidence := ((v.get? "confidence").bind Json.float?).map percent
        explanation := (v.get? "explanation").bind Json.str? } := by
    rw [load?_braced_iff.mpr hv, Option.bind_some, ofJson?, hcode]
    rfl
  delta parse
  dsimp only
  rw [hread]

/-- A reply without a usable object is the code itself. -/
theorem parse_of_not_usable {text : String} (h : ¬ Usable text) :
    parse text = if Source.clean (strip text) = "" then .error (.malformed "Reply contained no code")
      else .ok { code := Source.clean (strip text) } := by
  have hnone : (Json.load? (String.ofList (braced (trim text.toList)))).bind ofJson? = none := by
    rw [Option.bind_eq_none_iff]
    intro v hload
    rw [ofJson?, Option.map_eq_none_iff, Option.bind_eq_none_iff]
    intro w hw
    cases w with
    | str code => exact absurd ⟨v, code, load?_braced_iff.mp hload, hw⟩ h
    | _ => rfl
  delta parse
  dsimp only
  rw [hnone]
  rfl

/-- Every answer that is read is clean. -/
theorem clean_code_of_parse {text : String} {r : RepairResponse} (h : parse text = .ok r) :
    Source.clean r.code = r.code := by
  by_cases husable : Usable text
  · obtain ⟨v, code, hv, hcode⟩ := husable
    rw [parse_of_carries hv hcode] at h
    rw [← Except.ok.inj h]
    exact Source.clean_clean code
  · rw [parse_of_not_usable husable] at h
    split_ifs at h
    rw [← Except.ok.inj h]
    exact Source.clean_clean (strip text)

/-! ### Confidence -/

open Json.Number in
/-- A number is a confidence in percent, up to a hundred. -/
theorem percent_asDouble {n : Nat} (hmax : n ≤ significandMax) : percent (asDouble n) = min n 100 := by
  by_cases hsmall : n < 128
  · have hall : ((List.range 128).all fun n => percent (asDouble n) == min n 100) = true := by decide +kernel
    exact beq_iff_eq.mp (List.all_eq_true.mp hall n (List.mem_range.mpr hsmall))
  · -- larger numbers need not be exact: they are above a hundred
    have hlog : 7 ≤ n.log2 := (Nat.le_log2 (by omega)).mpr (by omega)
    have hnormal := normal_asDouble (by omega) hmax
    have habove : 100.0 < asDouble n := Double.hundred_lt hnormal (by omega)
    have hcut : percent (asDouble n) = percent 100.0 := by
      unfold percent
      rw [if_neg (Double.not_lt_zero hnormal), if_pos habove]
      rfl
    rw [hcut, Nat.min_eq_right (by omega)]
    rfl

open Json.Number in
theorem percent_neg_asDouble {n : Nat} (hn : n ≠ 0) (hmax : n ≤ significandMax) : percent (-asDouble n) = 0 := by
  have hlog : n.log2 < 64 := (Nat.log2_lt hn).mpr (Nat.lt_succ_of_le hmax)
  have hbelow : -asDouble n < 0.0 := Double.neg_lt_zero (normal_asDouble hn hmax) (by omega) (by omega)
  unfold percent
  rw [if_pos hbelow]
  rfl

/-- The confidence of a 64-bit integer, with or without a sign. -/
theorem percent_int {i : Int} (hlow : -Int.pow 2 63 ≤ i) (hhigh : i < Int.pow 2 64) :
    (Json.int i).float?.map percent = some (max 0 (min 100 i)).toNat := by
  have hfits : i.natAbs ≤ Json.Number.significandMax := by
    have hmin : Int.pow 2 63 = 9223372036854775808 := rfl
    have hmax : Int.pow 2 64 = 18446744073709551616 := rfl
    show i.natAbs ≤ 18446744073709551615
    omega
  show (Json.Number.ofInt i).float?.map percent = _
  rw [Json.Number.float?_ofInt hfits, Option.map_some]
  split_ifs with hneg
  · rw [percent_neg_asDouble (by omega) hfits]
    exact congrArg some (by omega)
  · rw [percent_asDouble hfits]
    exact congrArg some (by omega)

theorem parse_of_confident {text code : String} {v : Json} {confidence : Int} (hv : Carries text v)
    (hcode : v.get? "code" = some (.str code)) (hconfidence : v.get? "confidence" = some (.int confidence))
    (hlow : -Int.pow 2 63 ≤ confidence) (hhigh : confidence < Int.pow 2 64) :
    parse text = .ok { code := Source.clean code
                       confidence := some (max 0 (min 100 confidence)).toNat
                       explanation := (v.get? "explanation").bind Json.str? } := by
  rw [parse_of_carries hv hcode, hconfidence, Option.bind_some, percent_int hlow hhigh]

/-! ### The whole reply -/

/-- The object that answers with a code and a confidence. -/
def answer (code : String) (confidence : Int) : Json := .obj [("code", .str code), ("confidence", .int confidence)]

theorem load?_print_answer (code : String) {confidence : Int} (hlow : -Int.pow 2 63 ≤ confidence)
    (hhigh : confidence < Int.pow 2 64) :
    Json.load? (answer code confidence).print = some (answer code confidence) := by
  have hspelled : (answer code confidence).Spelled := by
    intro n hn
    obtain rfl : n = .ofInt confidence := by
      simpa [answer, Json.numbers, Json.memberNumbers, Json.int] using hn
    exact Json.Number.spelled_ofInt confidence
  have hnumber : (Json.int confidence).float?.isSome = true := by
    rw [← Option.isSome_map (f := percent), percent_int hlow hhigh]
    rfl
  have hloads : (answer code confidence).loads Json.maxDepth = true := by
    show (true && ((Json.int confidence).float?.isSome && true)) = true
    rw [hnumber]
    rfl
  rw [Json.load?, Json.parse?_print hspelled, Option.filter_some, if_pos hloads]

/-- Prose around an object: no brace of either kind. -/
def BraceFree (prose : String) : Prop := '\x7b' ∉ prose.toList ∧ '\x7d' ∉ prose.toList
  deriving Decidable

theorem carries_print {members : List (String × Json)} {before after : String} (hbefore : BraceFree before)
    (hafter : BraceFree after) (hload : Json.load? (Json.obj members).print = some (.obj members)) :
    Carries (before ++ (Json.obj members).print ++ after) (.obj members) :=
  ⟨before, Json.printMembers members, after, rfl, hbefore.1, hafter.2, hload⟩

/-- An answer is found in any prose that is free of braces, whatever its code holds; so is every object that a reply
carries, however it is spelled. What is read is clean. A reply with a usable object never fails, and one without it
fails exactly when it leaves no code. -/
theorem replies_read_back :
    (∀ (code before after : String) (confidence : Int), BraceFree before → BraceFree after →
      -Int.pow 2 63 ≤ confidence → confidence < Int.pow 2 64 →
      parse (before ++ (answer code confidence).print ++ after) =
        .ok { code := Source.clean code, confidence := some (max 0 (min 100 confidence)).toNat }) ∧
    (∀ (text code : String) (v : Json) (confidence : Int), Carries text v → v.get? "code" = some (.str code) →
      v.get? "confidence" = some (.int confidence) → -Int.pow 2 63 ≤ confidence → confidence < Int.pow 2 64 →
      parse text = .ok { code := Source.clean code
                         confidence := some (max 0 (min 100 confidence)).toNat
                         explanation := (v.get? "explanation").bind Json.str? }) ∧
    (∀ (text : String) (r : RepairResponse), parse text = .ok r → Source.clean r.code = r.code) ∧
    ∀ text : String, (Usable text → ∃ r, parse text = .ok r) ∧
      (¬ Usable text → ((∃ e, parse text = .error e) ↔ Source.clean (strip text) = "")) := by
  refine ⟨?_, fun text code v confidence => parse_of_confident, fun text r => clean_code_of_parse,
    fun text => ⟨?_, fun hnone => ?_⟩⟩
  · intro code before after confidence hbefore hafter hlow hhigh
    have hv := carries_print hbefore hafter (load?_print_answer code hlow hhigh)
    exact parse_of_confident hv rfl rfl hlow hhigh
  · rintro ⟨v, code, hv, hcode⟩
    exact ⟨_, parse_of_carries hv hcode⟩
  · rw [parse_of_not_usable hnone]
    split_ifs with hempty
    · exact ⟨fun _ => hempty, fun _ => ⟨_, rfl⟩⟩
    · constructor
      · rintro ⟨e, he⟩
        cases he
      · exact fun h => absurd h hempty

/-- Members in the other order, with blanks around them and braces in the code. -/
def looseMembers : String := " \"confidence\" : -3 , \"code\" : \"d = \x7b\x7d\" "

def looseAnswer : Json := .obj [("confidence", .int (-3)), ("code", .str "d = \x7b\x7d")]

theorem load?_looseMembers : Json.load? ("\x7b" ++ looseMembers ++ "\x7d") = some looseAnswer := by
  have hparse : Json.parse? ("\x7b" ++ looseMembers ++ "\x7d") = some looseAnswer := by
    rw [Json.parse?, toList_object]
    rfl
  rw [Json.load?, hparse, Option.filter_some, if_pos (by decide)]

theorem not_usable_fence : ¬ Usable "```" := by
  rintro ⟨v, code, ⟨before, members, after, htext, -⟩, -⟩
  have hmem : '\x7b' ∈ "```".toList := by
    rw [htext, String.toList_append, String.toList_append, toList_object]
    simp
  exact absurd hmem (by decide)

/-- Code with braces in it, amid prose, in two spellings, and a reply of nothing but a fence. -/
theorem replies_read_back_amid_prose :
    BraceFree "Here it is: " ∧ BraceFree " Good luck!" ∧
    parse ("Here it is: " ++ (answer "d = \x7b\x7d\n" 250).print ++ " Good luck!") =
      .ok { code := Source.clean "d = \x7b\x7d\n", confidence := some 100 } ∧
    (∃ r, parse ("Sure. " ++ ("\x7b" ++ looseMembers ++ "\x7d") ++ "") = .ok r ∧
      r.confidence = some 0 ∧ Source.clean r.code = r.code) ∧
    ¬ Usable "```" ∧ ∃ e, parse "```" = .error e := by
  obtain ⟨hprinted, hcarried, hclean, hfails⟩ := replies_read_back
  have hloose : Carries ("Sure. " ++ ("\x7b" ++ looseMembers ++ "\x7d") ++ "") looseAnswer :=
    ⟨"Sure. ", looseMembers, "", rfl, by decide, by decide, load?_looseMembers⟩
  have hread := hcarried _ "d = \x7b\x7d" looseAnswer (-3) hloose rfl rfl (by decide) (by decide)
  refine ⟨by decide, by decide, ?_, ⟨_, hread, rfl, hclean _ _ hread⟩, not_usable_fence, ?_⟩
  · exact hprinted "d = \x7b\x7d\n" "Here it is: " " Good luck!" 250 (by decide) (by decide) (by decide) (by decide)
  · exact ((hfails "```").2 not_usable_fence).mpr (by decide)

end RepairResponse

end AgentFlow
