import AgentFlow.Proofs.Json.Reading
import AgentFlow.Python.Literal

/-!
# What a literal means

`Literal.read` reads a literal in double quotes, from after its opening quote, and gives its value and the text after
it. It knows all escape sequences; before other characters a backslash stands for itself. Text as `quote` writes it is
read back (`read_escapeChar`), and text that is put into a literal as it is reads as itself exactly if it holds no quote
and no line break and no backslash in it begins an escape sequence (`read_eq_self_iff`).
-/

namespace AgentFlow.Python.Literal

open Json (hexDigit hexFour hexValue?_hexDigit)

/-! ### Escape sequences -/

/-- What a single character after a backslash stands for. -/
def simpleEscapes : List (Char × Char) :=
  [('\\', '\\'), ('\'', '\''), ('"', '"'), ('a', '\x07'), ('b', '\x08'), ('f', '\x0c'), ('n', '\n'), ('r', '\r'),
   ('t', '\t'), ('v', '\x0b')]

def isOctal (c : Char) : Bool := "01234567".toList.contains c

/-- The character with a code, unless the code is that of half a pair or too large. -/
def charOf? (n : Nat) : Option Char := if n.isValidChar then some (Char.ofNat n) else none

def hexNumber? (digits : List Char) : Option Nat :=
  digits.foldlM (fun n c => (Json.Lexer.hexValue? c).map (16 * n + ·)) 0

/-- The character whose code the text begins with, in so many hexadecimal digits. -/
def hexChar? (width : Nat) (cs : List Char) : Option Char :=
  if width ≤ cs.length then (hexNumber? (cs.take width)).bind charOf? else none

/-- The character whose name in braces the text begins with, and the length of that. -/
def namedChar? (named : List Char → Option Char) : List Char → Option (Char × Nat)
  | [] => none
  | c :: cs =>
    let name := cs.takeWhile (· != '\x7d')
    if c = '\x7b' ∧ name.length < cs.length then (named name).map fun d => (d, name.length + 2) else none

/-- What the text after a backslash stands for, and how many of its characters; `named` knows characters by name. At the
end of a line it stands for nothing. -/
def escape? (named : List Char → Option Char) : List Char → Option (List Char × Nat)
  | [] => none
  | c :: cs =>
    match simpleEscapes.lookup c with
    | some d => some ([d], 1)
    | none =>
      if c = '\n' then some ([], 1)
      else if c = '\r' then some ([], if cs.head? = some '\n' then 2 else 1)
      else if c = '\x00' then none
      else if isOctal c then
        let digits := ((c :: cs).take 3).takeWhile isOctal
        some ([Char.ofNat (Nat.ofDigitChars 8 digits 0)], digits.length)
      else if c = 'x' then (hexChar? 2 cs).map fun d => ([d], 3)
      else if c = 'u' then (hexChar? 4 cs).map fun d => ([d], 5)
      else if c = 'U' then (hexChar? 8 cs).map fun d => ([d], 9)
      else if c = 'N' then (namedChar? named cs).map fun r => ([r.1], r.2 + 1)
      else some (['\\', c], 1)

/-- The characters with which the other escape sequences begin; the null character has no place in code at all. -/
def otherLeads : List Char := "\n\r\x0001234567xuUN".toList

/-- The characters before which a backslash does not stand for itself. -/
def escapeLeads : List Char := simpleEscapes.map Prod.fst ++ otherLeads

variable {named : List Char → Option Char}

/-- Before any other character a backslash stands for itself. -/
theorem escape?_of_not_lead {c : Char} (h : c ∉ escapeLeads) (cs : List Char) :
    escape? named (c :: cs) = some (['\\', c], 1) := by
  obtain ⟨hsimple, hrest⟩ : c ∉ simpleEscapes.map Prod.fst ∧ c ∉ otherLeads := by
    simpa only [escapeLeads, List.mem_append, not_or] using h
  have hlookup : simpleEscapes.lookup c = none := by
    rw [List.lookup_eq_none_iff]
    intro p hp
    rw [bne_iff_ne]
    rintro rfl
    exact hsimple (List.mem_map_of_mem hp)
  have hoctal : isOctal c = false := by
    rw [← Bool.not_eq_true, isOctal, List.contains_iff_mem]
    have hsub : "01234567".toList ⊆ otherLeads := by decide
    exact fun hc => hrest (hsub hc)
  have hne : ∀ d ∈ otherLeads, c ≠ d := fun d hd heq => hrest (heq ▸ hd)
  rw [escape?, hlookup]
  simp only [hoctal, Bool.false_eq_true, if_false, if_neg (hne '\n' (by decide)), if_neg (hne '\r' (by decide)),
    if_neg (hne '\x00' (by decide)), if_neg (hne 'x' (by decide)), if_neg (hne 'u' (by decide)),
    if_neg (hne 'U' (by decide)), if_neg (hne 'N' (by decide))]

/-- An escape sequence stands for less than is written of it. -/
theorem length_of_lead {c : Char} (h : c ∈ escapeLeads) {cs m : List Char} {n : Nat}
    (he : escape? named (c :: cs) = some (m, n)) : m.length ≤ n ∧ 0 < n := by
  rw [escape?] at he
  split at he
  next d _ =>
    obtain ⟨rfl, rfl⟩ := Prod.mk.inj (Option.some.inj he)
    exact ⟨Nat.le_refl 1, Nat.one_pos⟩
  next hlookup =>
    have hone : ∀ {o : Option Char} {k : Nat}, (o.map fun d => ([d], k + 1)) = some (m, n) → m.length ≤ n ∧ 0 < n := by
      intro o k ho
      obtain ⟨d, -, hd⟩ := Option.map_eq_some_iff.mp ho
      obtain ⟨rfl, rfl⟩ := Prod.mk.inj hd
      exact ⟨by simp, Nat.succ_pos k⟩
    split_ifs at he with hnl hcr hcrlf hzero hoctal hx hu hU hN
    · obtain ⟨rfl, rfl⟩ := Prod.mk.inj (Option.some.inj he)
      exact ⟨Nat.zero_le 1, Nat.one_pos⟩
    · obtain ⟨rfl, rfl⟩ := Prod.mk.inj (Option.some.inj he)
      exact ⟨Nat.zero_le 2, Nat.two_pos⟩
    · obtain ⟨rfl, rfl⟩ := Prod.mk.inj (Option.some.inj he)
      exact ⟨Nat.zero_le 1, Nat.one_pos⟩
    · obtain ⟨rfl, rfl⟩ := Prod.mk.inj (Option.some.inj he)
      rw [List.take_succ_cons, List.takeWhile_cons_of_pos hoctal]
      exact ⟨by simp, Nat.succ_pos _⟩
    · exact hone he
    · exact hone he
    · exact hone he
    · obtain ⟨r, -, hr⟩ := Option.map_eq_some_iff.mp he
      obtain ⟨rfl, rfl⟩ := Prod.mk.inj hr
      exact ⟨by simp, Nat.succ_pos _⟩
    · have hleads : (otherLeads.all fun d => d == '\n' || d == '\r' || d == '\x00' || isOctal d || d == 'x' ||
          d == 'u' || d == 'U' || d == 'N') = true := by decide
      rcases List.mem_append.mp h with h | h
      · obtain ⟨p, hp, rfl⟩ := List.mem_map.mp h
        exact absurd (List.lookup_eq_none_iff.mp hlookup p hp) (by simp)
      · have hc := List.all_eq_true.mp hleads c h
        simp [hnl, hcr, hzero, hoctal, hx, hu, hU, hN] at hc

/-- What `quote` writes for a control character. -/
theorem hexChar?_hexFour {c : Char} (hc : c.toNat < 65536) (cs : List Char) :
    hexChar? 4 (hexFour c.toNat ++ cs) = some c := by
  have hvalue : 16 * (16 * (16 * (16 * 0 + c.toNat / 4096 % 16) + c.toNat / 256 % 16) + c.toNat / 16 % 16)
      + c.toNat % 16 = c.toNat := by omega
  have hdigits : hexNumber? (hexFour c.toNat) = some c.toNat := by
    have hdigit : ∀ n, Json.Lexer.hexValue? (hexDigit (n % 16)) = some (n % 16) := fun n =>
      hexValue?_hexDigit (Nat.mod_lt n (by decide))
    simp only [hexNumber?, hexFour, List.foldlM_cons, List.foldlM_nil, hdigit, Option.map_some]
    exact congrArg some hvalue
  have hvalid : c.toNat.isValidChar := c.valid
  have htake : (hexFour c.toNat ++ cs).take 4 = hexFour c.toNat := rfl
  have hwidth : 4 ≤ (hexFour c.toNat ++ cs).length := by
    rw [List.length_append]
    exact Nat.le_add_right 4 _
  rw [hexChar?, if_pos hwidth, htake, hdigits, Option.bind_some, charOf?, if_pos hvalid, Char.ofNat_toNat]

/-! ### Literals -/

/-- The characters that end a literal or cannot stand in one on a single line. -/
def breaks : List Char := ['"', '\n', '\r', '\x00']

/-- Reads a literal after its opening quote; `skip` characters belong to an escape sequence that was read already. -/
def read (named : List Char → Option Char) : Nat → List Char → Option (List Char × List Char)
  | _, [] => none
  | skip + 1, _ :: cs => read named skip cs
  | 0, c :: cs =>
    if c = '"' then some ([], cs)
    else if c ∈ breaks then none
    else if c = '\\' then
      match escape? named cs with
      | none => none
      | some (m, n) => (read named n cs).map fun r => (m ++ r.1, r.2)
    else (read named 0 cs).map fun r => (c :: r.1, r.2)

theorem read_drop (skip : Nat) (cs : List Char) : read named skip cs = read named 0 (cs.drop skip) := by
  induction skip generalizing cs with
  | zero => rfl
  | succ skip ih =>
    cases cs with
    | nil => rfl
    | cons c cs => exact ih cs

theorem read_quote (cs : List Char) : read named 0 ('"' :: cs) = some ([], cs) := by rw [read, if_pos rfl]

theorem read_cons {c : Char} (hbreak : c ∉ breaks) (hback : c ≠ '\\') (cs : List Char) :
    read named 0 (c :: cs) = (read named 0 cs).map fun r => (c :: r.1, r.2) := by
  have hquote : c ≠ '"' := fun h => hbreak (h ▸ List.mem_cons_self)
  rw [read, if_neg hquote, if_neg hbreak, if_neg hback]

theorem read_backslash {cs m : List Char} {n : Nat} (h : escape? named cs = some (m, n)) :
    read named 0 ('\\' :: cs) = (read named 0 (cs.drop n)).map fun r => (m ++ r.1, r.2) := by
  rw [← read_drop, read, if_neg (by decide), if_neg (by decide), if_pos rfl, h]

/-- What `quote` writes for a character: the character itself, or an escape sequence for it. -/
theorem escapeChar_cases (c : Char) :
    (escapeChar c = [c] ∧ c ∉ breaks ∧ c ≠ '\\') ∨
    ∃ e es, escapeChar c = '\\' :: e :: es ∧ (es = [] ∨ es = hexFour c.toNat) ∧
      ∀ named cs, escape? named (e :: (es ++ cs)) = some ([c], es.length + 1) := by
  unfold escapeChar
  split_ifs with hback hquote hnl hcr htab hcontrol
  · subst hback
    exact .inr ⟨_, _, rfl, .inl rfl, fun _ _ => rfl⟩
  · subst hquote
    exact .inr ⟨_, _, rfl, .inl rfl, fun _ _ => rfl⟩
  · subst hnl
    exact .inr ⟨_, _, rfl, .inl rfl, fun _ _ => rfl⟩
  · subst hcr
    exact .inr ⟨_, _, rfl, .inl rfl, fun _ _ => rfl⟩
  · subst htab
    exact .inr ⟨_, _, rfl, .inl rfl, fun _ _ => rfl⟩
  · refine .inr ⟨'u', hexFour c.toNat, rfl, .inr rfl, fun named cs => ?_⟩
    -- control characters have small codes
    have hcode : c.toNat < 65536 := by
      simp only [Text.isControl, Bool.or_eq_true, Bool.and_eq_true, decide_eq_true_eq] at hcontrol
      omega
    have hu : ∀ t, escape? named ('u' :: t) = (hexChar? 4 t).map fun d => ([d], 5) := fun _ => rfl
    rw [hu, hexChar?_hexFour hcode]
    rfl
  · have hzero : c ≠ '\x00' := by
      rintro rfl
      exact hcontrol (by decide)
    exact .inl ⟨rfl, by simp [breaks, hquote, hnl, hcr, hzero], hback⟩

/-- What is written for a character is read as it, whatever follows. -/
theorem read_escapeChar (c : Char) (cs : List Char) :
    read named 0 (escapeChar c ++ cs) = (read named 0 cs).map fun r => (c :: r.1, r.2) := by
  rcases escapeChar_cases c with ⟨hself, hbreak, hback⟩ | ⟨e, es, hwritten, -, hescape⟩
  · rw [hself]
    exact read_cons hbreak hback cs
  · have hrest : (e :: (es ++ cs)).drop (es.length + 1) = cs := List.drop_left
    rw [hwritten]
    show read named 0 ('\\' :: e :: (es ++ cs)) = _
    rw [read_backslash (hescape named cs), hrest]
    rfl

/-! ### Text that stands in a literal as it is -/

/-- Nothing in the text ends a literal or breaks its line, and each backslash in it is followed in it by a character
that begins no escape sequence. -/
def isVerbatim : List Char → Bool
  | [] => true
  | c :: cs =>
    (if c = '\\' then cs.head?.any fun d => !escapeLeads.contains d else !breaks.contains c) && isVerbatim cs

theorem isVerbatim_cons {c : Char} (hc : c ≠ '\\') (cs : List Char) :
    isVerbatim (c :: cs) = (!breaks.contains c && isVerbatim cs) := by rw [isVerbatim, if_neg hc]

theorem not_mem_breaks_of_not_lead {d : Char} (hd : d ∉ escapeLeads) : d ∉ breaks := by
  have hsub : breaks ⊆ escapeLeads := by decide
  exact fun h => hd (hsub h)

theorem isVerbatim_backslash (d : Char) (cs : List Char) :
    isVerbatim ('\\' :: d :: cs) = (!escapeLeads.contains d && isVerbatim cs) := by
  by_cases hd : d ∈ escapeLeads
  · simp [isVerbatim, hd]
  · have hback : d ≠ '\\' := by
      rintro rfl
      exact hd (by decide)
    rw [isVerbatim, isVerbatim_cons hback]
    simp [hd, not_mem_breaks_of_not_lead hd]

/-- Verbatim text reads as itself, whatever follows. -/
theorem read_verbatim {text : List Char} (h : isVerbatim text = true) (cs : List Char) :
    read named 0 (text ++ cs) = (read named 0 cs).map fun r => (text ++ r.1, r.2) := by
  -- a backslash and the character after it are read at once
  induction hlen : text.length using Nat.strongRecOn generalizing text with
  | _ n ih =>
    rcases text with _ | ⟨c, text⟩
    · simp
    by_cases hc : c = '\\'
    · subst hc
      rcases text with _ | ⟨d, text⟩
      · cases h
      · rw [isVerbatim_backslash, Bool.and_eq_true] at h
        have hd : d ∉ escapeLeads := by simpa using h.1
        have hrest := ih text.length (by rw [← hlen, List.length_cons, List.length_cons]; omega) h.2 rfl
        show read named 0 ('\\' :: d :: (text ++ cs)) = _
        rw [read_backslash (escape?_of_not_lead hd _)]
        show (read named 0 (text ++ cs)).map _ = _
        rw [hrest, Option.map_map]
        rfl
    · rw [isVerbatim_cons hc, Bool.and_eq_true] at h
      have hrest := ih text.length (by rw [← hlen]; exact Nat.lt_succ_self _) h.2 rfl
      rw [List.cons_append, read_cons (by simpa using h.1) hc, hrest, Option.map_map]
      rfl

/-- What a reading begins with. -/
theorem read_cases {c : Char} {cs v rest : List Char} (h : read named 0 (c :: cs) = some (v, rest)) :
    (c = '"' ∧ v = [] ∧ rest = cs) ∨
    (c ∉ breaks ∧ c ≠ '\\' ∧ ∃ w, v = c :: w ∧ read named 0 cs = some (w, rest)) ∨
    (c = '\\' ∧ ∃ d t w, cs = d :: t ∧ d ∉ escapeLeads ∧ v = '\\' :: d :: w ∧ read named 0 t = some (w, rest)) ∨
    (c = '\\' ∧ ∃ m n w, m.length ≤ n ∧ 0 < n ∧ v = m ++ w ∧ read named 0 (cs.drop n) = some (w, rest)) := by
  by_cases hquote : c = '"'
  · rw [read, if_pos hquote] at h
    obtain ⟨rfl, rfl⟩ := Prod.mk.inj (Option.some.inj h)
    exact .inl ⟨hquote, rfl, rfl⟩
  by_cases hbreak : c ∈ breaks
  · rw [read, if_neg hquote, if_pos hbreak] at h
    cases h
  by_cases hback : c = '\\'
  · subst hback
    cases hescape : escape? named cs with
    | none =>
      rw [read, if_neg hquote, if_neg hbreak, if_pos rfl, hescape] at h
      cases h
    | some r =>
      obtain ⟨m, n⟩ := r
      rw [read_backslash hescape] at h
      obtain ⟨⟨w, r⟩, hr, hv⟩ := Option.map_eq_some_iff.mp h
      obtain ⟨rfl, rfl⟩ : m ++ w = v ∧ r = rest := Prod.mk.inj hv
      rcases cs with _ | ⟨d, t⟩
      · cases hescape
      -- the sequence is an escape, or a backslash and a character that stand for themselves
      by_cases hd : d ∈ escapeLeads
      · obtain ⟨hle, hpos⟩ := length_of_lead hd hescape
        exact .inr (.inr (.inr ⟨rfl, m, n, w, hle, hpos, rfl, hr⟩))
      · rw [escape?_of_not_lead hd] at hescape
        obtain ⟨rfl, rfl⟩ := Prod.mk.inj (Option.some.inj hescape)
        exact .inr (.inr (.inl ⟨rfl, d, t, w, rfl, hd, rfl, hr⟩))
  · rw [read_cons hbreak hback] at h
    obtain ⟨⟨w, r⟩, hr, hv⟩ := Option.map_eq_some_iff.mp h
    obtain ⟨rfl, rfl⟩ : c :: w = v ∧ r = rest := Prod.mk.inj hv
    exact .inr (.inl ⟨hbreak, hback, w, rfl, hr⟩)

/-- A literal stands for no more than is written of it. -/
theorem length_read {cs v rest : List Char} (h : read named 0 cs = some (v, rest)) :
    v.length + rest.length < cs.length := by
  induction hlen : cs.length using Nat.strongRecOn generalizing cs v with
  | _ n ih =>
    subst hlen
    rcases cs with _ | ⟨c, cs⟩
    · cases h
    rw [List.length_cons] at ih ⊢
    rcases read_cases h with ⟨-, rfl, rfl⟩ | ⟨-, -, w, rfl, hr⟩ | ⟨-, d, t, w, rfl, -, rfl, hr⟩ |
      ⟨-, m, n, w, hle, hpos, rfl, hr⟩
    · simp
    · have hlt := ih cs.length (by omega) hr rfl
      rw [List.length_cons]
      omega
    · have hlt := ih t.length (by rw [List.length_cons]; omega) hr rfl
      simp only [List.length_cons]
      omega
    · have hlt := ih (cs.drop n).length (by rw [List.length_drop]; omega) hr rfl
      rw [List.length_drop] at hlt
      rw [List.length_append]
      omega

/-- Text that reads as itself is verbatim. -/
theorem isVerbatim_of_read {text rest : List Char} (h : read named 0 (text ++ '"' :: rest) = some (text, rest)) :
    isVerbatim text = true := by
  induction hlen : text.length using Nat.strongRecOn generalizing text with
  | _ n ih =>
    subst hlen
    rcases text with _ | ⟨c, text⟩
    · rfl
    rw [List.length_cons] at ih
    rcases read_cases h with ⟨-, hnil, -⟩ | ⟨hbreak, hback, w, hw, hr⟩ | ⟨rfl, d, t, w, ht, hd, hw, hr⟩ |
      ⟨-, m, n, w, hle, hpos, hw, hr⟩
    · cases hnil
    · obtain rfl : text = w := (List.cons.inj hw).2
      rw [isVerbatim_cons hback, ih text.length (by omega) hr rfl]
      simp [hbreak]
    · obtain rfl : text = d :: w := (List.cons.inj hw).2
      obtain rfl : w ++ '"' :: rest = t := (List.cons.inj ht).2
      rw [isVerbatim_backslash, ih w.length (by rw [List.length_cons]; omega) hr rfl]
      simp [hd]
    -- an escape sequence makes the value shorter than the text
    · have hlt : w.length + rest.length < ((text ++ '"' :: rest).drop n).length := length_read hr
      have hsum := congrArg List.length hw
      simp only [List.length_cons, List.length_append, List.length_drop] at hlt hsum
      omega

/-- Text that is put into a literal as it is reads as itself exactly if it is verbatim. -/
theorem read_eq_self_iff {text rest : List Char} :
    read named 0 (text ++ '"' :: rest) = some (text, rest) ↔ isVerbatim text = true := by
  refine ⟨isVerbatim_of_read, fun h => ?_⟩
  rw [read_verbatim h, read_quote, Option.map_some, List.append_nil]

end AgentFlow.Python.Literal
