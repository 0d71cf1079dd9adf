import Mathlib.Data.List.Forall2
import Mathlib.Tactic.SplitIfs
import AgentFlow.Json.Parser
import AgentFlow.Json.Printer

/-!
# Reading what was written

A value that is written as text is read back as it was. The lexer takes the text apart into the tokens of the value
(`Json.tokens`) and comes to rest between two tokens, whatever follows; the parser, started where a value must stand,
puts the tokens together to the value, whatever is open around it.
-/

namespace AgentFlow.Json

/-! ### Characters of string literals -/

/-- The piece stands for the character: it is the character, or the unit of one below the blank. -/
def Piece.Is (c : Char) (p : Piece) : Prop := p = .char c ∨ p = .unit c.toNat ∧ c.toNat < 0x20

/-- A unit below the blank is no half of a pair. -/
theorem Piece.chars?_unit {n : Nat} (h : n < 0x20) (ps : List Piece) :
    Piece.chars? (.unit n :: ps) = (Piece.chars? ps).map (Char.ofNat n :: ·) := by
  have hhigh : isHighUnit n = false := by simp only [isHighUnit]; simp; omega
  have hlow : isLowUnit n = false := by simp only [isLowUnit]; simp; omega
  cases ps with
  | nil => simp [Piece.chars?, hhigh, hlow]
  | cons p ps =>
    cases p with
    | char c => simp [Piece.chars?, hhigh, hlow]
    | unit m => simp [Piece.chars?, hhigh, hlow]

/-- Pieces that stand for characters are put together to them. -/
theorem Piece.chars?_of_forall₂ {cs : List Char} {ps : List Piece} (h : List.Forall₂ Piece.Is cs ps) :
    Piece.chars? ps = some cs := by
  induction h with
  | nil => rfl
  | cons hp _ ih =>
    rcases hp with rfl | ⟨rfl, hlow⟩
    · rw [Piece.chars?, ih, Option.map_some]
    · rw [Piece.chars?_unit hlow, ih, Option.map_some, Char.ofNat_toNat]

theorem hexValue?_hexDigit {d : Nat} (h : d < 16) : Lexer.hexValue? (hexDigit d) = some d := by
  have hall : (List.range 16).all (fun d => Lexer.hexValue? (hexDigit d) == some d) = true := by decide
  simpa using List.all_eq_true.mp hall d (List.mem_range.mpr h)

namespace Lexer

/-- The tokens of a text that is read from a state on. -/
def readFrom (s : State) (cs : List Char) : Option (List Token) := (run s cs).bind finish

/-- The lexer takes one character at a time. -/
theorem readFrom_cons {s : State} {c : Char} (s' : State) (h : step s c = some s') (cs : List Char) :
    readFrom s (c :: cs) = readFrom s' cs := by
  simp only [readFrom, run, h]

theorem step_hex {ps : List Piece} {done : List Token} {left unit d : Nat} (hd : d < 16) (hleft : 1 < left) :
    step ⟨.hex ps left unit, done⟩ (hexDigit d) = some ⟨.hex ps (left - 1) (16 * unit + d), done⟩ := by
  simp only [step, hexValue?_hexDigit hd, Option.map_some]
  rw [if_neg (by omega)]

theorem step_hex_last {ps : List Piece} {done : List Token} {unit d : Nat} (hd : d < 16) :
    step ⟨.hex ps 1 unit, done⟩ (hexDigit d) = some ⟨.string (.unit (16 * unit + d) :: ps), done⟩ := by
  simp only [step, hexValue?_hexDigit hd, Option.map_some]
  rw [if_pos (Nat.le_refl 1)]

/-- A character below the blank, written as a unit. -/
theorem readFrom_unit {n : Nat} (h : n < 0x20) (ps : List Piece) (done : List Token) (rest : List Char) :
    readFrom ⟨.string ps, done⟩ ('\\' :: 'u' :: hexFour n ++ rest) = readFrom ⟨.string (.unit n :: ps), done⟩ rest := by
  have hvalue : 16 * (16 * (16 * (16 * 0 + n / 4096 % 16) + n / 256 % 16) + n / 16 % 16) + n % 16 = n := by omega
  rw [hexFour, List.cons_append, List.cons_append, readFrom_cons ⟨.escape ps, done⟩ rfl,
    readFrom_cons ⟨.hex ps 4 0, done⟩ rfl]
  simp only [List.cons_append, List.nil_append]
  rw [readFrom_cons _ (step_hex (by omega) (by omega)), readFrom_cons _ (step_hex (by omega) (by omega)),
    readFrom_cons _ (step_hex (by omega) (by omega)), readFrom_cons _ (step_hex_last (by omega)), hvalue]

/-- A character of a literal, however it is written. -/
theorem readFrom_escapeChar (c : Char) : ∃ p, Piece.Is c p ∧ ∀ ps done rest,
    readFrom ⟨.string ps, done⟩ (escapeChar c ++ rest) = readFrom ⟨.string (p :: ps), done⟩ rest := by
  have hshort : ∀ e d : Char, e ≠ 'u' → escaped? e = some d → ∀ ps done rest,
      readFrom ⟨.string ps, done⟩ ('\\' :: e :: rest) = readFrom ⟨.string (.char d :: ps), done⟩ rest := by
    intro e d he hd ps done rest
    rw [readFrom_cons ⟨.escape ps, done⟩ rfl]
    exact readFrom_cons _ (by simp [step, he, hd]) rest
  unfold escapeChar
  -- seven short escapes, a unit for other control characters, or the character itself
  split_ifs with hquote hslash hnewline hreturn htab hback hfeed hcontrol
  · exact ⟨_, .inl rfl, hshort '"' c (by decide) (by rw [hquote]; rfl)⟩
  · exact ⟨_, .inl rfl, hshort '\\' c (by decide) (by rw [hslash]; rfl)⟩
  · exact ⟨_, .inl rfl, hshort 'n' c (by decide) (by rw [hnewline]; rfl)⟩
  · exact ⟨_, .inl rfl, hshort 'r' c (by decide) (by rw [hreturn]; rfl)⟩
  · exact ⟨_, .inl rfl, hshort 't' c (by decide) (by rw [htab]; rfl)⟩
  · exact ⟨_, .inl rfl, hshort 'b' c (by decide) (by rw [hback]; rfl)⟩
  · exact ⟨_, .inl rfl, hshort 'f' c (by decide) (by rw [hfeed]; rfl)⟩
  · exact ⟨_, .inr ⟨rfl, hcontrol⟩, readFrom_unit hcontrol⟩
  · refine ⟨_, .inl rfl, fun ps done rest => readFrom_cons _ ?_ rest⟩
    simp [step, hquote, hslash, hcontrol]

/-- The characters of a literal, one after the other. -/
theorem readFrom_escaped (cs : List Char) : ∃ qs, List.Forall₂ Piece.Is cs qs ∧ ∀ ps done rest,
    readFrom ⟨.string ps, done⟩ (cs.flatMap escapeChar ++ rest) = readFrom ⟨.string (qs.reverse ++ ps), done⟩ rest := by
  induction cs with
  | nil => exact ⟨[], .nil, fun ps done rest => rfl⟩
  | cons c cs ih =>
    obtain ⟨p, hp, hc⟩ := readFrom_escapeChar c
    obtain ⟨qs, hqs, hcs⟩ := ih
    refine ⟨p :: qs, .cons hp hqs, fun ps done rest => ?_⟩
    rw [List.flatMap_cons, List.append_assoc, hc, hcs, List.reverse_cons, List.append_assoc, List.singleton_append]

/-- A quoted text is one token. -/
theorem readFrom_quoted (s : String) (done : List Token) (rest : List Char) :
    readFrom ⟨.idle, done⟩ ((quoted s).toList ++ rest) = readFrom ⟨.idle, .str (some s) :: done⟩ rest := by
  obtain ⟨qs, hqs, hcs⟩ := readFrom_escaped s.toList
  have hlist : (quoted s).toList ++ rest = '"' :: (s.toList.flatMap escapeChar ++ '"' :: rest) := by
    simp [quoted, String.toList_append]
  have htext : Piece.text? (qs.reverse ++ []).reverse = some s := by
    rw [List.append_nil, List.reverse_reverse, Piece.text?, Piece.chars?_of_forall₂ hqs, Option.map_some,
      String.ofList_toList]
  rw [hlist, readFrom_cons ⟨.string [], done⟩ rfl, hcs]
  exact readFrom_cons _ (by rw [← htext]; rfl) rest

/-! ### Words and numbers -/

/-- What may stand after a value: nothing, or a character that belongs neither to a number nor to a word. -/
def Follows (rest : List Char) : Prop := ∀ c ∈ rest.head?, isNumberChar c = false ∧ c.isLower = false

theorem follows_cons {c : Char} (rest : List Char) (hnumber : isNumberChar c = false) (hlower : c.isLower = false) :
    Follows (c :: rest) := by
  intro d hd
  obtain rfl : c = d := by simpa using hd
  exact ⟨hnumber, hlower⟩

/-- A word ends where it is followed. -/
theorem readFrom_word {cs rest : List Char} {t : Token} {done : List Token} (ht : word? cs.reverse = some t)
    (hrest : Follows rest) : readFrom ⟨.word cs, done⟩ rest = readFrom ⟨.idle, t :: done⟩ rest := by
  cases rest with
  | nil => simp [readFrom, run, finish, ht]
  | cons c rest =>
    -- a character that cannot go on with the word ends it and is then read again
    have hlower : c.isLower = false := (hrest c rfl).2
    have hstep : step ⟨.word cs, done⟩ c = step ⟨.idle, t :: done⟩ c := by simp [step, hlower, ht]
    simp only [readFrom, run, hstep]

/-- So does a number. -/
theorem readFrom_number {cs rest : List Char} {n : Number} {done : List Token}
    (hn : Number.ofChars? cs.reverse = some n) (hrest : Follows rest) :
    readFrom ⟨.number cs, done⟩ rest = readFrom ⟨.idle, .num n :: done⟩ rest := by
  cases rest with
  | nil => simp [readFrom, run, finish, hn]
  | cons c rest =>
    have hnumber : isNumberChar c = false := (hrest c rfl).1
    have hstep : step ⟨.number cs, done⟩ c = step ⟨.idle, .num n :: done⟩ c := by simp [step, hnumber, hn]
    simp only [readFrom, run, hstep]

theorem readFrom_numberChars {ds : List Char} (hds : ∀ c ∈ ds, isNumberChar c = true) (cs : List Char)
    (done : List Token) (rest : List Char) :
    readFrom ⟨.number cs, done⟩ (ds ++ rest) = readFrom ⟨.number (ds.reverse ++ cs), done⟩ rest := by
  induction ds generalizing cs with
  | nil => rfl
  | cons d ds ih =>
    obtain ⟨hd, hds⟩ := List.forall_mem_cons.mp hds
    rw [List.cons_append, readFrom_cons ⟨.number (d :: cs), done⟩ (by simp [step, hd]), ih hds, List.reverse_cons,
      List.append_assoc, List.singleton_append]

end Lexer

/-- The literal of the number is one token, and it spells the number. -/
structure Number.Spelled (n : Number) : Prop where
  starts : ∀ c ∈ n.toChars.head?, (c = '-' || c.isDigit) = true
  chars : ∀ c ∈ n.toChars, Lexer.isNumberChar c = true
  reads : Number.ofChars? n.toChars = some n

/-- A number that is spelled is one token. -/
theorem Lexer.readFrom_literal {n : Number} (h : n.Spelled) {rest : List Char} (hrest : Follows rest)
    (done : List Token) : readFrom ⟨.idle, done⟩ (n.toChars ++ rest) = readFrom ⟨.idle, .num n :: done⟩ rest := by
  obtain ⟨hstarts, hchars, hreads⟩ := h
  cases hcs : n.toChars with
  | nil => simp [hcs, Number.ofChars?, Number.digits?] at hreads
  | cons c cs =>
    rw [hcs] at hstarts hchars hreads
    have hstart : step ⟨.idle, done⟩ c = some ⟨.number [c], done⟩ := by
      have hc : (c = '-' || c.isDigit) = true := hstarts c rfl
      -- neither a blank nor a quote looks like the start of a number
      have hspace : isSpace c = false := by
        cases hs : isSpace c with
        | false => rfl
        | true =>
          simp only [isSpace, Bool.or_eq_true, decide_eq_true_eq] at hs
          rcases hs with ((rfl | rfl) | rfl) | rfl <;> exact absurd hc (by decide)
      have hquote : c ≠ '"' := by
        rintro rfl
        exact absurd hc (by decide)
      simp only [step, start, hspace, Bool.false_eq_true, if_false, if_neg hquote, if_pos hc]
    rw [List.cons_append, readFrom_cons _ hstart, readFrom_numberChars (List.forall_mem_cons.mp hchars).2]
    exact readFrom_number (by simpa using hreads) hrest

/-! ### Values -/

mutual

/-- The tokens of a value. -/
def tokens : Json → List Token
  | .null => [.null]
  | .bool b => [.bool b]
  | .num n => [.num n]
  | .str s => [.str (some s)]
  | .arr items => .arrOpen :: itemTokens items ++ [.arrClose]
  | .obj members => .objOpen :: memberTokens members ++ [.objClose]
  | .unreadable => [.str none]

def itemTokens : List Json → List Token
  | [] => []
  | [v] => tokens v
  | v :: vs => tokens v ++ .comma :: itemTokens vs

def memberTokens : List (String × Json) → List Token
  | [] => []
  | [(name, v)] => .str (some name) :: .colon :: tokens v
  | (name, v) :: ms => .str (some name) :: .colon :: tokens v ++ .comma :: memberTokens ms

end

theorem itemTokens_cons_cons (v w : Json) (vs : List Json) :
    itemTokens (v :: w :: vs) = v.tokens ++ .comma :: itemTokens (w :: vs) := by
  simp [itemTokens]

theorem memberTokens_cons_cons (name : String) (v : Json) (m : String × Json) (ms : List (String × Json)) :
    memberTokens ((name, v) :: m :: ms) =
      .str (some name) :: .colon :: (v.tokens ++ .comma :: memberTokens (m :: ms)) := by
  simp [memberTokens]

mutual

/-- The numbers in a value. -/
def numbers : Json → List Number
  | .num n => [n]
  | .arr items => itemNumbers items
  | .obj members => memberNumbers members
  | .null => []
  | .bool _ => []
  | .str _ => []
  | .unreadable => []

def itemNumbers : List Json → List Number
  | [] => []
  | v :: vs => numbers v ++ itemNumbers vs

def memberNumbers : List (String × Json) → List Number
  | [] => []
  | (_, v) :: ms => numbers v ++ memberNumbers ms

end

/-- Every number in the value has a literal that spells it. -/
def Spelled (v : Json) : Prop := ∀ n ∈ v.numbers, n.Spelled

open Lexer

mutual

/-- A printed value is read as its tokens. -/
theorem readFrom_print : ∀ (v : Json), v.Spelled → ∀ (done : List Token) {rest : List Char}, Follows rest →
    readFrom ⟨.idle, done⟩ ((print v).toList ++ rest) = readFrom ⟨.idle, v.tokens.reverse ++ done⟩ rest
  | .null, _, done, rest, hrest => by
    show readFrom ⟨.word "null".toList.reverse, done⟩ rest = _
    exact readFrom_word (by decide) hrest
  | .bool true, _, done, rest, hrest => by
    show readFrom ⟨.word "true".toList.reverse, done⟩ rest = _
    exact readFrom_word (by decide) hrest
  | .bool false, _, done, rest, hrest => by
    show readFrom ⟨.word "false".toList.reverse, done⟩ rest = _
    exact readFrom_word (by decide) hrest
  | .num n, h, done, rest, hrest => by
    rw [print, String.toList_ofList]
    exact readFrom_literal (h n (List.mem_singleton_self n)) hrest done
  | .str s, _, done, rest, _ => by
    rw [print]
    exact readFrom_quoted s done rest
  | .arr items, h, done, rest, _ => by
    -- the closing bracket may follow the last item
    have hlist : (print (.arr items)).toList ++ rest = '[' :: ((printItems items).toList ++ ']' :: rest) := by
      simp [print, String.toList_append]
    rw [hlist, readFrom_cons ⟨.idle, .arrOpen :: done⟩ rfl,
      readFrom_printItems items h _ (follows_cons rest (by decide) (by decide)),
      readFrom_cons ⟨.idle, .arrClose :: ((itemTokens items).reverse ++ .arrOpen :: done)⟩ rfl]
    simp [tokens]
  | .obj members, h, done, rest, _ => by
    have hlist : (print (.obj members)).toList ++ rest =
        '\x7b' :: ((printMembers members).toList ++ '\x7d' :: rest) := by
      simp [print, String.toList_append]
    rw [hlist, readFrom_cons ⟨.idle, .objOpen :: done⟩ rfl,
      readFrom_printMembers members h _ (follows_cons rest (by decide) (by decide)),
      readFrom_cons ⟨.idle, .objClose :: ((memberTokens members).reverse ++ .objOpen :: done)⟩ rfl]
    simp [tokens]
  | .unreadable, _, done, rest, _ => rfl

theorem readFrom_printItems : ∀ (items : List Json), (∀ n ∈ itemNumbers items, n.Spelled) → ∀ (done : List Token)
    {rest : List Char}, Follows rest →
    readFrom ⟨.idle, done⟩ ((printItems items).toList ++ rest) =
      readFrom ⟨.idle, (itemTokens items).reverse ++ done⟩ rest
  | [], _, done, rest, _ => by simp [printItems, itemTokens]
  | [v], h, done, rest, hrest => by
    obtain ⟨hv, -⟩ := List.forall_mem_append.mp h
    rw [printItems, itemTokens]
    exact readFrom_print v hv done hrest
  | v :: w :: vs, h, done, rest, hrest => by
    obtain ⟨hv, hvs⟩ := List.forall_mem_append.mp h
    have hlist : (printItems (v :: w :: vs)).toList ++ rest =
        (print v).toList ++ ',' :: ((printItems (w :: vs)).toList ++ rest) := by
      simp [printItems, String.toList_append]
    rw [hlist, readFrom_print v hv _ (follows_cons _ (by decide) (by decide)),
      readFrom_cons ⟨.idle, .comma :: (v.tokens.reverse ++ done)⟩ rfl, readFrom_printItems (w :: vs) hvs _ hrest]
    simp [itemTokens]

theorem readFrom_printMembers : ∀ (members : List (String × Json)), (∀ n ∈ memberNumbers members, n.Spelled) →
    ∀ (done : List Token) {rest : List Char}, Follows rest →
    readFrom ⟨.idle, done⟩ ((printMembers members).toList ++ rest) =
      readFrom ⟨.idle, (memberTokens members).reverse ++ done⟩ rest
  | [], _, done, rest, _ => by simp [printMembers, memberTokens]
  | [(name, v)], h, done, rest, hrest => by
    obtain ⟨hv, -⟩ := List.forall_mem_append.mp h
    have hlist : (printMembers [(name, v)]).toList ++ rest =
        (quoted name).toList ++ ':' :: ((print v).toList ++ rest) := by
      simp [printMembers, String.toList_append]
    rw [hlist, readFrom_quoted, readFrom_cons ⟨.idle, .colon :: .str (some name) :: done⟩ rfl,
      readFrom_print v hv _ hrest]
    simp [memberTokens]
  | (name, v) :: m :: ms, h, done, rest, hrest => by
    obtain ⟨hv, hms⟩ := List.forall_mem_append.mp h
    have hlist : (printMembers ((name, v) :: m :: ms)).toList ++ rest =
        (quoted name).toList ++ ':' :: ((print v).toList ++ ',' :: ((printMembers (m :: ms)).toList ++ rest)) := by
      simp [printMembers, String.toList_append]
    rw [hlist, readFrom_quoted, readFrom_cons ⟨.idle, .colon :: .str (some name) :: done⟩ rfl,
      readFrom_print v hv _ (follows_cons _ (by decide) (by decide)),
      readFrom_cons ⟨.idle, .comma :: (v.tokens.reverse ++ .colon :: .str (some name) :: done)⟩ rfl,
      readFrom_printMembers (m :: ms) hms _ hrest]
    simp [memberTokens]

end

/-! ### Putting tokens together -/

namespace Parser

theorem run_cons {s : State} {t : Token} (s' : State) (h : step s t = some s') (ts : List Token) :
    run s (t :: ts) = run s' ts := by
  simp only [run, h]

/-- The first item of an array is read as any value is. -/
theorem run_arrStart (v : Json) (stack : List Frame) (ts : List Token) :
    run (.arrStart stack) (v.tokens ++ ts) = run (.value (.arr [] :: stack)) (v.tokens ++ ts) := by
  cases v with
  | null => rfl
  | bool b => rfl
  | num n => rfl
  | str s => rfl
  | arr items => rfl
  | obj members => rfl
  | unreadable => rfl

/-- Members whose names could be read make an object. -/
theorem object_reverse (ms : List (String × Json)) :
    object (ms.map fun m => (some m.1, m.2)).reverse = .obj ms := by
  have hnames : (ms.map fun m => (some m.1, m.2)).mapM (fun (m : Name × Json) => m.1.map fun name => (name, m.2)) =
      some ms := by
    induction ms with
    | nil => rfl
    | cons m ms ih => simp [ih]
  rw [object, List.reverse_reverse, hnames]

mutual

/-- The tokens of a value are put together to it. -/
theorem run_tokens : ∀ (v : Json) (stack : List Frame) (ts : List Token),
    run (.value stack) (v.tokens ++ ts) = run (.after v stack) ts
  | .null, _, _ => rfl
  | .bool _, _, _ => rfl
  | .num _, _, _ => rfl
  | .str _, _, _ => rfl
  | .unreadable, _, _ => rfl
  | .arr items, stack, ts => by
    rw [tokens, List.cons_append, List.cons_append, List.append_assoc, List.singleton_append,
      run_cons (.arrStart stack) rfl]
    cases items with
    | nil => rfl
    | cons v vs =>
      -- after the bracket the first item is awaited, or the end
      have hfirst : run (.arrStart stack) (itemTokens (v :: vs) ++ .arrClose :: ts) =
          run (.value (.arr [] :: stack)) (itemTokens (v :: vs) ++ .arrClose :: ts) := by
        cases vs with
        | nil => exact run_arrStart v stack _
        | cons w vs =>
          rw [itemTokens_cons_cons, List.append_assoc]
          exact run_arrStart v stack _
      rw [hfirst]
      exact run_itemTokens (v :: vs) (List.cons_ne_nil v vs) [] stack ts
  | .obj members, stack, ts => by
    rw [tokens, List.cons_append, List.cons_append, List.append_assoc, List.singleton_append,
      run_cons (.objStart stack) rfl]
    cases members with
    | nil => rfl
    | cons m ms =>
      have hfirst : run (.objStart stack) (memberTokens (m :: ms) ++ .objClose :: ts) =
          run (.name [] stack) (memberTokens (m :: ms) ++ .objClose :: ts) := by
        cases ms with
        | nil => rfl
        | cons m' ms => rfl
      rw [hfirst, run_memberTokens (m :: ms) (List.cons_ne_nil m ms) [] stack ts, List.append_nil, object_reverse]

theorem run_itemTokens : ∀ (vs : List Json), vs ≠ [] → ∀ (items : List Json) (stack : List Frame) (ts : List Token),
    run (.value (.arr items :: stack)) (itemTokens vs ++ .arrClose :: ts) =
      run (.after (.arr (items.reverse ++ vs)) stack) ts
  | [], h, _, _, _ => absurd rfl h
  | [v], _, items, stack, ts => by
    rw [itemTokens, run_tokens v, run_cons (.after (.arr (v :: items).reverse) stack) rfl, List.reverse_cons]
  | v :: w :: vs, _, items, stack, ts => by
    rw [itemTokens_cons_cons, List.append_assoc, run_tokens v, List.cons_append,
      run_cons (.value (.arr (v :: items) :: stack)) rfl, run_itemTokens (w :: vs) (List.cons_ne_nil w vs),
      List.reverse_cons, List.append_assoc, List.singleton_append]

theorem run_memberTokens : ∀ (ms : List (String × Json)), ms ≠ [] →
    ∀ (members : List (Name × Json)) (stack : List Frame) (ts : List Token),
    run (.name members stack) (memberTokens ms ++ .objClose :: ts) =
      run (.after (object ((ms.map fun m => (some m.1, m.2)).reverse ++ members)) stack) ts
  | [], h, _, _, _ => absurd rfl h
  | [(name, v)], _, members, stack, ts => by
    rw [memberTokens, List.cons_append, List.cons_append, run_cons (.colon members (some name) stack) rfl,
      run_cons (.value (.obj members (some name) :: stack)) rfl, run_tokens v,
      run_cons (.after (object ((some name, v) :: members)) stack) rfl]
    rfl
  | (name, v) :: m :: ms, _, members, stack, ts => by
    rw [memberTokens_cons_cons, List.cons_append, List.cons_append, List.append_assoc,
      run_cons (.colon members (some name) stack) rfl, run_cons (.value (.obj members (some name) :: stack)) rfl,
      run_tokens v, List.cons_append, run_cons (.name ((some name, v) :: members) stack) rfl,
      run_memberTokens (m :: ms) (List.cons_ne_nil m ms)]
    simp

end

end Parser

/-- A value that is written is read back. -/
theorem parse?_print {v : Json} (h : v.Spelled) : parse? v.print = some v := by
  have htokens : tokens? v.print.toList = some v.tokens := by
    -- nothing follows the value
    have hend : Follows [] := by simp [Follows]
    have hread := readFrom_print v h [] hend
    rw [List.append_nil, List.append_nil] at hread
    calc tokens? v.print.toList = readFrom ⟨.idle, []⟩ v.print.toList := rfl
      _ = readFrom ⟨.idle, v.tokens.reverse⟩ [] := hread
      _ = some v.tokens := by simp [readFrom, run, finish]
  have hvalue : ofTokens? v.tokens = some v := by
    have hrun := Parser.run_tokens v [] []
    rw [List.append_nil] at hrun
    rw [ofTokens?, hrun]
    rfl
  rw [parse?, htokens, Option.bind_some, hvalue]

end AgentFlow.Json
