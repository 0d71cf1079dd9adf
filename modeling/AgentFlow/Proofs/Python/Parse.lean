import AgentFlow.Proofs.Plan.Labels
import AgentFlow.Proofs.Python.Token

/-!
# Expressions are read back from their tokens

A pushdown machine over the tokens puts an expression together again: it keeps the lists, dictionaries and calls that
are still open, innermost first, and what was read last and belongs to none of them yet. It reads the tokens of an
expression as that expression, whatever is open around it, and so the text of an expression tells which expression it
is, on one line or broken over lines. There is one exception. A word is read as a keyword before it is read as a name,
so a name that is the word of a Boolean value is read as the value (`Expr.reads`).
-/

namespace AgentFlow.Python

open Text
open AgentFlow.Bracket (isCloser)

/-! ### Expressions of literals, names and brackets -/

/-- The text is a word that does not begin with a digit. -/
def isIdentifier (name : String) : Bool :=
  !name.toList.isEmpty && name.toList.all isWordChar && !name.toList.head?.any isDecimalDigit

/-- The text may be the name of something: it is not the word of a Boolean value. -/
def isName (name : String) : Bool := isIdentifier name && name != "True" && name != "False"

mutual

/-- The expression has no text that stands as it is. Its names satisfy `ok`, its callees and keywords are
identifiers. -/
def Expr.Shaped (ok : String → Bool) : Expr → Prop
  | .str _ => True
  | .ident name => ok name = true
  | .bool _ => True
  | .int _ => True
  | .list items => ShapedItems ok items
  | .dict entries => ShapedEntries ok entries
  | .call callee args => isIdentifier callee = true ∧ ShapedArgs ok args
  | .raw _ => False

def ShapedItems (ok : String → Bool) : List Expr → Prop
  | [] => True
  | e :: es => e.Shaped ok ∧ ShapedItems ok es

def ShapedEntries (ok : String → Bool) : List (String × Expr) → Prop
  | [] => True
  | (_, e) :: es => e.Shaped ok ∧ ShapedEntries ok es

def ShapedArgs (ok : String → Bool) : List (Option String × Expr) → Prop
  | [] => True
  | (k, e) :: es => k.all isIdentifier = true ∧ e.Shaped ok ∧ ShapedArgs ok es

end

/-! ### The texts of an expression -/

section Texts

variable {name : String}

theorem isIdentifier_iff : isIdentifier name = true ↔
    name.toList ≠ [] ∧ (∀ c ∈ name.toList, isWordChar c = true) ∧ name.toList.head?.any isDecimalDigit = false := by
  simp only [isIdentifier, Bool.and_eq_true, Bool.not_eq_true', List.isEmpty_eq_false_iff, List.all_eq_true, and_assoc]

/-- A name is one token. -/
theorem spells_identifier (h : isIdentifier name = true) : SpellsApart name [.word name.toList] := by
  obtain ⟨hne, hword, -⟩ := isIdentifier_iff.mp h
  exact spellsApart_word hne hword

theorem isDecimalDigit_of_isDigit {c : Char} (h : c.isDigit = true) : isDecimalDigit c = true := by
  have hsmall : c.toNat < 0x80 := by
    simp only [Char.isDigit, Bool.and_eq_true, decide_eq_true_eq, UInt32.le_iff_toNat_le] at h
    exact Nat.lt_of_le_of_lt h.2 (by decide)
  rw [isDecimalDigit, if_pos hsmall, h]

theorem isWordChar_of_isDigit {c : Char} (h : c.isDigit = true) : isWordChar c = true := by
  rw [isWordChar, isDecimalDigit_of_isDigit h, Bool.or_true]
  rfl

theorem spells_toString (n : Nat) : SpellsApart (toString n) [.word (toString n).toList] :=
  spellsApart_word (by simp) fun _ hc => isWordChar_of_isDigit (Naming.isDigit_of_mem_toString hc)

/-- A negative number is two tokens, for there are no signed ones. -/
theorem spells_negative (n : Nat) : SpellsApart ("-" ++ toString n) [.mark '-', .word (toString n).toList] :=
  -- the sign is a mark, which ends by itself
  have hminus : Spells "-" [.mark '-'] := spells_marks (by decide)
  hminus.appendApart (spells_toString n)

theorem spells_callee (h : isIdentifier name = true) : Spells (name ++ "(") [.word name.toList, .mark '('] :=
  (spells_identifier h).append_marks rfl rfl

theorem spells_keyword (h : isIdentifier name = true) : Spells (name ++ "=") [.word name.toList, .mark '='] :=
  (spells_identifier h).append_marks rfl rfl

theorem spells_key (k : String) : Spells (quote k ++ ": ") [.literal (quote k).toList, .mark ':'] :=
  (spells_quote k).apart.append_marks rfl rfl

end Texts

/-! ### Every text of an expression is read by itself -/

section Lexical

variable {t : String} {ts : List Token}

/-- What is spelled by itself and holds no comma may stand before an item. -/
theorem prefatory_of_spells (h : Spells t ts) (hcomma : .mark ',' ∉ ts) (hbegins : Begins ts) : Prefatory t := by
  refine ⟨?_, ?_, fun us _ => ?_⟩ <;> rw [h.apart.tokens_eq]
  · exact h
  · exact hcomma
  · exact hbegins.append us

theorem prefatory_empty : Prefatory "" := ⟨spells_empty, List.not_mem_nil, fun _ h => h⟩

theorem atomic_of_spells (h : SpellsApart t ts) (hcomma : .mark ',' ∉ ts) (hbegins : Begins ts) : Atomic t := by
  refine ⟨?_, ?_, ?_⟩ <;> rw [h.tokens_eq]
  · exact h
  · exact hcomma
  · exact hbegins

theorem atomic_toString (i : Int) : Atomic (toString i) := by
  cases i with
  | ofNat n => exact atomic_of_spells (spells_toString n) (by simp) rfl
  | negSucc n => exact atomic_of_spells (spells_negative (n + 1)) (by simp) rfl

theorem atomic_identifier {name : String} (h : isIdentifier name = true) : Atomic name :=
  atomic_of_spells (spells_identifier h) (by simp) rfl

theorem prefatory_argLead {k : Option String} (h : k.all isIdentifier = true) : Prefatory (argLead k) := by
  cases k with
  | none => exact prefatory_empty
  | some k => exact prefatory_of_spells (spells_keyword h) (by simp) rfl

end Lexical

/-- What brackets enclose is a group if its items are. -/
theorem lexical_group {opening : String} {items : List (String × Layout)} {ts : List Token} {c : Char}
    (hopening : Spells opening ts) (hcomma : .mark ',' ∉ ts) (hbegins : Begins ts) (hitems : LexicalItems items)
    (hc : isCloser c = true) : Layout.Lexical (.group opening items (String.ofList [c])) := by
  refine ⟨prefatory_of_spells hopening hcomma hbegins, ?_, hitems, c, hc, rfl⟩
  rw [hopening.apart.tokens_eq]
  exact hbegins

mutual

/-- Every part of an expression is made of whole tokens. -/
theorem Expr.Shaped.lexical : ∀ {e : Expr}, e.Shaped isIdentifier → e.layout.Lexical
  | .str s, _ => atomic_of_spells (spells_quote s).apart (by simp) rfl
  | .ident _, h => atomic_identifier h
  | .bool true, _ => atomic_identifier (by decide)
  | .bool false, _ => atomic_identifier (by decide)
  | .int i, _ => atomic_toString i
  | .list _, h => lexical_group (spells_marks (by decide)) (by decide) rfl (lexicalItems_items h) rfl
  | .dict _, h => lexical_group (spells_marks (by decide)) (by decide) rfl (lexicalItems_entries h) rfl
  | .call _ _, h => lexical_group (spells_callee h.1) (by simp) rfl (lexicalItems_args h.2) rfl

theorem lexicalItems_items : ∀ {items : List Expr}, ShapedItems isIdentifier items → LexicalItems (layoutItems items)
  | [], _ => trivial
  | _ :: _, h => ⟨prefatory_empty, h.1.lexical, lexicalItems_items h.2⟩

theorem lexicalItems_entries : ∀ {entries : List (String × Expr)}, ShapedEntries isIdentifier entries →
    LexicalItems (layoutEntries entries)
  | [], _ => trivial
  | (k, _) :: _, h =>
    ⟨prefatory_of_spells (spells_key k) (by simp) rfl, h.1.lexical, lexicalItems_entries h.2⟩

theorem lexicalItems_args : ∀ {args : List (Option String × Expr)}, ShapedArgs isIdentifier args →
    LexicalItems (layoutArgs args)
  | [], _ => trivial
  | (_, _) :: _, h => ⟨prefatory_argLead h.1, h.2.1.lexical, lexicalItems_args h.2.2⟩

end

/-! ### The machine -/

namespace Parser

/-- A list, dictionary or call that is still open, with the key or keyword of the item that is being read. -/
inductive Frame where
  | list (items : List Expr)
  | dict (entries : List (String × Expr)) (key : Option String)
  | call (callee : String) (args : List (Option String × Expr)) (keyword : Option String)

/-- What was read last and belongs to nothing yet. -/
inductive Pending where
  | nothing
  | minus
  | word (w : List Char)
  | value (e : Expr)

structure State where
  pending : Pending
  stack : List Frame

/-- The number that digits spell. -/
def number (w : List Char) : Nat := Nat.ofDigitChars 10 w 0

/-- A name as it is read: two of the words are values. -/
def ofName (name : String) : Expr :=
  if name = "True" then .bool true else if name = "False" then .bool false else .ident name

/-- A word as an expression. -/
def ofWord (w : List Char) : Expr := if w.all Char.isDigit then .int (number w) else ofName (String.ofList w)

def Pending.expr? : Pending → Option Expr
  | .word w => some (ofWord w)
  | .value e => some e
  | _ => none

/-- One more item, with the key or keyword that was read before it. -/
def Frame.add : Frame → Expr → Option Frame
  | .list items, e => some (.list (items ++ [e]))
  | .dict entries (some k), e => some (.dict (entries ++ [(k, e)]) none)
  | .dict _ none, _ => none
  | .call callee args k, e => some (.call callee (args ++ [(k, e)]) none)

def Frame.close : Frame → Char → Option Expr
  | .list items, ']' => some (.list items)
  | .dict entries none, '\x7d' => some (.dict entries)
  | .call callee args none, ')' => some (.call callee args)
  | _, _ => none

/-- The innermost frame with what is pending as its last item. -/
def Frame.settle (f : Frame) : Pending → Option Frame
  | .nothing => some f
  | p => p.expr?.bind f.add

/-- The state after a mark. -/
def mark : Pending → List Frame → Char → Option State
  | .nothing, stack, '-' => some ⟨.minus, stack⟩
  | .nothing, stack, '[' => some ⟨.nothing, .list [] :: stack⟩
  | .nothing, stack, '\x7b' => some ⟨.nothing, .dict [] none :: stack⟩
  | .word w, stack, '(' => some ⟨.nothing, .call (String.ofList w) [] none :: stack⟩
  | .word w, .call callee args none :: stack, '=' =>
    some ⟨.nothing, .call callee args (some (String.ofList w)) :: stack⟩
  | .value (.str k), .dict entries none :: stack, ':' => some ⟨.nothing, .dict entries (some k) :: stack⟩
  | p, f :: stack, ',' => (p.expr?.bind f.add).map fun f => ⟨.nothing, f :: stack⟩
  | p, f :: stack, c => ((f.settle p).bind (·.close c)).map fun e => ⟨.value e, stack⟩
  | _, [], _ => none

/-- What a literal stands for. -/
def content? (t : List Char) : Option String :=
  (Literal.decode (fun _ => none) 0 t.tail.dropLast).map String.ofList

/-- The state after one more token. -/
def step : State → Token → Option State
  | ⟨.nothing, stack⟩, .literal t => (content? t).map fun s => ⟨.value (.str s), stack⟩
  | ⟨.nothing, stack⟩, .word w => some ⟨.word w, stack⟩
  | ⟨.minus, stack⟩, .word w => some ⟨.value (.int (-(number w : Int))), stack⟩
  | ⟨p, stack⟩, .mark c => mark p stack c
  | _, _ => none

def run (s : State) (ts : List Token) : Option State := ts.foldlM step s

/-- The expression when the tokens end here. -/
def finish : State → Option Expr
  | ⟨p, []⟩ => p.expr?
  | _ => none

end Parser

/-- The expression that the tokens spell. -/
def ofTokens? (ts : List Token) : Option Expr := (Parser.run ⟨.nothing, []⟩ ts).bind Parser.finish

/-! ### What is read -/

mutual

/-- The expression with its names as they are read. -/
def Expr.reads : Expr → Expr
  | .ident name => Parser.ofName name
  | .list items => .list (readsItems items)
  | .dict entries => .dict (readsEntries entries)
  | .call callee args => .call callee (readsArgs args)
  | .str s => .str s
  | .bool b => .bool b
  | .int i => .int i
  | .raw text => .raw text

def readsItems : List Expr → List Expr
  | [] => []
  | e :: es => e.reads :: readsItems es

def readsEntries : List (String × Expr) → List (String × Expr)
  | [] => []
  | (k, e) :: es => (k, e.reads) :: readsEntries es

def readsArgs : List (Option String × Expr) → List (Option String × Expr)
  | [] => []
  | (k, e) :: es => (k, e.reads) :: readsArgs es

end

namespace Parser

variable {p : Pending} {f g : Frame} {stack : List Frame} {e : Expr} {c : Char}

theorem run_append (s : State) (ts us : List Token) : run s (ts ++ us) = (run s ts).bind fun s => run s us :=
  List.foldlM_append

theorem step_mark : step ⟨p, stack⟩ (.mark c) = mark p stack c := by cases p <;> rfl

theorem settle_of_expr? (h : p.expr? = some e) : f.settle p = f.add e := by
  cases p with
  | nothing => cases h
  | minus => cases h
  | word w => exact congrArg (·.bind f.add) h
  | value e' => exact congrArg (·.bind f.add) h

/-- A comma adds what is pending to the innermost frame. -/
theorem mark_comma (h : p.expr? = some e) (hadd : f.add e = some g) :
    mark p (f :: stack) ',' = some ⟨.nothing, g :: stack⟩ := by
  have hmark : mark p (f :: stack) ',' = (p.expr?.bind f.add).map fun f => ⟨.nothing, f :: stack⟩ := by
    simp [mark]
  rw [hmark, h, Option.bind_some, hadd, Option.map_some]

/-- A closing bracket adds it as well, if there is anything, and closes the frame. -/
theorem mark_closer (hc : isCloser c = true) :
    mark p (f :: stack) c = ((f.settle p).bind (·.close c)).map fun e => ⟨.value e, stack⟩ := by
  simp only [isCloser, Bool.or_eq_true, decide_eq_true_eq] at hc
  rcases hc with (rfl | rfl) | rfl <;> simp [mark]

/-- The tokens of the layout are read as the expression, whatever is open around it. -/
def Yields (l : Layout) (e : Expr) : Prop :=
  ∀ stack, ∃ p : Pending, p.expr? = some e ∧ run ⟨.nothing, stack⟩ l.tokens = some ⟨p, stack⟩

/-- The items bring the frame `f` to `g`, up to the closing bracket. -/
def Fills (items : List (String × Layout)) (f g : Frame) : Prop :=
  ∀ stack c, isCloser c = true →
    run ⟨.nothing, f :: stack⟩ (itemTokens items ++ [.mark c]) = run ⟨.nothing, g :: stack⟩ [.mark c]

theorem fills_nil (f : Frame) : Fills [] f f := fun _ _ _ => rfl

/-- An item goes to the frame when the comma after it is read, or the closing bracket. -/
theorem Fills.cons {lead : String} {l : Layout} {rest : List (String × Layout)} {f₁ f₂ : Frame}
    (hlead : ∀ stack, run ⟨.nothing, f :: stack⟩ (tokens lead.toList) = some ⟨.nothing, f₁ :: stack⟩)
    (hl : Yields l e) (hadd : f₁.add e = some f₂) (hrest : Fills rest f₂ g) : Fills ((lead, l) :: rest) f g := by
  intro stack c hc
  obtain ⟨p, hp, hread⟩ := hl (f₁ :: stack)
  have hitem : run ⟨.nothing, f :: stack⟩ (tokens lead.toList ++ l.tokens) = some ⟨p, f₁ :: stack⟩ := by
    rw [run_append, hlead, Option.bind_some, hread]
  by_cases hne : rest = []
  · -- no comma follows, so the closing bracket adds the item before it closes
    subst hne
    have hclose : step ⟨p, f₁ :: stack⟩ (.mark c) = step ⟨.nothing, f₂ :: stack⟩ (.mark c) := by
      rw [step_mark, step_mark, mark_closer hc, mark_closer hc, settle_of_expr? hp, hadd]
      rfl
    have hlast := hrest stack c hc
    rw [itemTokens, run_append, hitem, Option.bind_some, ← hlast]
    simp only [run, itemTokens, List.nil_append, List.foldlM_cons, hclose]
  · have hcomma : step ⟨p, f₁ :: stack⟩ (.mark ',') = some ⟨.nothing, f₂ :: stack⟩ :=
      step_mark.trans (mark_comma hp hadd)
    rw [itemTokens_cons lead l hne, List.append_assoc, run_append, hitem, Option.bind_some, ← hrest stack c hc]
    simp only [run, List.cons_append, List.foldlM_cons, hcomma]
    rfl

/-- A group is read as what its frame closes to. -/
theorem yields_group {opening : String} {items : List (String × Layout)}
    (hopening : ∀ stack, run ⟨.nothing, stack⟩ (tokens opening.toList) = some ⟨.nothing, f :: stack⟩)
    (hitems : Fills items f g) (hc : isCloser c = true) (hclose : g.close c = some e) :
    Yields (.group opening items (String.ofList [c])) e := by
  intro stack
  refine ⟨.value e, rfl, ?_⟩
  have hstep : step ⟨.nothing, g :: stack⟩ (.mark c) = some ⟨.value e, stack⟩ := by
    rw [step_mark, mark_closer hc, Frame.settle, Option.bind_some, hclose, Option.map_some]
  rw [Layout.tokens, tokens_closer hc, List.append_assoc, run_append, hopening, Option.bind_some, hitems stack c hc]
  simp only [run, List.foldlM_cons, hstep]
  rfl

/-! ### Texts -/

/-- The literal of a text holds the text. -/
theorem content?_quote (s : String) : content? (quote s).toList = some s := by
  have hbody : (quote s).toList.tail.dropLast = s.toList.flatMap escapeChar := by
    have htext : (quote s).toList = '"' :: (s.toList.flatMap escapeChar ++ ['"']) := String.toList_ofList
    rw [htext, List.tail_cons, List.dropLast_concat]
  rw [content?, hbody, Literal.decode_flatMap_escapeChar, Option.map_some, String.ofList_toList]

/-- An identifier is no number. -/
theorem ofWord_identifier {name : String} (h : isIdentifier name = true) : ofWord name.toList = ofName name := by
  have hdigits : name.toList.all Char.isDigit = false := by
    obtain ⟨hne, -, hstart⟩ := isIdentifier_iff.mp h
    cases hcs : name.toList with
    | nil => exact absurd hcs hne
    | cons c cs =>
      rw [hcs, List.head?_cons, Option.any_some] at hstart
      have hc : c.isDigit = false := Bool.eq_false_iff.mpr fun hc => by
        rw [isDecimalDigit_of_isDigit hc] at hstart
        cases hstart
      rw [List.all_cons, hc, Bool.false_and]
  rw [ofWord, if_neg (by simp [hdigits]), String.ofList_toList]

theorem number_toString (n : Nat) : number (toString n).toList = n := by simp [number]

theorem ofWord_toString (n : Nat) : ofWord (toString n).toList = .int n := by
  have hdigits : (toString n).toList.all Char.isDigit = true :=
    List.all_eq_true.mpr fun c hc => Naming.isDigit_of_mem_toString hc
  rw [ofWord, if_pos hdigits, number_toString]

theorem yields_atom {text : String} {ts : List Token} (htext : SpellsApart text ts) (hp : p.expr? = some e)
    (hread : ∀ stack, run ⟨.nothing, stack⟩ ts = some ⟨p, stack⟩) : Yields (.atom text) e := by
  intro stack
  refine ⟨p, hp, ?_⟩
  rw [Layout.tokens, htext.tokens_eq]
  exact hread stack

theorem yields_identifier {name : String} (h : isIdentifier name = true) : Yields (.atom name) (ofName name) :=
  have hvalue : Pending.expr? (.word name.toList) = some (ofName name) := congrArg some (ofWord_identifier h)
  yields_atom (spells_identifier h) hvalue fun _ => rfl

theorem yields_str (s : String) : Yields (.atom (quote s)) (.str s) := by
  refine yields_atom (p := .value (.str s)) (spells_quote s).apart rfl fun stack => ?_
  simp only [run, List.foldlM_cons, step, content?_quote, Option.map_some]
  rfl

theorem yields_int (i : Int) : Yields (.atom (toString i)) (.int i) := by
  cases i with
  | ofNat n =>
    have hvalue : Pending.expr? (.word (toString n).toList) = some (.int n) := congrArg some (ofWord_toString n)
    exact yields_atom (spells_toString n) hvalue fun _ => rfl
  | negSucc n =>
    -- the sign is pending until the digits are read
    refine yields_atom (p := .value (.int (Int.negSucc n))) (spells_negative (n + 1)) rfl fun stack => ?_
    have hread : run ⟨.nothing, stack⟩ [.mark '-', .word (toString (n + 1)).toList] =
        some ⟨.value (.int (-(number (toString (n + 1)).toList : Int))), stack⟩ := rfl
    rw [hread, number_toString]
    rfl

theorem run_argLead {k : Option String} (h : k.all isIdentifier = true) (callee : String)
    (args : List (Option String × Expr)) (stack : List Frame) :
    run ⟨.nothing, .call callee args none :: stack⟩ (tokens (argLead k).toList) =
      some ⟨.nothing, .call callee args k :: stack⟩ := by
  cases k with
  | none => rfl
  | some k =>
    have hread : run ⟨.nothing, .call callee args none :: stack⟩ [.word k.toList, .mark '='] =
        some ⟨.nothing, .call callee args (some (String.ofList k.toList)) :: stack⟩ := rfl
    rw [argLead, (spells_keyword h).apart.tokens_eq, hread, String.ofList_toList]

theorem run_key (k : String) (entries : List (String × Expr)) (stack : List Frame) :
    run ⟨.nothing, .dict entries none :: stack⟩ (tokens (quote k ++ ": ").toList) =
      some ⟨.nothing, .dict entries (some k) :: stack⟩ := by
  rw [(spells_key k).apart.tokens_eq]
  simp only [run, List.foldlM_cons, step, content?_quote, Option.map_some]
  rfl

theorem run_callee {callee : String} (h : isIdentifier callee = true) (stack : List Frame) :
    run ⟨.nothing, stack⟩ (tokens (callee ++ "(").toList) = some ⟨.nothing, .call callee [] none :: stack⟩ := by
  have hread : run ⟨.nothing, stack⟩ [.word callee.toList, .mark '('] =
      some ⟨.nothing, .call (String.ofList callee.toList) [] none :: stack⟩ := rfl
  rw [(spells_callee h).apart.tokens_eq, hread, String.ofList_toList]

end Parser

open Python.Parser

mutual

/-- The layout of an expression is read as the expression, with its names as they are read. -/
theorem Expr.Shaped.yields : ∀ {e : Expr}, e.Shaped isIdentifier → Yields e.layout e.reads
  | .str s, _ => yields_str s
  | .ident _, h => yields_identifier h
  | .bool true, _ => yields_identifier (by decide : isIdentifier "True" = true)
  | .bool false, _ => yields_identifier (by decide : isIdentifier "False" = true)
  | .int i, _ => yields_int i
  | .list _, h => yields_group (fun _ => rfl) (fills_items h []) rfl rfl
  | .dict _, h => yields_group (fun _ => rfl) (fills_entries h []) rfl rfl
  | .call callee _, h => yields_group (run_callee h.1) (fills_args h.2 callee []) rfl rfl

/-- The items that were read before are kept. -/
theorem fills_items : ∀ {items : List Expr}, ShapedItems isIdentifier items → ∀ done : List Expr,
    Fills (layoutItems items) (.list done) (.list (done ++ readsItems items))
  | [], _, done => by
    rw [readsItems, List.append_nil]
    exact fills_nil _
  | e :: es, h, done => by
    have hrest := fills_items h.2 (done ++ [e.reads])
    rw [List.append_assoc, List.singleton_append] at hrest
    exact Fills.cons (fun _ => rfl) h.1.yields rfl hrest

theorem fills_entries : ∀ {entries : List (String × Expr)}, ShapedEntries isIdentifier entries →
    ∀ done : List (String × Expr),
      Fills (layoutEntries entries) (.dict done none) (.dict (done ++ readsEntries entries) none)
  | [], _, done => by
    rw [readsEntries, List.append_nil]
    exact fills_nil _
  | (k, e) :: es, h, done => by
    have hrest := fills_entries h.2 (done ++ [(k, e.reads)])
    rw [List.append_assoc, List.singleton_append] at hrest
    exact Fills.cons (run_key k done) h.1.yields rfl hrest

theorem fills_args : ∀ {args : List (Option String × Expr)}, ShapedArgs isIdentifier args →
    ∀ (callee : String) (done : List (Option String × Expr)),
      Fills (layoutArgs args) (.call callee done none) (.call callee (done ++ readsArgs args) none)
  | [], _, callee, done => by
    rw [readsArgs, List.append_nil]
    exact fills_nil _
  | (k, e) :: es, h, callee, done => by
    have hrest := fills_args h.2.2 callee (done ++ [(k, e.reads)])
    rw [List.append_assoc, List.singleton_append] at hrest
    exact Fills.cons (run_argLead h.1 callee done) h.2.1.yields rfl hrest

end

/-- The text of an expression, laid out in any way, tells what it reads as. -/
theorem Expr.Shaped.ofTokens?_render {e : Expr} (h : e.Shaped isIdentifier) (depth column : Nat) :
    ofTokens? (dropCommas (tokens (e.render depth column).toList)) = some e.reads := by
  obtain ⟨p, hp, hread⟩ := h.yields []
  rw [Expr.render, h.lexical.dropCommas_render, h.lexical.flat.tokens_eq, ofTokens?, hread]
  exact hp

/-! ### Names -/

theorem layout_ofName (name : String) : (ofName name).layout = .atom name := by
  unfold ofName
  split_ifs with htrue hfalse
  · rw [htrue]
    rfl
  · rw [hfalse]
    rfl
  · rfl

mutual

/-- An expression is laid out as what it reads as. -/
theorem Expr.layout_reads : ∀ e : Expr, e.reads.layout = e.layout
  | .ident name => layout_ofName name
  | .str _ => rfl
  | .bool _ => rfl
  | .int _ => rfl
  | .raw _ => rfl
  | .list items => by rw [Expr.reads, Expr.layout, Expr.layout, layoutItems_reads]
  | .dict entries => by rw [Expr.reads, Expr.layout, Expr.layout, layoutEntries_reads]
  | .call callee args => by rw [Expr.reads, Expr.layout, Expr.layout, layoutArgs_reads]

theorem layoutItems_reads : ∀ items : List Expr, layoutItems (readsItems items) = layoutItems items
  | [] => rfl
  | e :: es => by rw [readsItems, layoutItems, layoutItems, e.layout_reads, layoutItems_reads es]

theorem layoutEntries_reads : ∀ entries : List (String × Expr),
    layoutEntries (readsEntries entries) = layoutEntries entries
  | [] => rfl
  | (k, e) :: es => by rw [readsEntries, layoutEntries, layoutEntries, e.layout_reads, layoutEntries_reads es]

theorem layoutArgs_reads : ∀ args : List (Option String × Expr), layoutArgs (readsArgs args) = layoutArgs args
  | [] => rfl
  | (k, e) :: es => by rw [readsArgs, layoutArgs, layoutArgs, e.layout_reads, layoutArgs_reads es]

end

/-- A name that is no Boolean word is read as a name. -/
theorem ofName_of_isName {name : String} (h : isName name = true) : ofName name = .ident name := by
  simp only [isName, Bool.and_eq_true, bne_iff_ne] at h
  rw [ofName, if_neg h.1.2, if_neg h.2]

mutual

/-- An expression reads as itself if its names are names. -/
theorem Expr.Shaped.reads_eq : ∀ {e : Expr}, e.Shaped isName → e.reads = e
  | .ident _, h => ofName_of_isName h
  | .str _, _ => rfl
  | .bool _, _ => rfl
  | .int _, _ => rfl
  | .list _, h => congrArg Expr.list (readsItems_eq h)
  | .dict _, h => congrArg Expr.dict (readsEntries_eq h)
  | .call callee _, h => congrArg (Expr.call callee) (readsArgs_eq h.2)

theorem readsItems_eq : ∀ {items : List Expr}, ShapedItems isName items → readsItems items = items
  | [], _ => rfl
  | _ :: _, h => congrArg₂ List.cons h.1.reads_eq (readsItems_eq h.2)

theorem readsEntries_eq : ∀ {entries : List (String × Expr)}, ShapedEntries isName entries →
    readsEntries entries = entries
  | [], _ => rfl
  | (k, _) :: _, h => congrArg₂ List.cons (congrArg (Prod.mk k) h.1.reads_eq) (readsEntries_eq h.2)

theorem readsArgs_eq : ∀ {args : List (Option String × Expr)}, ShapedArgs isName args → readsArgs args = args
  | [], _ => rfl
  | (k, _) :: _, h => congrArg₂ List.cons (congrArg (Prod.mk k) h.2.1.reads_eq) (readsArgs_eq h.2.2)

end

/-- Breaking lines keeps the tokens of an expression, but for commas before closing brackets. The text of an expression,
laid out in any way, is that of another one exactly if both read as the same expression. So expressions in which no name
is the word of a Boolean value are equal if their texts are. -/
theorem Expr.line_breaks_keep_meaning {e e' : Expr} (h : e.Shaped isIdentifier) (h' : e'.Shaped isIdentifier) :
    (∀ depth column, dropCommas (tokens (e.render depth column).toList) = tokens e.layout.flat.toList) ∧
      (∀ depth column depth' column', e.render depth column = e'.render depth' column' → e.reads = e'.reads) ∧
      (e.reads = e'.reads → ∀ depth column, e.render depth column = e'.render depth column) ∧
      (e.Shaped isName → e'.Shaped isName →
        ∀ depth column depth' column', e.render depth column = e'.render depth' column' → e = e') := by
  -- the same text has the same tokens, which are read in one way
  have hreads : ∀ depth column depth' column', e.render depth column = e'.render depth' column' →
      e.reads = e'.reads := by
    intro depth column depth' column' hrender
    have hread := h.ofTokens?_render depth column
    rw [hrender, h'.ofTokens?_render] at hread
    exact (Option.some.inj hread).symm
  refine ⟨h.lexical.dropCommas_render, hreads, fun hsame depth column => ?_, ?_⟩
  · rw [Expr.render, Expr.render, ← e.layout_reads, hsame, e'.layout_reads]
  · intro hnames hnames' depth column depth' column' hrender
    rw [← hnames.reads_eq, ← hnames'.reads_eq]
    exact hreads depth column depth' column' hrender

/-- A call whose arguments are put on lines of their own. -/
def brokenCall : Expr := .call "run" [(none, .str "a, b"), (some "tools", .list [.ident "x", .int (-1)])]

theorem brokenCall_shaped : brokenCall.Shaped isIdentifier :=
  ⟨by decide, rfl, trivial, (by decide : isIdentifier "tools" = true),
    ⟨(by decide : isIdentifier "x" = true), trivial, trivial⟩, trivial⟩

theorem Expr.line_breaks_keep_meaning_brokenCall :
    brokenCall.render 0 80 = "run(\n    \"a, b\",\n    tools=[x, -1],\n)" ∧
      dropCommas (tokens (brokenCall.render 0 80).toList) = tokens "run(\"a, b\", tools=[x, -1])".toList :=
  ⟨by decide, (Expr.line_breaks_keep_meaning brokenCall_shaped brokenCall_shaped).1 0 80⟩

/-- A name that is the word of a Boolean value is written like the value. -/
theorem Expr.ident_true_reads_as_bool :
    (Expr.ident "True").Shaped isIdentifier ∧ (Expr.bool true).Shaped isIdentifier ∧
      (∀ depth column, (Expr.ident "True").render depth column = (Expr.bool true).render depth column) ∧
      Expr.ident "True" ≠ Expr.bool true :=
  ⟨(by decide : isIdentifier "True" = true), trivial, fun _ _ => rfl, by simp⟩

end AgentFlow.Python
