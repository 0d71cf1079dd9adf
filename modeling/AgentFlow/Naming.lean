import AgentFlow.Text.Basic

/-!
# Names for labels

`slug` maps a label to lower-case words joined by underscores, `identifier` makes a Python identifier of it, and
`Names` hands out identifiers that are all different: the first label of a kind keeps its identifier, later ones
get `_2`, `_3` and so on.
-/

namespace AgentFlow

namespace Naming

/-- The slug of the rest of a label: `started` if something was written before, `owed` if other characters stood
in between, so that an underscore must come first. -/
def slugFrom (started owed : Bool) : List Char → List Char
  | [] => []
  | c :: cs =>
    if Text.isBasicAlnum c then
      (if started && owed then ['_', c.toLower] else [c.toLower]) ++ slugFrom true false cs
    else slugFrom started true cs

/-- The letters and digits of a label in lower case, every run of other characters between them one
underscore. -/
def slug (label : String) : String := String.ofList (slugFrom false false label.toList)

/-- Lower-case words that Python keeps for itself. -/
def keywords : List String :=
  ["false", "none", "true", "and", "as", "assert", "async", "await", "break", "class", "continue", "def", "del",
   "elif", "else", "except", "finally", "for", "from", "global", "if", "import", "in", "is", "lambda", "nonlocal",
   "not", "or", "pass", "raise", "return", "try", "while", "with", "yield"]

/-- The text starts with a digit. -/
def startsWithDigit (s : String) : Bool :=
  match s.toList with
  | [] => false
  | c :: _ => c.isDigit

/-- An identifier for a label, or for `fallback` if the label's slug is empty: `n_` goes before a digit, and `_`
after a keyword. -/
def identifier (label fallback : String) : String :=
  let base := if slug label = "" then slug fallback else slug label
  let base := if startsWithDigit base then "n_" ++ base else base
  if keywords.contains base then base ++ "_" else base

/-- The identifier `base` with a number. -/
def numbered (base : String) (k : Nat) : String := base ++ "_" ++ toString k

end Naming

/-- The identifiers in use. Each counts up the numbers handed out for it. -/
structure Names where
  /-- Identifiers with their counts; the first entry for an identifier holds. -/
  taken : List (String × Nat)
  deriving DecidableEq, Repr

namespace Names

def empty : Names := ⟨[]⟩

/-- The count of an identifier in use. -/
def count? (n : Names) (ident : String) : Option Nat := (n.taken.find? fun e => e.1 == ident).map (·.2)

def isTaken (n : Names) (ident : String) : Bool := (n.count? ident).isSome

/-- `ident` in use, with count `k`. -/
def mark (n : Names) (ident : String) (k : Nat) : Names := ⟨(ident, k) :: n.taken⟩

/-- Puts a fixed name in use. -/
def reserve (n : Names) (ident : String) : Names := if n.isTaken ident then n else n.mark ident 1

/-- The least number from `k` on whose numbered form of `base` is free. As many numbers as there are identifiers
in use, and one more, cannot all be taken. -/
def firstFree (n : Names) (base : String) (k : Nat) : Nat :=
  ((List.range' k (n.taken.length + 1)).find? fun j => !n.isTaken (Naming.numbered base j)).getD k

/-- A free identifier for a label, now in use. -/
def allocate (n : Names) (label fallback : String) : String × Names :=
  let base := Naming.identifier label fallback
  match n.count? base with
  | none => (base, n.mark base 1)
  | some k =>
    let j := n.firstFree base (k + 1)
    let ident := Naming.numbered base j
    (ident, (n.mark base j).mark ident 1)

/-- Identifiers for a list of labels with their fallbacks, in order. -/
def allocateAll (n : Names) : List (String × String) → List String × Names
  | [] => ([], n)
  | l :: ls =>
    let (ident, n) := n.allocate l.1 l.2
    let (idents, n) := n.allocateAll ls
    (ident :: idents, n)

end Names

end AgentFlow
