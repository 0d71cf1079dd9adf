import AgentFlow.Check.Detect

/-!
# Repairs by pattern

Some findings have a repair that needs no judgement. `PatternFix.apply` makes those that the given findings ask for,
one after the other, and says what it did.
-/

namespace AgentFlow

/-- The code after a round of repairs, and what they were. -/
structure PatternFix where
  code : String
  applied : List String := []
  deriving DecidableEq, Repr

namespace PatternFix

/-! ### Inserting an import -/

/-- The number of lines up to the last one that satisfies `p`. -/
def upToLast? (p : List Char → Bool) : List (List Char) → Option Nat
  | [] => none
  | l :: ls =>
    match upToLast? p ls with
    | some n => some (n + 1)
    | none => if p l then some 1 else none

/-- The number of lines of the docstring that the lines begin with; none if there is no docstring, or no end of
it. -/
def docstringLines (ls : List (List Char)) : Nat :=
  match ls with
  | [] => 0
  | first :: rest =>
    let start := Text.trimStart first
    match ["\"\"\"", "'''"].find? fun q => Text.startsWith q start with
    | none => 0
    | some q =>
      if Text.contains q (start.drop 3) then 1
      else
        match rest.findIdx? (Text.contains q) with
        | none => 0
        | some i => i + 2

/-- The lines with an import after the last one that is not indented, or after the docstring. -/
def insertImport (line : String) (code : String) : String :=
  let ls := Text.lines code.toList
  let n := (upToLast? Symbol.isImportLine ls).getD (docstringLines ls)
  String.ofList (Text.unlines (ls.take n ++ [line.toList] ++ ls.drop n))

/-! ### The repairs -/

/-- One of the findings that are still open has the id. -/
def asks (findings : List Finding) (id : String) : Bool := findings.any fun f => !f.fixed && f.id == id

/-- Lines joined again; even no lines make one newline. -/
def rejoin (ls : List (List Char)) : String :=
  if ls.isEmpty then "\n" else String.ofList (Text.unlines ls)

/-- Four blanks for each tab at the start of a line. -/
def spaceTabs (line : List Char) : List Char :=
  (line.takeWhile (· = '\t')).flatMap (fun _ => "    ".toList) ++ line.dropWhile (· = '\t')

def removeFences (findings : List Finding) (fix : PatternFix) : PatternFix :=
  if asks findings "markdown-fence" && Source.hasFences fix.code then
    ⟨Source.clean fix.code, fix.applied ++ ["Removed Markdown code fences"]⟩
  else fix

def replaceTabs (findings : List Finding) (fix : PatternFix) : PatternFix :=
  if asks findings "tab-indentation" then
    ⟨rejoin ((Text.lines fix.code.toList).map spaceTabs),
      fix.applied ++ ["Replaced tab indentation with spaces"]⟩
  else fix

/-- A header with its colon, and any other line as it is. -/
def closeHeader (line : List Char) : List Char :=
  if (Pattern.missingColon? line).isSome then Text.trimEnd line ++ [':'] else line

def addColons (findings : List Finding) (fix : PatternFix) : PatternFix :=
  let ls := Text.lines fix.code.toList
  if asks findings "missing-colon" && ls.any fun l => (Pattern.missingColon? l).isSome then
    ⟨rejoin (ls.map closeHeader), fix.applied ++ ["Added missing ':' after definitions"]⟩
  else fix

/-- Imports a symbol that is used and not brought in. -/
def importSymbol (fix : PatternFix) (s : Symbol) : PatternFix :=
  let ls := Text.lines fix.code.toList
  if (Symbol.usedAt s.name ls).isSome && !Symbol.imported s.name ls then
    ⟨insertImport ("from " ++ s.module ++ " import " ++ s.name) fix.code,
      fix.applied ++ ["Imported " ++ s.name ++ " from " ++ s.module]⟩
  else fix

/-- The code brings in the event loop library. -/
def importsLoop (code : String) : Bool := Symbol.imported "asyncio" (Text.lines code.toList)

def importLoop (fix : PatternFix) : PatternFix :=
  if Text.contains "asyncio." fix.code.toList && !importsLoop fix.code then
    ⟨insertImport "import asyncio" fix.code, fix.applied ++ ["Imported asyncio"]⟩
  else fix

def addImports (findings : List Finding) (fix : PatternFix) : PatternFix :=
  if asks findings "missing-import" then importLoop (Symbol.known.foldl importSymbol fix) else fix

def putCredential (findings : List Finding) (credential : Option String) (fix : PatternFix) : PatternFix :=
  match Text.nonBlank credential with
  | none => fix
  | some key =>
    if asks findings "placeholder-credential" then
      ⟨String.ofList (Text.replace Launch.placeholderKey.toList key.toList fix.code.toList),
        fix.applied ++ ["Substituted the configured credential"]⟩
    else fix

/-- The code with an entry point that runs the main function. -/
def appendEntry (code : String) : String :=
  String.ofList (Text.trimEnd code.toList) ++ "\n\n\nif __name__ == \"__main__\":\n    " ++ Detect.runMain ++ "\n"

def addEntry (findings : List Finding) (fix : PatternFix) : PatternFix :=
  if asks findings "async-main-not-run" then
    let code := if importsLoop fix.code then fix.code else insertImport "import asyncio" fix.code
    ⟨appendEntry code, fix.applied ++ ["Added asyncio.run(main()) entry point"]⟩
  else fix

/-- All repairs that the findings ask for. -/
def apply (code : String) (findings : List Finding) (credential : Option String) : PatternFix :=
  addEntry findings
    (putCredential findings credential
      (addImports findings
        (addColons findings
          (replaceTabs findings (removeFences findings { code := code })))))

end PatternFix

end AgentFlow
