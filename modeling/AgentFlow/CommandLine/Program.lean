import AgentFlow.CommandLine.Arguments
import AgentFlow.Compiler
import AgentFlow.Graph.Editor
import AgentFlow.Settings
import AgentFlow.Verify.Run

/-!
# The program

What the program does with a line of arguments, as a function of the files, variables and services around it.
-/

namespace AgentFlow.CommandLine

/-- What surrounds the program; services are reached by a transport with states of type `τ`. -/
structure Host (τ : Type) where
  /-- The text of a file, or the system's words for why there is none. -/
  read : String → Except String String
  lookup : String → Option String
  transport : τ → HttpRequest → Exchange × τ
  /-- The random draw for a wait. -/
  draw : Nat → Float := fun _ => 0.0
  /-- How long a run took, in words. -/
  elapsed : String := "0ns"

/-- What the program leaves behind. -/
structure Printed where
  exit : Nat := 0
  out : String := ""
  err : String := ""
  deriving DecidableEq, Repr

namespace Printed

/-- More for the reader of the output. -/
def say (p : Printed) (text : String) : Printed := { p with out := p.out ++ text }

/-- More for the reader of the log. -/
def log (p : Printed) (text : String) : Printed := { p with err := p.err ++ text }

/-- The program gives up. -/
def fail (p : Printed) (message : String) : Printed := { p.log ("\nError: " ++ message ++ "\n") with exit := 1 }

end Printed

variable {τ : Type}

/-- The settings of a file, with what the environment says. -/
def loadSettings (host : Host τ) (path : Option String) : Except String Settings :=
  let settings : Except String Settings :=
    match path with
    | none => .ok {}
    | some path =>
      match host.read path with
      | .error e => .error ("Failed to load settings: Could not read settings file '" ++ path ++ "': " ++ e)
      | .ok text =>
        match Settings.parse? text with
        | none => .error "Failed to load settings: Failed to parse settings JSON: invalid"
        | some s => .ok s
  settings.map fun s => s.override host.lookup

/-- The graph of a text: a document of the editor, or else a stored graph. -/
def readGraph (text : String) : Except String Graph :=
  match EditorFlow.parse? text with
  | some flow =>
    match flow.toGraph with
    | .ok g => .ok g
    | .error e => .error ("Failed to convert graph: " ++ e.message)
  | none =>
    match Graph.parse? text with
    | some g => .ok g
    | none => .error "Failed to parse graph JSON: invalid"

/-- The graph and the framework that a command names. -/
def loadGraph (host : Host τ) (args : CompileArgs) : Except String (Graph × Framework) :=
  match Framework.ofUserName? args.target with
  | none => .error (Framework.unknownMessage args.target)
  | some f =>
    match host.read args.graphPath with
    | .error e => .error ("Failed to read graph file '" ++ args.graphPath ++ "': " ++ e)
    | .ok text => (readGraph text).map fun g => (g, f)

/-- Compiles as a command says. -/
def compileWith (args : CompileArgs) (g : Graph) (f : Framework) : Except String CompiledAgent :=
  let c := Compiler.ofGraph g f
  let c := if args.protocol then c.withProtocol true else c
  let c :=
    match args.credential with
    | none => c
    | some credential => c.withCredential credential
  if args.strict then
    match c.compileStrict with
    | .ok a => .ok a
    | .error defects =>
      .error ("Graph validation failed:\n" ++ "\n".intercalate (defects.map fun d => "  - " ++ d.message))
  else .ok c.compile

/-- The report on a verification. -/
def reportText (r : VerificationResult) : String :=
  "Verification: valid=" ++ (if r.isValid then "true" else "false") ++ " fixes=" ++ toString r.metadata.fixesApplied
    ++ " confidence=" ++ toString r.metadata.confidence ++ " method=" ++ r.metadata.method.title ++ "\n"
    ++ String.join (r.findings.map fun f =>
        "  [" ++ (if f.fixed then "fixed" else "open") ++ "] " ++ f.category.name
          ++ (match f.line with
              | none => ""
              | some l => ":" ++ toString l)
          ++ " " ++ f.severity.title ++ ": " ++ f.message ++ "\n")
    ++ String.join (r.suggestions.map fun s => "  hint: " ++ s ++ "\n")

/-- The chat service as a repairer. -/
def chatRepairer (host : Host τ) (s : Settings) (state : Limiter × τ) (r : RepairRequest) : Reply × (Limiter × τ) :=
  let (result, state) := Chat.repair s.fixer s.limiter 0 0 host.transport state r
  match result with
  | .ok answer => ({ outcome := .answered answer }, state)
  | .error e => ({ outcome := .failed e }, state)

/-- Verifies code, with the chat service if `model` says so. -/
def verifyWith (host : Host τ) (s : Settings) (o : VerifyOptions) (model : Bool) (code : String) (t : τ) :
    VerificationResult × τ :=
  let world : Surroundings (Limiter × τ) :=
    { repairer := if model then some (chatRepairer host s) else none, draw := host.draw }
  let (result, run) := verify world o code ({}, t)
  (result, run.repairer.2)

/-- Compiles, verifies and submits a graph. -/
def runGraph (host : Host τ) (s : Settings) (args : CompileArgs) (t : τ) : Printed × τ :=
  let p : Printed := {}
  match loadGraph host args with
  | .error m => (p.fail m, t)
  | .ok (g, f) =>
    match compileWith args g f with
    | .error m => (p.fail m, t)
    | .ok agent =>
      let o := { s.verify with checks := .ofGraph g, credential := s.verify.credential.or args.credential }
      let (result, t) := verifyWith host s o s.fixer.apiKey.isSome agent.code t
      let p := p.log (reportText result)
      let agent := { agent with code := result.code }
      let world : Execution.Surroundings τ :=
        { bounds := s.limiter
          transport := fun t r =>
            let (exchange, t) := host.transport t r
            ({ exchange := exchange }, t)
          draw := host.draw }
      let (outcome, state) := Execution.run s.execution world agent.files { transport := t }
      match outcome with
      | .error e => (p.fail e.userMessage, state.transport)
      | .ok report =>
        let p := p.say (report.output ++ "\n")
        let p :=
          match report.error with
          | none => p
          | some e => p.log ("Execution error: " ++ e ++ "\n")
        let p :=
          match report.openUrl with
          | none => p
          | some url => p.say ("Open: " ++ url ++ "\n")
        (p.say ("\nStatus: " ++ report.details.status ++ " (exit code " ++ toString report.details.exitCode
          ++ ") in " ++ host.elapsed ++ "\n"), state.transport)

/-- Carries out a command. -/
def invoke (host : Host τ) (i : Invocation) (t : τ) : Printed × τ :=
  let p : Printed := {}
  match loadSettings host i.settings with
  | .error m => (p.fail m, t)
  | .ok s =>
    match i.command with
    | .compile args =>
      match (loadGraph host args).bind fun (g, f) => compileWith args g f with
      | .error m => (p.fail m, t)
      | .ok agent => (p.say agent.code, t)
    | .verify path model =>
      match host.read path with
      | .error e => (p.fail ("Failed to read source file '" ++ path ++ "': " ++ e), t)
      | .ok code =>
        let (result, t) := verifyWith host s s.verify model code t
        ((p.log (reportText result)).say result.code, t)
    | .run args => runGraph host s args t

/-- Carries out a line of arguments. -/
def perform (host : Host τ) (args : List String) (t : τ) : Printed × τ :=
  match request (host.lookup Launch.credentialVariable) args with
  | .usage => ({ exit := 2, err := "error: unusable arguments\n\nFor more information, try '--help'.\n" }, t)
  | .show text => ({ out := text }, t)
  | .invoke i => invoke host i t

end AgentFlow.CommandLine
