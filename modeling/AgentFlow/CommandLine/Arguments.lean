import AgentFlow.Text.Basic

/-!
# Arguments of the program

Options may stand before and after the positional arguments, with their value in the same argument or in the next
one; after `--` everything is positional. An option that is given twice, is unknown or lacks its value makes the whole
line unusable.
-/

namespace AgentFlow.CommandLine

/-- An option: its names, and whether it takes a value. -/
structure OptionSpec where
  long : String
  short : Option Char := none
  takesValue : Bool := false
  deriving DecidableEq, Repr

/-- What was read of a line of arguments. -/
structure Parsed where
  /-- The options given, by their long names, with their values. -/
  options : List (String × String) := []
  positional : List String := []
  deriving DecidableEq, Repr

/-- Why reading a line stops. -/
inductive Stop where
  /-- Help is asked for. -/
  | help
  /-- The version is asked for. -/
  | version
  /-- The line is unusable. -/
  | usage
  deriving DecidableEq, Repr

namespace Parsed

def value? (p : Parsed) (long : String) : Option String := (p.options.find? fun o => o.1 == long).map (·.2)

def given (p : Parsed) (long : String) : Bool := p.options.any fun o => o.1 == long

/-- Notes an option. Help and version stop the reading, and no option comes twice. -/
def note (p : Parsed) (long value : String) : Except Stop Parsed :=
  if long = "help" then .error .help
  else if long = "version" then .error .version
  else if p.given long then .error .usage
  else .ok { p with options := p.options ++ [(long, value)] }

end Parsed

/-- The argument looks like an option. -/
def looksLikeOption (arg : String) : Bool := Text.startsWith "-" arg.toList && arg != "-"

/-- The parts before and after the first `=`; the second is none without one. -/
def splitValue (cs : List Char) : String × Option String :=
  match cs.dropWhile (· != '=') with
  | [] => (String.ofList cs, none)
  | _ :: value => (String.ofList (cs.takeWhile (· != '=')), some (String.ofList value))

/-- The option that an argument names, with the value in the same argument. -/
def option? (specs : List OptionSpec) (arg : String) : Option (OptionSpec × Option String) :=
  match arg.toList with
  | '-' :: '-' :: cs =>
    let (long, value) := splitValue cs
    (specs.find? fun s => s.long == long).map fun s => (s, value)
  | '-' :: c :: cs =>
    (specs.find? fun s => s.short == some c).map fun s =>
      match cs with
      | [] => (s, none)
      | '=' :: value => (s, some (String.ofList value))
      | value => (s, some (String.ofList value))
  | _ => none

/-- Reads arguments; `stopAtFirst` leaves all from the first positional argument on as positional. -/
def parse (specs : List OptionSpec) (stopAtFirst : Bool) : Parsed → List String → Except Stop Parsed
  | p, [] => .ok p
  | p, arg :: rest =>
    if arg = "--" then .ok { p with positional := p.positional ++ rest }
    else if looksLikeOption arg then
      match option? specs arg with
      | none => .error .usage
      | some (s, value) =>
        if s.takesValue then
          match value, rest with
          | some v, rest =>
            match p.note s.long v with
            | .error e => .error e
            | .ok p => parse specs stopAtFirst p rest
          | none, v :: rest =>
            if looksLikeOption v then .error .usage
            else
              match p.note s.long v with
              | .error e => .error e
              | .ok p => parse specs stopAtFirst p rest
          | none, [] => .error .usage
        else
          match p.note s.long "" with
          | .error e => .error e
          | .ok p => if value.isSome then .error .usage else parse specs stopAtFirst p rest
    else if stopAtFirst then .ok { p with positional := arg :: rest }
    else parse specs stopAtFirst { p with positional := p.positional ++ [arg] } rest

/-! ### The commands -/

/-- What a graph is compiled with. -/
structure CompileArgs where
  graphPath : String
  target : String
  protocol : Bool
  strict : Bool
  credential : Option String
  deriving DecidableEq, Repr

/-- A command. -/
inductive Command where
  | compile (args : CompileArgs)
  | verify (path : String) (model : Bool)
  | run (args : CompileArgs)
  deriving DecidableEq, Repr

/-- A command with the file of settings to use. -/
structure Invocation where
  settings : Option String
  command : Command
  deriving DecidableEq, Repr

/-- What a line of arguments asks for. -/
inductive Request where
  | invoke (i : Invocation)
  /-- A text is shown. -/
  | show (text : String)
  | usage
  deriving DecidableEq, Repr

/-- The file that a command works on. -/
def Command.path : Command → String
  | .compile args => args.graphPath
  | .verify path _ => path
  | .run args => args.graphPath

/-- The files that may be read. -/
def Request.paths : Request → List String
  | .invoke i => i.settings.toList ++ [i.command.path]
  | _ => []

def settingsOption : OptionSpec := ⟨"settings", some 's', true⟩

def helpOption : OptionSpec := ⟨"help", some 'h', false⟩

def versionOption : OptionSpec := ⟨"version", some 'V', false⟩

def compileOptions : List OptionSpec :=
  [⟨"target", some 't', true⟩, ⟨"protocol", none, false⟩, ⟨"strict", none, false⟩, ⟨"credential", none, true⟩,
   settingsOption, helpOption]

def verifyOptions : List OptionSpec := [⟨"ai", none, false⟩, settingsOption, helpOption]

def versionText : String := "flowsmith 0.1.0\n"

def mainHelp : String :=
  "Compiles agent graphs into framework code, then verifies and runs it\n\n"
    ++ "Usage: flowsmith-cli [OPTIONS] <COMMAND>\n\n"
    ++ "Commands:\n"
    ++ "  compile  Compile a graph and print the generated agent module\n"
    ++ "  verify   Verify and repair an existing Python file\n"
    ++ "  run      Compile, verify, and submit a graph to the execution service\n"
    ++ "  help     Print this message or the help of the given subcommand(s)\n\n"
    ++ "Options:\n"
    ++ "  -s, --settings <SETTINGS>  Optional settings JSON file\n"
    ++ "  -h, --help                 Print help\n"
    ++ "  -V, --version              Print version\n"

/-- Help on a command that compiles. -/
def compileHelp (about name : String) (credential : Option String) : String :=
  about ++ "\n\nUsage: flowsmith-cli " ++ name ++ " [OPTIONS] <GRAPH_PATH>\n\n"
    ++ "Arguments:\n  <GRAPH_PATH>  Path to the graph JSON (editor format or canonical)\n\n"
    ++ "Options:\n"
    ++ "  -s, --settings <SETTINGS>      Optional settings JSON file\n"
    ++ "  -t, --target <TARGET>          Target framework [default: adk]\n"
    ++ "      --protocol                 Force tool-server support on\n"
    ++ "      --strict                   Reject graphs with dangling edges, self loops, or duplicate ids\n"
    ++ "      --credential <CREDENTIAL>  Tool-server credential [env: SMITHERY_API_KEY=" ++ credential.getD "" ++ "]\n"
    ++ "  -h, --help                     Print help\n"

def verifyHelp : String :=
  "Verify and repair an existing Python file\n\n"
    ++ "Usage: flowsmith-cli verify [OPTIONS] <PATH>\n\n"
    ++ "Arguments:\n  <PATH>  Path to the Python source\n\n"
    ++ "Options:\n"
    ++ "  -s, --settings <SETTINGS>  Optional settings JSON file\n"
    ++ "      --ai                   Ask the configured language model for repairs\n"
    ++ "  -h, --help                 Print help\n"

/-- Help on a command, if there is one of that name. -/
def helpOn? (credential : Option String) (name : String) : Option String :=
  if name = "compile" then
    some (compileHelp "Compile a graph and print the generated agent module" name credential)
  else if name = "run" then
    some (compileHelp "Compile, verify, and submit a graph to the execution service" name credential)
  else if name = "verify" then some verifyHelp
  else if name = "help" then some mainHelp
  else none

/-- The command `name` with its arguments; `credential` is the one that the environment holds. -/
def command (credential : Option String) (settings : Option String) (name : String) (rest : List String) :
    Request :=
  let specs := if name = "verify" then verifyOptions else compileOptions
  match parse specs false {} rest with
  | .error .help =>
    match helpOn? credential name with
    | some text => .show text
    | none => .usage
  | .error _ => .usage
  | .ok p =>
    let settings := (p.value? "settings").or settings
    match p.positional with
    | [path] =>
      if name = "verify" then .invoke ⟨settings, .verify path (p.given "ai")⟩
      else
        let args : CompileArgs :=
          ⟨path, (p.value? "target").getD "adk", p.given "protocol", p.given "strict",
            (p.value? "credential").or credential⟩
        .invoke ⟨settings, if name = "run" then .run args else .compile args⟩
    | _ => .usage

/-- What a line of arguments asks for. -/
def request (credential : Option String) (args : List String) : Request :=
  match parse [settingsOption, helpOption, versionOption] true {} args with
  | .error .help => .show mainHelp
  | .error .version => .show versionText
  | .error .usage => .usage
  | .ok p =>
    match p.positional with
    | [] => .usage
    | name :: rest =>
      if name = "help" then
        match rest with
        | [] => .show mainHelp
        | [topic] =>
          match helpOn? credential topic with
          | some text => .show text
          | none => .usage
        | _ => .usage
      else if ["compile", "verify", "run"].contains name then command credential (p.value? "settings") name rest
      else .usage

end AgentFlow.CommandLine
