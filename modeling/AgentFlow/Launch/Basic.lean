import AgentFlow.Graph.Basic
import AgentFlow.Naming

/-!
# Launching tool servers

A tool server is a child process that talks over its standard streams. `LaunchSource` holds the launch fields as
authored and `LaunchConfig` the complete record that code is generated from; `LaunchSource.normalize` fills in the
built-in command, arguments and environment and puts the package and the credential in their places.
-/

namespace AgentFlow

/-- How a tool server is reached. -/
inductive Transport where
  | stdio
  deriving DecidableEq, Repr

/-- The complete launch record of a tool server. -/
structure LaunchConfig where
  enabled : Bool
  transport : Transport := .stdio
  command : String
  args : List String
  env : TextMap := .empty
  package : String
  credential : String := ""
  profile : Option String := none
  /-- Slug of the label of the node that the record comes from. -/
  name : String := ""
  /-- The tools that may be used; all of them if the list is empty. -/
  toolFilter : List String := []
  /-- The nodes that launch the server; none for a record that a caller supplies. -/
  sources : List String := []
  deriving DecidableEq

/-- Launch fields as authored. -/
structure LaunchSource where
  nodeId : Option String := none
  name : String := ""
  command : Option String := none
  args : Option LaunchArgs := none
  env : Option TextMap := none
  package : Option String := none
  credential : Option String := none
  profile : Option String := none
  toolFilter : List String := []
  deriving DecidableEq

namespace Launch

/-! ### Built-in values -/

def defaultCommand : String := "npx"

/-- Stands in the built-in arguments where the package belongs. -/
def placeholderPackage : String := "@smithery/placeholder-server"

/-- Stands in the built-in arguments where the credential belongs. -/
def placeholderKey : String := "placeholder_api_key"

/-- The flag before the credential. -/
def keyFlag : String := "--key"

/-- The variable that carries the credential into the server. -/
def credentialVariable : String := "SMITHERY_API_KEY"

def defaultArgs : List String := ["-y", "@smithery/cli@latest", "run", placeholderPackage, keyFlag, placeholderKey]

def defaultEnv : TextMap := TextMap.empty.insert "NODE_OPTIONS" "--no-warnings --experimental-fetch"

/-! ### Arguments -/

/-- The argument is a flag. -/
def isFlag (arg : String) : Bool := Text.startsWith "-" arg.toList

/-- The argument after the first `run`. -/
def afterRun? : List String → Option String
  | [] => none
  | a :: rest => if a = "run" then rest.head? else afterRun? rest

/-- The argument names a package. -/
def namesPackage (arg : String) : Bool := !isFlag arg && arg != placeholderPackage

/-- The first argument that names a package and is not the value of a key flag. -/
def positional? : List String → Option String
  | [] => none
  | [a] => if namesPackage a then some a else none
  | a :: b :: rest =>
    if a = keyFlag then positional? rest
    else if namesPackage a then some a
    else positional? (b :: rest)

/-- The package that a list of arguments runs: what stands after `run`, unless that is a flag; otherwise the first
positional argument. -/
def inferPackage (args : List String) : Option String :=
  match (afterRun? args).filter fun a => !isFlag a with
  | some p => some p
  | none => positional? args

/-- Leaves out every key flag, with the argument after it, once a key flag was seen. -/
def dropKeys : Bool → List String → List String
  | _, [] => []
  | seen, [a] => if a = keyFlag ∧ seen then [] else [a]
  | seen, a :: b :: rest =>
    if a = keyFlag then
      if seen then dropKeys true rest else a :: dropKeys true (b :: rest)
    else a :: dropKeys seen (b :: rest)

/-- Keeps the first key flag and leaves out all later ones, each with its value. -/
def firstKeyOnly (args : List String) : List String := dropKeys false args

/-- Every argument that is `old` becomes `new`. -/
def substitute (old new : String) (args : List String) : List String :=
  args.map fun a => if a = old then new else a

end Launch

open Launch

namespace LaunchSource

/-- The arguments as a list, or the built-in ones. -/
def argList (s : LaunchSource) : List String :=
  match s.args with
  | none => defaultArgs
  | some args => args.toList

/-- The package: the one given, unless it is blank, or the one that the arguments run. -/
def packageName (s : LaunchSource) : String :=
  ((Text.nonBlank s.package).or (inferPackage s.argList)).getD placeholderPackage

/-- The credential; empty if there is none. -/
def key (s : LaunchSource) : String := s.credential.getD ""

/-- The arguments with the package in place and one key flag at most. -/
def placedArgs (s : LaunchSource) : List String :=
  firstKeyOnly (substitute placeholderPackage s.packageName s.argList)

/-- The final arguments: a credential that they do not hold already takes the place of its placeholder. -/
def finalArgs (s : LaunchSource) : List String :=
  if s.key ≠ "" ∧ !s.placedArgs.contains s.key then substitute placeholderKey s.key s.placedArgs
  else s.placedArgs

/-- The environment: the built-in one, the credential, and the given variables, later ones winning. -/
def finalEnv (s : LaunchSource) : TextMap :=
  let env := if s.key ≠ "" then defaultEnv.insert credentialVariable s.key else defaultEnv
  env.extend (s.env.getD .empty)

/-- The complete record. -/
def normalize (s : LaunchSource) : LaunchConfig where
  enabled := true
  command := (Text.nonBlank s.command).getD defaultCommand
  args := s.finalArgs
  env := s.finalEnv
  package := s.packageName
  credential := s.key
  profile := s.profile
  name := s.name
  toolFilter := s.toolFilter
  sources := s.nodeId.toList

/-- The launch fields of a node. -/
def ofNode (n : Node) : LaunchSource where
  nodeId := some n.id
  name := Naming.slug n.label
  command := n.command
  args := n.args
  env := n.env
  package := n.package
  credential := n.credential
  profile := n.profile

/-- Every field that is missing comes from the other node. -/
def inherit (s : LaunchSource) (other : Node) : LaunchSource :=
  { s with
    command := s.command.or other.command
    args := s.args.or other.args
    env := s.env.or other.env
    package := s.package.or other.package
    credential := s.credential.or other.credential
    profile := s.profile.or other.profile }

end LaunchSource

namespace LaunchConfig

/-- The record for a graph that wants tool servers but describes none. -/
def builtIn (credential : Option String) : LaunchConfig :=
  LaunchSource.normalize { name := "protocol", credential := credential }

/-- Two records with the same key launch the same package in the same way. -/
def launchKey (c : LaunchConfig) : Transport × String × String := (c.transport, c.command, c.package)

/-- `ids` added to the nodes that launch the server, without repeating one. -/
def addSources (c : LaunchConfig) (ids : List String) : LaunchConfig :=
  { c with sources := ids.foldl (fun s id => if s.contains id then s else s ++ [id]) c.sources }

/-- Joins a record to a list: it lends its nodes to the first record with its key, or else comes last. -/
def absorb (kept : List LaunchConfig) (c : LaunchConfig) : List LaunchConfig :=
  match kept with
  | [] => [c]
  | k :: ks => if k.launchKey = c.launchKey then k.addSources c.sources :: ks else k :: absorb ks c

/-- One record for each key, the first one, with the nodes of all. -/
def dedupe (configs : List LaunchConfig) : List LaunchConfig := configs.foldl absorb []

end LaunchConfig

end AgentFlow
