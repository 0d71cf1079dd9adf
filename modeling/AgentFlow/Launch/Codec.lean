import AgentFlow.Launch.Basic
import AgentFlow.Graph.Codec

/-!
# Stored launch records

The JSON form of a launch record. Empty tool filters and node lists are left out.
-/

namespace AgentFlow

def Transport.name : Transport → String
  | .stdio => "stdio-process"

def Transport.ofName? (s : String) : Option Transport := if s = "stdio-process" then some .stdio else none

namespace LaunchConfig

def toJson (c : LaunchConfig) : Json :=
  .obj ([("enabled", .bool c.enabled), ("transport", .str c.transport.name), ("command", .str c.command),
      ("args", .strs c.args), ("env", c.env.toJson), ("packageRef", .str c.package),
      ("credential", .str c.credential)]
    ++ Json.member? "profileRef" .str c.profile
    ++ [("name", .str c.name)]
    ++ (if c.toolFilter.isEmpty then [] else [("toolFilter", .strs c.toolFilter)])
    ++ (if c.sources.isEmpty then [] else [("sourceNodes", .strs c.sources)]))

def ofFields? (fs : Json.Fields) : Option LaunchConfig := do
  let enabled ← fs.get 0 ["enabled"] .refused Json.bool?
  let transport ← fs.get 1 ["transport"] (.default .stdio) (Json.word? Transport.ofName?)
  let command ← fs.get 2 ["command"] .refused Json.str?
  let args ← fs.get 3 ["args"] .refused (Json.list? Json.str?)
  let env ← fs.get 4 ["env"] (.default .empty) TextMap.ofJson?
  let package ← fs.get 5 ["packageRef"] .refused Json.str?
  let credential ← fs.get 6 ["credential"] (.default "") Json.str?
  let profile ← fs.optText 7 ["profileRef"] (.default none)
  let name ← fs.get 8 ["name"] (.default "") Json.str?
  let toolFilter ← fs.get 9 ["toolFilter"] (.default []) (Json.list? Json.str?)
  let sources ← fs.get 10 ["sourceNodes"] (.default []) (Json.list? Json.str?)
  some ⟨enabled, transport, command, args, env, package, credential, profile, name, toolFilter, sources⟩

def ofJson? (v : Json) : Option LaunchConfig := (v.fields? 11).bind ofFields?

end LaunchConfig

end AgentFlow
