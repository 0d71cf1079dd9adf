import AgentFlow.CommandLine.Program

/-!
# The executable

Files and variables come from the system. There is no network: every call of a service ends as a closed connection.
-/

open AgentFlow

/-- Reads a file; what is said of a missing one are the system's own words. -/
def AgentFlow.CommandLine.readText (path : String) : IO (Except String String) := do
  try
    return .ok (← IO.FS.readFile path)
  catch
    | .noFileOrDirectory .. => return .error "No such file or directory (os error 2)"
    | e => return .error (toString e)

def main (args : List String) : IO UInt32 := do
  let names := [Launch.credentialVariable, Settings.apiKeyVariable, Settings.baseUrlVariable, Settings.endpointVariable]
  let env ← names.mapM fun name => return (name, ← IO.getEnv name)
  let request := CommandLine.request (env.lookup Launch.credentialVariable).join args
  let files ← request.paths.mapM fun path => return (path, ← CommandLine.readText path)
  let host : CommandLine.Host Unit :=
    { read := fun path => (files.lookup path).getD (.error "No such file or directory (os error 2)")
      lookup := fun name => (env.lookup name).join
      transport := fun _ _ => (.dropped "connection closed", ()) }
  let (p, _) := CommandLine.perform host args ()
  (← IO.getStderr).putStr p.err
  (← IO.getStdout).putStr p.out
  return p.exit.toUInt32
