import AskSql.CommandLine

/-! The program: looks at the files that a run needs, answers it, and prints the answer. -/

open AskSql Storage CommandLine

/-- The code by which the system says that what was to be read is a directory. -/
def isDirectoryCode : UInt32 := 21

/-- What the file system has at a path. -/
def lookAt (path : String) : IO PathState := do
  try
    return .file (← IO.FS.readFile path)
  catch
  | .noFileOrDirectory .. => return .missing
  | .inappropriateType _ code _ => return if code = isDirectoryCode then .directory else .missing
  | _ => return .unreadable

/-- The files that the configuration of a tenant is made of. -/
def lookAtAll (root tenant : String) : IO Files := do
  let paths := [clientDirectory root tenant, ontologyPath root, functionsPath root,
    datasourcePath root tenant, mappingsPath root tenant]
  let states ← paths.mapM fun path => do return (path, ← lookAt path)
  return fun path => (states.lookup path).getD .missing

def main (arguments : List String) : IO UInt32 := do
  let outcome ←
    match CommandLine.parse arguments with
    | .error fault => pure (usageOutcome fault)
    | .ok run => do
      let root := (run.options.configDir.or (← IO.getEnv "ASKSQL_CONFIG_DIR")).getD "config"
      let files ← lookAtAll root run.tenant
      pure (answer files root run)
  (← IO.getStdout).putStr outcome.output
  (← IO.getStderr).putStr outcome.errors
  return outcome.exitCode.toUInt32
