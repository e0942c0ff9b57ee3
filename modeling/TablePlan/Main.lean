import TablePlan.CommandLine.Run
/-! The program: reads files for the commands and prints what they answer. -/
namespace TablePlan.CommandLine

def readFile (path : String) : IO (Except FileFault String) := do
  try
    return .ok (← IO.FS.readFile path)
  catch
    | .inappropriateType _ code _ => return .error (if code = 21 then .isFolder else .notFolder)
    | .invalidArgument .. => return .error .nameTooLong
    | _ => return .error .missing

def userConfig : IO (Option String) := do
  match ← IO.getEnv "XDG_CONFIG_HOME", ← IO.getEnv "HOME" with
  | some base, home =>
    if base.startsWith "/" then return some (base ++ "/mosdex/config.toml")
    return home.map (· ++ "/.config/mosdex/config.toml")
  | none, home => return home.map (· ++ "/.config/mosdex/config.toml")

def execute (arguments : List String) : IO UInt32 := do
  let surroundings : Surroundings IO :=
    { configVariable := ← IO.getEnv "MOSDEX_CONFIG"
      userConfig := ← userConfig
      read := readFile }
  let output ← run surroundings arguments
  IO.print output.stdout
  IO.eprint output.stderr
  return output.code.toUInt32

end TablePlan.CommandLine

def main (arguments : List String) : IO UInt32 := TablePlan.CommandLine.execute arguments
