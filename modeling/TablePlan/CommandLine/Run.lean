import TablePlan.CommandLine.Arguments
import TablePlan.Document.Report
import TablePlan.Settings
/-! Running a command: its settings, its document, and what it prints. Nothing is logged: the
program runs with its log turned off, so that the error stream holds the reports alone. -/
namespace TablePlan.CommandLine

structure Surroundings (m : Type → Type) where
  configVariable : Option String
  localConfig : String := "mosdex.toml"
  userConfig : Option String
  read : String → m (Except FileFault String)

structure Output where
  code : Nat := 0
  stdout : String := ""
  stderr : String := ""
  deriving DecidableEq, Repr

def Output.ofFault (fault : Fault) : Output :=
  { code := 1, stderr := "Error: " ++ fault.message ++ "\n" }

def Output.ofResult : Except Fault String → Output
  | .ok stdout => { stdout }
  | .error fault => .ofFault fault

def Output.ofCheck (file : String) (tables : Nat) (found : Check) : Output :=
  match found.result with
  | .error fault =>
    { code := 1, stderr := cyclesReport found.cycles ++ (ofFault fault).stderr }
  | .ok () =>
    { stdout := "OK: " ++ file ++ " is valid (" ++ toString tables ++ " tables)\n",
      stderr := cyclesReport found.cycles }

def Command.answer (limits : Limits) (file : String) (d : Document) : Command → Output
  | .order => .ofResult (d.orderReport limits)
  | .deps dot => .ofResult (d.depsReport limits dot)
  | .sql table => .ofResult (d.sqlReport limits table)
  | .schema table => .ofResult (d.schemaReport table)
  | .plan => .ofResult (d.planReport limits)
  | .check => .ofCheck file d.catalog.tables.length (d.check limits)

variable {m : Type → Type} [Monad m]

def settingsOf (path : String) : Except FileFault String → Except SettingsFault Settings
  | .ok source => Settings.ofText source
  | .error .isFolder => .error (.unreadable .isFolder)
  | .error _ => .error (.notFound path)

def firstSettings (w : Surroundings m) : List String → m (Except SettingsFault Settings)
  | [] => return .ok {}
  | path :: rest => do
    match settingsOf path (← w.read path) with
    | .error (.notFound _) => firstSettings w rest
    | result => return result

def settings (w : Surroundings m) (config : Option String) :
    m (Except SettingsFault Settings) :=
  match config <|> w.configVariable with
  | some path => do return settingsOf path (← w.read path)
  | none => firstSettings w (w.localConfig :: w.userConfig.toList)

def load (path : String) : Except FileFault String → Except Fault Document
  | .ok source => Document.ofText source
  | .error cause => .error (.unreadable path cause)

def usage : String :=
  "Usage: mosdex [--config <FILE>] <order|deps|sql|schema|plan|check> <FILE> [--dot] " ++
    "[--table <NAME>]\n"

def Invocation.run (i : Invocation) (w : Surroundings m) : m Output := do
  match ← settings w i.config with
  | .error fault =>
    return { code := 1, stderr := "Error loading settings: " ++ fault.message ++ "\n" }
  | .ok settings =>
    match load i.file (← w.read i.file) with
    | .error fault => return .ofFault fault
    | .ok document => return i.command.answer settings.limits i.file document

def run (w : Surroundings m) (arguments : List String) : m Output :=
  match request none arguments with
  | none => return { code := 2, stderr := usage }
  | some .help => return { stdout := usage }
  | some .version => return { stdout := "mosdex 0.1.0\n" }
  | some (.run invocation) => invocation.run w

end TablePlan.CommandLine
