import TablePlan.Limits
import TablePlan.Toml.Reader
/-! Settings: the ceiling of the resolver and the filter of the log. -/
namespace TablePlan

structure Settings where
  maxDepth : Nat := 7
  filter : String := "info"
  deriving DecidableEq, Repr

inductive SettingsFault where
  | notFound (path : String)
  | unreadable (cause : FileFault)
  | malformed
  | invalid
  deriving DecidableEq, Repr

def SettingsFault.message : SettingsFault → String
  | .notFound path => "Config file not found: " ++ path
  | .unreadable cause => "Failed to read config file: " ++ cause.message
  | .malformed => "Failed to parse config file: malformed text"
  | .invalid => "Invalid configuration: resolver.max_depth must be at least 1"

namespace Settings

def limits (s : Settings) : Limits := ⟨s.maxDepth⟩

-- A section is a table that may have the setting, or a list that may begin with it.
def setting {α : Type} (name : String) (default : α) (one : Toml → Option α) :
    Option Toml → Option α
  | none => some default
  | some (.table entries) =>
    match Keyed.find? name entries with
    | none => some default
    | some v => one v
  | some (.array []) => some default
  | some (.array (v :: _)) => one v
  | some (.moment _) => some default
  | some _ => none

def depth : Toml → Option Nat
  | .integer n => if 0 ≤ n ∧ n.toNat < Decimal.twoTo 64 then some n.toNat else none
  | _ => none

def filterText : Toml → Option String
  | .string s => some s
  | _ => none

def ofToml (entries : List (String × Toml)) : Option Settings := do
  let maxDepth ← setting "max_depth" 7 depth (Keyed.find? "resolver" entries)
  let filter ← setting "filter" "info" filterText (Keyed.find? "logging" entries)
  some { maxDepth, filter }

def ofText (source : String) : Except SettingsFault Settings :=
  match (Toml.ofText? source).bind ofToml with
  | none => .error .malformed
  | some settings => if settings.maxDepth = 0 then .error .invalid else .ok settings

end Settings
end TablePlan
