import TablePlan.Dependency.Basic
import TablePlan.Limits
/-! The walk that brings tables into an order in which each comes after all it depends on. -/
namespace TablePlan

structure Progress where
  resolved : List String := []
  active : List String := []
  deriving DecidableEq, Repr

inductive Standing where
  | notYetConsidered
  | unresolved
  | resolved
  deriving DecidableEq, Repr

namespace Progress

def standing (p : Progress) (table : String) : Standing :=
  if table ∈ p.resolved then .resolved
  else if table ∈ p.active then .unresolved
  else .notYetConsidered

def enter (p : Progress) (table : String) : Progress := { p with active := p.active ++ [table] }

def leave (p : Progress) (table : String) : Progress :=
  ⟨p.resolved ++ [table], p.active.erase table⟩

def cycleThrough (p : Progress) (table : String) : List String :=
  p.active.dropWhile (· ≠ table) ++ [table]

end Progress

namespace DependencyMap

def follow (visit : String → Progress → Except Fault Progress) (table : String) :
    List String → Progress → Except Fault Progress
  | [], p => .ok p
  | dependency :: rest, p =>
    match p.standing dependency with
    | .resolved => follow visit table rest p
    | .unresolved => .error (.circular table dependency (p.cycleThrough dependency))
    | .notYetConsidered => do follow visit table rest (← visit dependency p)

/-- Resolves a table. A path holds no name twice, so `room` for all names is never used up. -/
def visit (m : DependencyMap) (limits : Limits) :
    Nat → String → Nat → Progress → Except Fault Progress
  | 0, table, _, p => .error (.circular table table (p.cycleThrough table))
  | room + 1, table, depth, p => do
    limits.check depth (.resolution table depth)
    if table ∈ p.resolved then return p
    let p ← follow (fun dependency => m.visit limits room dependency (depth + 1)) table
      (m.of table) (p.enter table)
    return p.leave table

def resolveTable (m : DependencyMap) (limits : Limits) (table : String) (depth : Nat)
    (p : Progress) : Except Fault Progress :=
  m.visit limits (m.names.length + 1) table depth p

def resolveTables (m : DependencyMap) (limits : Limits) :
    List String → Progress → Except Fault Progress
  | [], p => .ok p
  | table :: rest, p =>
    if table ∈ p.resolved then m.resolveTables limits rest p
    else do m.resolveTables limits rest (← m.resolveTable limits table 0 p)

end DependencyMap
end TablePlan
