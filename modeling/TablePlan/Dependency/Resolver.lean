import TablePlan.Dependency.Scan
import TablePlan.Dependency.Walk
/-! Resolvers: a set of tables with their queries, what scanning them has found, and how far they
have been resolved. A request that fails leaves the order as it was. -/
namespace TablePlan

structure Resolver where
  tables : List (String × Option Clause)
  distinct : (Keyed.names tables).Nodup
  limits : Limits := {}
  dependencies : DependencyMap := .empty
  progress : Progress := {}

namespace Resolver

def firstRepeat? (seen : List String) : List String → Option String
  | [] => none
  | name :: rest => if name ∈ seen then some name else firstRepeat? (name :: seen) rest

theorem noRepeat {seen names : List String} (none : firstRepeat? seen names = none) :
    names.Nodup ∧ ∀ name ∈ names, name ∉ seen := by
  induction names generalizing seen with
  | nil => simp
  | cons name rest ih =>
    unfold firstRepeat? at none
    split at none
    · contradiction
    · rename_i fresh
      obtain ⟨distinct, apart⟩ := ih none
      refine ⟨List.nodup_cons.2 ⟨?_, distinct⟩, ?_⟩
      · exact fun again => apart name again (List.mem_cons_self ..)
      · intro other inside
        rcases List.mem_cons.1 inside with rfl | inside
        · exact fresh
        · exact fun known => apart other inside (List.mem_cons_of_mem _ known)

def ofTables (tables : List (String × Option Clause)) : Except Fault Resolver :=
  match found : firstRepeat? [] (Keyed.names tables) with
  | some name => .error (.format (.repeatedTable name))
  | none => .ok { tables, distinct := (noRepeat found).1 }

def scanTables (limits : Limits) (m : DependencyMap) :
    List (String × Option Clause) → Except Fault DependencyMap
  | [] => .ok m
  | (_, none) :: rest => scanTables limits m rest
  | (table, some query) :: rest => do
    scanTables limits (m.put table (← query.dependencies limits 0)) rest

def scan (r : Resolver) : Except Fault Resolver := do
  return { r with dependencies := ← scanTables r.limits .empty r.tables }

def resolveAll (r : Resolver) : Except Fault Resolver := do
  return { r with
    progress := ← r.dependencies.resolveTables r.limits (Keyed.names r.tables) r.progress }

def resolveFor (r : Resolver) (table : String) (depth : Nat) : Except Fault Resolver := do
  return { r with progress := ← r.dependencies.resolveTable r.limits table depth r.progress }

def order (r : Resolver) : List String := r.progress.resolved

inductive Request where
  | scan
  | resolveAll
  | resolveFor (table : String) (depth : Nat)
  | resolve
  | limit (limits : Limits)
  deriving DecidableEq, Repr

def attempt (r : Resolver) : Except Fault Resolver → Except Fault Unit × Resolver
  | .ok next => (.ok (), next)
  | .error fault => (.error fault, r)

-- What a scan has found stays when the resolution fails.
def resolve (r : Resolver) : Except Fault Unit × Resolver :=
  match r.scan with
  | .error fault => (.error fault, r)
  | .ok scanned => scanned.attempt scanned.resolveAll

def perform (r : Resolver) : Request → Except Fault Unit × Resolver
  | .scan => r.attempt r.scan
  | .resolveAll => r.attempt r.resolveAll
  | .resolveFor table depth => r.attempt (r.resolveFor table depth)
  | .resolve => r.resolve
  | .limit limits => (.ok (), { r with limits })

end Resolver
end TablePlan
