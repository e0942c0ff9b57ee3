import TablePlan.Catalog.Plan
import TablePlan.Dependency.Dot
import TablePlan.Document.Load
/-! What is reported of a document: the order of its tables, their dependencies, statements and
schemas, and whether it can be resolved. -/
namespace TablePlan

def lines (items : List String) : String := String.join (items.map (· ++ "\n"))

def Schema.report (s : Schema) : String :=
  lines (s.fields.map fun (name, type) => name ++ ": " ++ type.keyword)

def Statement.report (s : Statement) : String :=
  "-- " ++ s.table ++ " [" ++ s.schema.toText ++ "]\n" ++ s.sql ++ "\n\n"

def DependencyMap.report (m : DependencyMap) : String :=
  lines (m.entries.map fun (table, names) => table ++ ": " ++ ", ".intercalate names)

def cyclesReport : List (List String) → String
  | [] => ""
  | cycles =>
    "Dependency cycles:\n" ++ lines (cycles.map fun names => "  - " ++ ", ".intercalate names)

namespace Document

def scanned (limits : Limits) (d : Document) : Except Fault Resolver :=
  (d.catalog.resolver limits).scan

def orderReport (limits : Limits) (d : Document) : Except Fault String := do
  return lines (← d.catalog.order limits)

def depsReport (limits : Limits) (dot : Bool) (d : Document) : Except Fault String := do
  let r ← d.scanned limits
  return if dot then (Graph.ofDependencies r.dependencies).dot else r.dependencies.report

def sqlReport (limits : Limits) (table : String) (d : Document) : Except Fault String := do
  match (← d.catalog.require table).query? with
  | some query => return (← query.sql limits) ++ "\n"
  | none => throw (.format (.noQuery table))

def schemaReport (table : String) (d : Document) : Except Fault String := do
  match (← d.catalog.require table).schema with
  | some s => return s.report
  | none => throw (.format (.noSchema table))

def planReport (limits : Limits) (d : Document) : Except Fault String := do
  return String.join ((← d.catalog.plan limits).map Statement.report)

end Document

structure Check where
  cycles : List (List String)
  result : Except Fault Unit

def Document.check (limits : Limits) (d : Document) : Check :=
  match d.scanned limits with
  | .error fault => ⟨[], .error fault⟩
  | .ok r =>
    { cycles := (Graph.ofDependencies r.dependencies).cycles
      result := match r.resolveAll with
        | .ok _ => .ok ()
        | .error fault => .error fault }

end TablePlan
