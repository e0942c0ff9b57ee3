import TablePlan.Catalog.Basic
import TablePlan.Clause.Sql
import TablePlan.Schema.Selection
/-! The statements that fill the tables of a catalog, in the order of their dependencies. -/
namespace TablePlan

structure Statement where
  table : String
  sql : String
  schema : Schema
  deriving DecidableEq, Repr

-- A query that is too deep is found before one that selects nothing.
def Statement.ofQuery (limits : Limits) (table : String) (query : Clause) :
    Except Fault Statement := do
  let sql ← query.sql limits
  let schema ← Schema.ofQuery query
  return { table, sql, schema }

namespace Catalog

def query? (c : Catalog) (name : String) : Option Clause := (c.find? name).bind Table.query?

def statements (c : Catalog) (limits : Limits) : List String → Except Fault (List Statement)
  | [] => .ok []
  | name :: rest =>
    match c.query? name with
    | none => c.statements limits rest
    | some query => do
      let statement ← Statement.ofQuery limits name query
      let others ← c.statements limits rest
      return statement :: others

def plan (c : Catalog) (limits : Limits) : Except Fault (List Statement) := do
  c.statements limits (← c.order limits)

end Catalog
end TablePlan
