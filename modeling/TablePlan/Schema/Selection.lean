import TablePlan.Clause.Directive
import TablePlan.Schema.Annotation
/-! The schema that a query selects, read from the annotations of its first SELECT. -/
namespace TablePlan.Schema

def addSelected (s : Schema) : Clause → Except Fault Schema
  | .literal item => do
    let (name, type) ← Annotation.read item
    s.add name type
  | other => .error (.format (.selectItem other.kind))

def addAllSelected (s : Schema) : List Clause → Except Fault Schema
  | [] => .ok s
  | item :: rest => do addAllSelected (← s.addSelected item) rest

def ofQuery (query : Clause) : Except Fault Schema :=
  match query.select? with
  | none => .error (.format .noSelect)
  | some (.object _) => .error (.format .selectSubquery)
  | some (.list items) => empty.addAllSelected items
  | some (.literal item) => empty.addAllSelected [.literal item]

end TablePlan.Schema
