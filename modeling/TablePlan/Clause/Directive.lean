import TablePlan.Clause.Basic
/-! Directives. A key names a directive up to its first `#`; what follows only keeps the keys of an
object apart. -/
namespace TablePlan

def directiveOf (key : String) : String := String.ofList (key.toList.takeWhile (· ≠ '#'))

def tableDirectives : List String :=
  ["FROM", "JOIN", "NATURAL JOIN", "LEFT OUTER JOIN", "RIGHT OUTER JOIN", "FULL OUTER JOIN",
    "CROSS JOIN"]

def namesTables (directive : String) : Bool := tableDirectives.contains directive

namespace Clause

def clauses : Clause → List (String × Clause)
  | .object entries => entries.map fun (key, predicate) => (directiveOf key, predicate)
  | _ => []

def select? (query : Clause) : Option Clause := Keyed.find? "SELECT" query.clauses

end Clause
end TablePlan
