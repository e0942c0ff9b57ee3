import TablePlan.Clause.Basic
import TablePlan.Fault
import TablePlan.Json.Reader
/-! Clauses as JSON values. A number or a truth value is a literal of its JSON text, and null is no
clause. -/
namespace TablePlan.Clause

mutual

def ofJson? : Json → Option Clause
  | .null => none
  | .bool b => some (.literal (Json.bool b).toText)
  | .number n => some (.literal (Json.number n).toText)
  | .string s => some (.literal s)
  | .array items => (ofItems? items).map .list
  | .object members => (ofMembers? members).map .object

def ofItems? : List Json → Option (List Clause)
  | [] => some []
  | item :: rest => do
    let clause ← ofJson? item
    let clauses ← ofItems? rest
    return clause :: clauses

def ofMembers? : List (String × Json) → Option (List (String × Clause))
  | [] => some []
  | (key, value) :: rest => do
    let clause ← ofJson? value
    let clauses ← ofMembers? rest
    return (key, clause) :: clauses

end

mutual

def toJson : Clause → Json
  | .literal text => .string text
  | .list items => .array (itemsToJson items)
  | .object entries => .object (entriesToJson entries)

def itemsToJson : List Clause → List Json
  | [] => []
  | item :: rest => item.toJson :: itemsToJson rest

def entriesToJson : List (String × Clause) → List (String × Json)
  | [] => []
  | (key, predicate) :: rest => (key, predicate.toJson) :: entriesToJson rest

end

def ofJson (value : Json) : Except Fault Clause :=
  match ofJson? value with
  | some clause => .ok clause
  | none => .error (.format .nullClause)

def ofText (source : String) : Except Fault Clause :=
  match Json.ofText? source with
  | .ok value => ofJson value
  | .error fault => .error (.json fault)

def toText (clause : Clause) : String := clause.toJson.toText

end TablePlan.Clause
