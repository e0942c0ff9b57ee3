import TablePlan.Clause.Directive
import TablePlan.Limits
import TablePlan.Names
import TablePlan.Text.Blank
/-! The tables that a query reads from. Only literals under a table directive name tables, but the
objects under every directive are searched. -/
namespace TablePlan.Clause

def references (directive text : String) : List String :=
  let name := Text.trim text.toList
  if namesTables directive && !name.isEmpty then [String.ofList name] else []

mutual

-- An object in a list is at the depth of the object that holds the list.
def scan (limits : Limits) (depth : Nat) : Clause → Except Fault (List String)
  | .object entries => do
    limits.check depth (.scan depth)
    scanEntries limits depth entries
  | .literal _ => do
    limits.check depth (.scan depth)
    .error (.format (.notObject .literal))
  | .list _ => do
    limits.check depth (.scan depth)
    .error (.format (.notObject .list))

def scanEntries (limits : Limits) (depth : Nat) :
    List (String × Clause) → Except Fault (List String)
  | [] => .ok []
  | (key, predicate) :: rest => do
    let found ← match predicate with
      | .literal text => .ok (references (directiveOf key) text)
      | .object entries => scan limits (depth + 1) (.object entries)
      | .list items => scanItems limits depth key items
    let others ← scanEntries limits depth rest
    return found ++ others

def scanItems (limits : Limits) (depth : Nat) (key : String) :
    List Clause → Except Fault (List String)
  | [] => .ok []
  | item :: rest => do
    let found ← match item with
      | .literal text => .ok (references (directiveOf key) text)
      | .object entries => scan limits depth (.object entries)
      | .list _ => .error (.format (.nestedList key))
    let others ← scanItems limits depth key rest
    return found ++ others

end

def dependencies (limits : Limits) (depth : Nat) (query : Clause) : Except Fault (List String) := do
  return Names.ofList (← query.scan limits depth)

end TablePlan.Clause
