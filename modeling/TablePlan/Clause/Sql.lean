import TablePlan.Clause.Directive
import TablePlan.Limits
/-! The SQL text of a clause. A literal stands as it is, with a comma before its type comment; a
list has its items in a row, or one a line once a type comment is in it; an object has its
directives one a line, in parentheses. -/
namespace TablePlan.Clause

def comment : List Char := [' ', '-', '-']

def separatedComment : List Char := ',' :: comment

def hasPart (part : List Char) : List Char → Bool
  | [] => part.isEmpty
  | c :: rest => part.isPrefixOf (c :: rest) || hasPart part rest

def separateComments : List Char → List Char
  | ' ' :: '-' :: '-' :: rest => separatedComment ++ separateComments rest
  | c :: rest => c :: separateComments rest
  | [] => []

def literalSql (text : List Char) : List Char :=
  if hasPart separatedComment text then text else separateComments text

def gap (sofar : List Char) : List Char :=
  if hasPart separatedComment sofar then ['\n'] else [',', ' ']

def joinItems (sofar : List Char) : List (List Char) → List Char
  | [] => sofar
  | [text] => sofar ++ text
  | text :: rest => joinItems (sofar ++ text ++ gap (sofar ++ text)) rest

def endsLine (text : List Char) : Bool := text.getLast? = some '\n'

def joinLines : List (List Char) → List Char
  | [] => []
  | [text] => text
  | text :: rest => text ++ (if endsLine text then [] else ['\n']) ++ joinLines rest

-- A predicate is one level deeper than its object only if it is an object itself.
def predicateDepth (depth : Nat) : Clause → Nat
  | .object _ => depth + 1
  | _ => depth

mutual

def render (limits : Limits) (depth : Nat) : Clause → Except Fault (List Char)
  | .literal text => .ok (literalSql text.toList)
  | .list items => do
    let texts ← renderItems limits depth items
    return joinItems [] texts ++ ['\n']
  | .object entries => do
    limits.check depth (.translation depth)
    let texts ← renderEntries limits depth entries
    return '(' :: joinLines texts ++ [')', '\n']

def renderItems (limits : Limits) (depth : Nat) : List Clause → Except Fault (List (List Char))
  | [] => .ok []
  | item :: rest => do
    let text ← render limits depth item
    let texts ← renderItems limits depth rest
    return text :: texts

def renderEntries (limits : Limits) (depth : Nat) :
    List (String × Clause) → Except Fault (List (List Char))
  | [] => .ok []
  | (key, predicate) :: rest => do
    let text ← render limits (predicateDepth depth predicate) predicate
    let texts ← renderEntries limits depth rest
    return ((directiveOf key).toList ++ ' ' :: text) :: texts

end

def dropLast (c : Char) (text : List Char) : List Char :=
  if text.getLast? = some c then text.dropLast else text

def inner (text : List Char) : List Char :=
  match text with
  | '(' :: rest => if rest.getLast? = some ')' then rest.dropLast else text
  | _ => text

def sql (limits : Limits) (query : Clause) : Except Fault String := do
  let text := dropLast '\n' (← query.render limits 0)
  return String.ofList (if query.kind = .object then inner text else text)

end TablePlan.Clause
