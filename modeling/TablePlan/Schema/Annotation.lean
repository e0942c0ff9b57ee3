import TablePlan.Schema.Declaration
import TablePlan.Text.Blank
/-! Annotations of selected fields: a literal that ends in `name -- TYPE` names a field and its
type. -/
namespace TablePlan.Annotation

def startsName (c : Char) : Bool := c.isAlpha || c = '_' || c = '$'

def continuesName (c : Char) : Bool := startsName c || c.isDigit

def someBlanks : List Char → Option (List Char)
  | [] => none
  | c :: rest => if Text.isBlank c then some (Text.trimStart rest) else none

-- The keyword is all of the last word, and the name the longest one before the dashes.
def find? (item : List Char) : Option (List Char × List Char) := do
  let back := Text.trimStart item.reverse
  let keyword := (back.takeWhile continuesName).reverse
  let back ← someBlanks (back.dropWhile continuesName)
  match back with
  | '-' :: '-' :: back =>
    let back ← someBlanks back
    let name := (back.takeWhile continuesName).reverse.dropWhile Char.isDigit
    if (keyword.head?.any startsName) && !name.isEmpty then some (name, keyword) else none
  | _ => none

def read (item : String) : Except Fault (String × FieldType) :=
  match find? item.toList with
  | some (name, keyword) => do
    return (String.ofList name, ← FieldType.ofKeyword (String.ofList keyword))
  | none => .error (.format (.unannotated item))

end TablePlan.Annotation
