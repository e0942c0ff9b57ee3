import TablePlan.Json.Reader
/-! Reading JSON values of a wanted form. A value is checked while it is read, so that of two faults
the first in the text counts. -/
namespace TablePlan.Json

variable {α : Type}

def found : List Char → Except JsonFault Found
  | [] => .error .truncated
  | 'n' :: s => do
    let _ ← word "ull".toList s
    return .null
  | 't' :: s => do
    let _ ← word "rue".toList s
    return .bool true
  | 'f' :: s => do
    let _ ← word "alse".toList s
    return .bool false
  | '"' :: s => do return .text (← readString .keep s).1
  | '[' :: _ => .ok .sequence
  | '\x7b' :: _ => .ok .map
  | c :: s => if c = '-' ∨ c.isDigit then do return .number (← readNumber .keep (c :: s)).1
    else .error .malformed

def unfit (wanted : Wanted) (s : List Char) : JsonFault :=
  match found s with
  | .ok found => .misfit (.wrongType found wanted)
  | .error fault => fault

def aString (s : List Char) : Except JsonFault (String × List Char) :=
  match skipSpace s with
  | '"' :: s => readString .keep s
  | s => .error (unfit .text s)

def aKey (s : List Char) : Except JsonFault (String × List Char) :=
  match skipSpace s with
  | [] => .error .truncated
  | '"' :: s => readString .keep s
  | _ => .error .malformed

def optional (one : List Char → Except JsonFault (α × List Char)) (s : List Char) :
    Except JsonFault (Option α × List Char) :=
  match skipSpace s with
  | 'n' :: s => do return (none, ← word "ull".toList s)
  | s => do
    let (found, s) ← one s
    return (some found, s)

def deeper (room : Nat) (body : Nat → Except JsonFault (α × List Char)) :
    Except JsonFault (α × List Char) :=
  match room with
  | 0 => .error .malformed
  | room + 1 => body room

def aSequence (one : Nat → List Char → Except JsonFault (α × List Char)) (room : Nat)
    (s : List Char) : Except JsonFault (List α × List Char) :=
  match skipSpace s with
  | '[' :: s => deeper room fun room => listOf (one room) s
  | s => .error (unfit .sequence s)

def aMap (one : Nat → List Char → Except JsonFault (α × List Char)) (room : Nat) (s : List Char) :
    Except JsonFault (List (String × α) × List Char) :=
  match skipSpace s with
  | '\x7b' :: s => deeper room fun room => objectOf .keep (member (one room)) [] s
  | s => .error (unfit .map s)

def aRecord (title : String) (byName byPlace : Nat → List Char → Except JsonFault (α × List Char))
    (room : Nat) (s : List Char) : Except JsonFault (α × List Char) :=
  match skipSpace s with
  | '\x7b' :: s => deeper room fun room => byName room s
  | '[' :: s => deeper room fun room => do
    let (found, s) ← byPlace room s
    return (found, ← closeList s)
  | s => .error (unfit (.record title) s)

-- A field that is there already is refused before its value.
def field (name : String) (held : Option α) (one : List Char → Except JsonFault (α × List Char))
    (s : List Char) : Except JsonFault (Option α × List Char) :=
  match held with
  | some _ => .error (.misfit (.duplicateField name))
  | none => do
    let (found, s) ← one (← colon s)
    return (some found, s)

def otherField (s : List Char) : Except JsonFault (List Char) := do skipValue (← colon s)

def due (name : String) : Option α → Except JsonFault α
  | some found => .ok found
  | none => .error (.misfit (.missingField name))

def place (first : Bool) (one : List Char → Except JsonFault (α × List Char)) (s : List Char) :
    Except JsonFault (Option α × List Char) := do
  match ← nextItem first s with
  | none => return (none, s)
  | some s =>
    let (found, s) ← one s
    return (some found, s)

def duePlace (index : Nat) (title : String) (size : Nat) : Option α → Except JsonFault α
  | some found => .ok found
  | none => .error (.misfit (.tooShort index title size))

end TablePlan.Json
