import TablePlan.Json.Lexis
import TablePlan.Keyed
/-! Reading JSON text. A value may hold others to a given number of levels; `room` counts those
that are left. -/
namespace TablePlan.Json

variable {α σ : Type}

def nextItem (first : Bool) (s : List Char) : Except JsonFault (Option (List Char)) :=
  match skipSpace s with
  | [] => .error .truncated
  | ']' :: _ => .ok none
  | c :: rest =>
    if first then .ok (some (c :: rest))
    else if c = ',' then
      match skipSpace rest with
      | [] => .error .truncated
      | ']' :: _ => .error .malformed
      | rest => .ok (some rest)
    else .error .malformed

def closeList (s : List Char) : Except JsonFault (List Char) :=
  match skipSpace s with
  | [] => .error .truncated
  | ']' :: rest => .ok rest
  | _ => .error .malformed

def nextKey (first : Bool) (s : List Char) : Except JsonFault (Option (List Char)) :=
  match skipSpace s with
  | [] => .error .truncated
  | '\x7d' :: _ => .ok none
  | c :: rest =>
    if first then if c = '"' then .ok (some rest) else .error .malformed
    else if c = ',' then
      match skipSpace rest with
      | [] => .error .truncated
      | '"' :: rest => .ok (some rest)
      | _ => .error .malformed
    else .error .malformed

def closeObject (s : List Char) : Except JsonFault (List Char) :=
  match skipSpace s with
  | [] => .error .truncated
  | '\x7d' :: rest => .ok rest
  | _ => .error .malformed

def colon (s : List Char) : Except JsonFault (List Char) :=
  match skipSpace s with
  | [] => .error .truncated
  | ':' :: rest => .ok rest
  | _ => .error .malformed

-- Every item is at least one character, so that a bound of the text's length is never reached.
def items (one : List Char → Except JsonFault (α × List Char)) :
    Nat → Bool → List Char → Except JsonFault (List α × List Char)
  | 0, _, _ => .error .malformed
  | bound + 1, first, s => do
    match ← nextItem first s with
    | none => return ([], s)
    | some s =>
      let (item, s) ← one s
      let (rest, s) ← items one bound false s
      return (item :: rest, s)

def members (care : Care) (one : String → σ → List Char → Except JsonFault (σ × List Char)) :
    Nat → Bool → σ → List Char → Except JsonFault (σ × List Char)
  | 0, _, _, _ => .error .malformed
  | bound + 1, first, state, s => do
    match ← nextKey first s with
    | none => return (state, s)
    | some s =>
      let (key, s) ← readString care s
      let (state, s) ← one key state s
      members care one bound false state s

def listOf (one : List Char → Except JsonFault (α × List Char)) (s : List Char) :
    Except JsonFault (List α × List Char) := do
  let (found, s) ← items one (s.length + 1) true s
  return (found, ← closeList s)

def objectOf (care : Care) (one : String → σ → List Char → Except JsonFault (σ × List Char))
    (start : σ) (s : List Char) : Except JsonFault (σ × List Char) := do
  let (found, s) ← members care one (s.length + 1) true start s
  return (found, ← closeObject s)

def member (one : List Char → Except JsonFault (α × List Char)) (key : String)
    (held : List (String × α)) (s : List Char) :
    Except JsonFault (List (String × α) × List Char) := do
  let (value, s) ← one (← colon s)
  return (Keyed.put key value held, s)

def readValue (care : Care) (room : Nat) (s : List Char) : Except JsonFault (Json × List Char) :=
  match skipSpace s with
  | [] => .error .truncated
  | 'n' :: s => do return (.null, ← word "ull".toList s)
  | 't' :: s => do return (.bool true, ← word "rue".toList s)
  | 'f' :: s => do return (.bool false, ← word "alse".toList s)
  | '"' :: s => do
    let (found, s) ← readString care s
    return (.string found, s)
  | '[' :: s =>
    match room with
    | 0 => .error .malformed
    | room + 1 => do
      let (found, s) ← listOf (readValue care room) s
      return (.array found, s)
  | '\x7b' :: s =>
    match room with
    | 0 => .error .malformed
    | room + 1 => do
      let (found, s) ← objectOf care (member (readValue care room)) [] s
      return (.object found, s)
  | c :: s =>
    if c = '-' ∨ c.isDigit then do
      let (found, s) ← readNumber care (c :: s)
      return (.number found, s)
    else .error .malformed

def nestingRoom : Nat := 127

def skipValue (s : List Char) : Except JsonFault (List Char) := do
  return (← readValue .skip s.length s).2

def finish (s : List Char) : Except JsonFault Unit :=
  if (skipSpace s).isEmpty then .ok () else .error .malformed

def readWhole (one : List Char → Except JsonFault (α × List Char)) (source : String) :
    Except JsonFault α := do
  let (found, s) ← one source.toList
  finish s
  return found

def ofText? (source : String) : Except JsonFault Json :=
  readWhole (readValue .keep nestingRoom) source

end TablePlan.Json
