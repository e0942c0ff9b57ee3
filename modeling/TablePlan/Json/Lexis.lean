import TablePlan.Json.Fault
/-! The words of JSON text: blanks, literal names, strings and numbers. A value that is only passed
over is read with less care: its escapes need not name characters and its numbers need not be in
range. Digits of a number are kept as long as they make a whole number of 64 bits. What is left of
the whole digits counts as places, what is left of the fraction is passed over, and a number with
places is rounded once by itself and once more with its power of ten. -/
namespace TablePlan.Json

inductive Care where
  | keep
  | skip
  deriving DecidableEq, Repr

def isSpace (c : Char) : Bool := c = ' ' || c = '\t' || c = '\n' || c = '\r'

def skipSpace : List Char → List Char := List.dropWhile isSpace

def word : List Char → List Char → Except JsonFault (List Char)
  | [], s => .ok s
  | _ :: _, [] => .error .truncated
  | letter :: letters, c :: s => if letter = c then word letters s else .error .malformed

def hexValue (c : Char) : Option Nat :=
  if '0' ≤ c ∧ c ≤ '9' then some (c.toNat - '0'.toNat)
  else if 'a' ≤ c ∧ c ≤ 'f' then some (c.toNat - 'a'.toNat + 10)
  else if 'A' ≤ c ∧ c ≤ 'F' then some (c.toNat - 'A'.toNat + 10)
  else none

def hasFourBytes (s : List Char) : Bool :=
  4 ≤ (s.take 4).foldl (fun bytes c => bytes + c.utf8Size) 0

def unescaped (c : Char) : Option Char :=
  if c = '"' ∨ c = '\\' ∨ c = '/' then some c
  else if c = 'b' then some '\x08'
  else if c = 'f' then some '\x0c'
  else if c = 'n' then some '\n'
  else if c = 'r' then some '\r'
  else if c = 't' then some '\t'
  else none

/-- How far an escape has been read. A character past the first plane comes in two halves. -/
inductive Spot where
  | plain
  | slash
  | hex (due value : Nat) (lead : Option Nat)
  | leadRead (lead : Nat)
  | leadSlash (lead : Nat)
  deriving DecidableEq, Repr

def codeUnit (lead : Option Nat) (value : Nat) : Option (Char ⊕ Nat) :=
  let isTail := 0xdc00 ≤ value && value ≤ 0xdfff
  let isLead := 0xd800 ≤ value && value ≤ 0xdbff
  match lead with
  | some lead =>
    if isTail then some (.inl (Char.ofNat ((lead - 0xd800) * 0x400 + (value - 0xdc00) + 0x10000)))
    else none
  | none =>
    if isTail then none
    else if isLead then some (.inr value)
    else some (.inl (Char.ofNat value))

def textFrom (care : Care) : Spot → List Char → Except JsonFault (List Char × List Char)
  | _, [] => .error .truncated
  | spot, c :: rest =>
    let push (d : Char) := do
      let (chars, rest) ← textFrom care .plain rest
      return (d :: chars, rest)
    match spot with
    | .plain =>
      if c = '"' then .ok ([], rest)
      else if c = '\\' then textFrom care .slash rest
      else if c.toNat < 0x20 then .error .malformed
      else push c
    | .slash =>
      if c = 'u' then
        if hasFourBytes rest then textFrom care (.hex 4 0 none) rest else .error .truncated
      else match unescaped c with
        | some d => push d
        | none => .error .malformed
    | .hex due value lead =>
      match hexValue c with
      | none => .error .malformed
      | some digit =>
        let value := 16 * value + digit
        if 1 < due then textFrom care (.hex (due - 1) value lead) rest
        else if care = .skip then textFrom care .plain rest
        else match codeUnit lead value with
          | none => .error .malformed
          | some (.inl d) => push d
          | some (.inr lead) => textFrom care (.leadRead lead) rest
    | .leadRead lead => if c = '\\' then textFrom care (.leadSlash lead) rest else .error .malformed
    | .leadSlash lead =>
      if c ≠ 'u' then .error .malformed
      else if hasFourBytes rest then textFrom care (.hex 4 0 (some lead)) rest
      else .error .truncated

def readString (care : Care) (s : List Char) : Except JsonFault (String × List Char) := do
  let (chars, rest) ← textFrom care .plain s
  return (String.ofList chars, rest)

def digitDue (care : Care) (s : List Char) : JsonFault :=
  if care = .keep ∧ s = [] then .truncated else .malformed

def someDigits (care : Care) (s : List Char) : Except JsonFault (List Char × List Char) :=
  if (s.takeWhile Char.isDigit).isEmpty then .error (digitDue care s)
  else .ok (s.takeWhile Char.isDigit, s.dropWhile Char.isDigit)

def wholeDigits (care : Care) : List Char → Except JsonFault (List Char × List Char)
  | '0' :: rest =>
    if (rest.takeWhile Char.isDigit).isEmpty then .ok (['0'], rest) else .error .malformed
  | s => someDigits care s

def fractionDigits (care : Care) : List Char → Except JsonFault (List Char × List Char)
  | '.' :: rest => someDigits care rest
  | s => .ok ([], s)

def natOf (digits : List Char) : Nat :=
  digits.foldl (fun n c => 10 * n + (c.toNat - '0'.toNat)) 0

def power (care : Care) : List Char → Except JsonFault (Option Int × List Char)
  | c :: rest =>
    if c = 'e' ∨ c = 'E' then do
      let (sign, rest) : Int × List Char := match rest with
        | '+' :: rest => (1, rest)
        | '-' :: rest => (-1, rest)
        | _ => (1, rest)
      let (digits, rest) ← someDigits care rest
      return (some (sign * natOf digits), rest)
    else .ok (none, c :: rest)
  | [] => .ok (none, [])

def keptDigits (n : Nat) : List Char → Nat × List Char
  | [] => (n, [])
  | c :: rest =>
    let next := 10 * n + (c.toNat - '0'.toNat)
    if next < Decimal.twoTo 64 then keptDigits next rest else (n, c :: rest)

structure Spelling where
  negative : Bool
  digits : Nat
  scale : Int
  whole : Bool
  deriving Repr

def spelling (care : Care) (s : List Char) : Except JsonFault (Spelling × List Char) := do
  let (negative, s) := match s with
    | '-' :: rest => (true, rest)
    | _ => (false, s)
  let (whole, s) ← wholeDigits care s
  let (fraction, s) ← fractionDigits care s
  let (power, s) ← power care s
  let (digits, places) := keptDigits 0 whole
  let (digits, ignored) := keptDigits digits fraction
  let read : Int := fraction.length - ignored.length
  return (⟨negative, digits, power.getD 0 + places.length - read,
    fraction.isEmpty && power.isNone && places.isEmpty⟩, s)

-- The negative zero is no whole number.
def Spelling.value (n : Spelling) : Option Number :=
  if n.whole && !n.negative then some (.int n.digits)
  else if n.whole && n.negative && decide (0 < n.digits) && decide (n.digits ≤ Decimal.twoTo 63)
  then some (.int (-n.digits))
  else (Decimal.Binary64.ofParts n.negative n.digits n.scale).map .real

def readNumber (care : Care) (s : List Char) : Except JsonFault (Number × List Char) := do
  let (spelled, s) ← spelling care s
  match spelled.value with
  | some n => return (n, s)
  | none => if care = .skip then return (.int 0, s) else throw .malformed

end TablePlan.Json
