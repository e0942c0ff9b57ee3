import TablePlan.Json.Basic
/-! JSON text in its compact form: no blanks, and escapes only where a string needs them. -/
namespace TablePlan

def Number.layout : Decimal.Layout := ⟨-5, 15⟩

def Number.written : Number → List Char
  | .int n => if n < 0 then '-' :: Decimal.digitsOf n.natAbs else Decimal.digitsOf n.natAbs
  | .real x => x.write layout

namespace Json

def controlDigits (c : Char) : List Char :=
  ['0', '0', Nat.digitChar (c.toNat / 16), Nat.digitChar (c.toNat % 16)]

def escaped (c : Char) : List Char :=
  if c = '"' then ['\\', '"']
  else if c = '\\' then ['\\', '\\']
  else if c = '\x08' then ['\\', 'b']
  else if c = '\x0c' then ['\\', 'f']
  else if c = '\n' then ['\\', 'n']
  else if c = '\r' then ['\\', 'r']
  else if c = '\t' then ['\\', 't']
  else if c.toNat < 0x20 then '\\' :: 'u' :: controlDigits c
  else [c]

def writtenText (s : String) : List Char := '"' :: s.toList.flatMap escaped ++ ['"']

def commaed : List (List Char) → List Char
  | [] => []
  | [text] => text
  | text :: rest => text ++ ',' :: commaed rest

mutual

def written : Json → List Char
  | .null => "null".toList
  | .bool true => "true".toList
  | .bool false => "false".toList
  | .number n => n.written
  | .string s => writtenText s
  | .array items => '[' :: commaed (writtenItems items) ++ [']']
  | .object members => '\x7b' :: commaed (writtenMembers members) ++ ['\x7d']

def writtenItems : List Json → List (List Char)
  | [] => []
  | item :: rest => item.written :: writtenItems rest

def writtenMembers : List (String × Json) → List (List Char)
  | [] => []
  | (key, value) :: rest => (writtenText key ++ ':' :: value.written) :: writtenMembers rest

end

def toText (value : Json) : String := String.ofList value.written

end Json
end TablePlan
