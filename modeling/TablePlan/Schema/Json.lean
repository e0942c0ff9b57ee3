import TablePlan.Json.Record
import TablePlan.Schema.Basic
/-! Schemas as JSON objects: the keyword of its type under the name of each field. -/
namespace TablePlan

namespace FieldType

def toJson (type : FieldType) : Json := .string type.keyword

def ofVariant (name : String) : Except JsonFault FieldType :=
  match ofKeyword? name with
  | some type => .ok type
  | none => .error (.misfit (.unknownVariant name (all.map keyword)))

def readJson (room : Nat) (s : List Char) : Except JsonFault (FieldType × List Char) :=
  match Json.skipSpace s with
  | [] => .error .truncated
  | '"' :: s => do
    let (name, s) ← Json.readString .keep s
    return (← ofVariant name, s)
  | '\x7b' :: s => Json.deeper room fun _ => do
    let (name, s) ← Json.aKey s
    let type ← ofVariant name
    let s := Json.skipSpace (← Json.colon s)
    let s ← match s with
      | 'n' :: s => Json.word "ull".toList s
      | s => .error (Json.unfit .unit s)
    return (type, ← Json.closeObject s)
  | _ => .error .malformed

end FieldType

namespace Schema

def toJson (s : Schema) : Json := .object (s.fields.map fun (name, type) => (name, type.toJson))

def putAll (s : Schema) : List (String × FieldType) → Schema
  | [] => s
  | (name, type) :: rest => putAll (s.put name type) rest

def ofFields (fields : List (String × FieldType)) : Schema := empty.putAll fields

def readJson (room : Nat) (s : List Char) : Except JsonFault (Schema × List Char) := do
  let (fields, s) ← Json.aMap FieldType.readJson room s
  return (ofFields fields, s)

end Schema
end TablePlan
