import TablePlan.Clause.Json
import TablePlan.Schema.Json
import TablePlan.Table.Basic
/-! Parts of tables as JSON values. -/
namespace TablePlan

def rowsToJson (rows : List Row) : Json := .array (rows.map .array)

def readRows : Nat → List Char → Except JsonFault (List Row × List Char) :=
  Json.aSequence (Json.aSequence (Json.readValue .keep))

def Clause.readJson (room : Nat) (s : List Char) : Except JsonFault (Clause × List Char) := do
  let (value, s) ← Json.readValue .keep room s
  match ofJson? value with
  | some clause => return (clause, s)
  | none => throw (.misfit .nullClause)

def TableClass.toJson (c : TableClass) : Json := .string c.keyword

def TableClass.readJson (s : List Char) : Except JsonFault (TableClass × List Char) := do
  let (word, s) ← Json.aString s
  return (ofKeyword word, s)

namespace Instance

def toJson (i : Instance) : Json :=
  .object [("schema", i.schema.toJson), ("rows", rowsToJson i.rows)]

structure Draft where
  schema : Option Schema := none
  rows : Option (List Row) := none

def Draft.read (room : Nat) (key : String) (d : Draft) (s : List Char) :
    Except JsonFault (Draft × List Char) :=
  match key with
  | "schema" => do
    let (schema, s) ← Json.field key d.schema (Schema.readJson room) s
    return ({ d with schema }, s)
  | "rows" => do
    let (rows, s) ← Json.field key d.rows (readRows room) s
    return ({ d with rows }, s)
  | _ => do return (d, ← Json.otherField s)

def byName (room : Nat) (s : List Char) : Except JsonFault (Instance × List Char) := do
  let (d, s) ← Json.objectOf .keep (Draft.read room) {} s
  return (⟨← Json.due "schema" d.schema, ← Json.due "rows" d.rows⟩, s)

def byPlace (room : Nat) (s : List Char) : Except JsonFault (Instance × List Char) := do
  let (schema, s) ← Json.place true (Schema.readJson room) s
  let schema ← Json.duePlace 0 "Instance" 2 schema
  let (rows, s) ← Json.place false (readRows room) s
  return (⟨schema, ← Json.duePlace 1 "Instance" 2 rows⟩, s)

def readJson : Nat → List Char → Except JsonFault (Instance × List Char) :=
  Json.aRecord "Instance" byName byPlace

end Instance
end TablePlan
