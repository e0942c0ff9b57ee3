import TablePlan.Table.Json
/-! Documents as they are declared: modules of tables, whose schemas, rows and queries have not been
looked at. -/
namespace TablePlan

structure SchemaDecl where
  keys : List String
  types : List String
  deriving DecidableEq, Repr

structure TableDecl where
  name : String
  tableClass : String := "DATA"
  kind : String := ""
  schema : Option SchemaDecl := none
  rows : Option (List Row) := none
  query : Option Clause := none
  deriving DecidableEq, Repr

structure ModuleDecl where
  name : String
  moduleClass : Option String := none
  kind : Option String := none
  tables : List TableDecl := []
  deriving DecidableEq, Repr

structure DocumentDecl where
  dialect : Option String := none
  modules : List ModuleDecl := []
  deriving DecidableEq, Repr

def strings : Nat → List Char → Except JsonFault (List String × List Char) :=
  Json.aSequence fun _ => Json.aString

namespace SchemaDecl

structure Draft where
  keys : Option (List String) := none
  types : Option (List String) := none

def Draft.read (room : Nat) (key : String) (d : Draft) (s : List Char) :
    Except JsonFault (Draft × List Char) :=
  match key with
  | "KEYS" | "FIELD_NAMES" => do
    let (keys, s) ← Json.field "KEYS" d.keys (strings room) s
    return ({ d with keys }, s)
  | "TYPES" | "FIELD_TYPES" => do
    let (types, s) ← Json.field "TYPES" d.types (strings room) s
    return ({ d with types }, s)
  | _ => do return (d, ← Json.otherField s)

def byName (room : Nat) (s : List Char) : Except JsonFault (SchemaDecl × List Char) := do
  let (d, s) ← Json.objectOf .keep (Draft.read room) {} s
  return (⟨← Json.due "KEYS" d.keys, ← Json.due "TYPES" d.types⟩, s)

def byPlace (room : Nat) (s : List Char) : Except JsonFault (SchemaDecl × List Char) := do
  let (keys, s) ← Json.place true (strings room) s
  let keys ← Json.duePlace 0 "RawSchema" 2 keys
  let (types, s) ← Json.place false (strings room) s
  return (⟨keys, ← Json.duePlace 1 "RawSchema" 2 types⟩, s)

def readJson : Nat → List Char → Except JsonFault (SchemaDecl × List Char) :=
  Json.aRecord "RawSchema" byName byPlace

end SchemaDecl

namespace TableDecl

structure Draft where
  name : Option String := none
  tableClass : Option String := none
  kind : Option String := none
  schema : Option (Option SchemaDecl) := none
  rows : Option (Option (List Row)) := none
  query : Option (Option Clause) := none

def Draft.read (room : Nat) (key : String) (d : Draft) (s : List Char) :
    Except JsonFault (Draft × List Char) :=
  match key with
  | "NAME" => do
    let (name, s) ← Json.field key d.name Json.aString s
    return ({ d with name }, s)
  | "CLASS" => do
    let (tableClass, s) ← Json.field key d.tableClass Json.aString s
    return ({ d with tableClass }, s)
  | "KIND" => do
    let (kind, s) ← Json.field key d.kind Json.aString s
    return ({ d with kind }, s)
  | "SCHEMA" => do
    let (schema, s) ← Json.field key d.schema (Json.optional (SchemaDecl.readJson room)) s
    return ({ d with schema }, s)
  | "INSTANCE" => do
    let (rows, s) ← Json.field key d.rows (Json.optional (readRows room)) s
    return ({ d with rows }, s)
  | "QUERY" => do
    let (query, s) ← Json.field key d.query (Json.optional (Clause.readJson room)) s
    return ({ d with query }, s)
  | _ => do return (d, ← Json.otherField s)

def Draft.finish (d : Draft) (name : String) : TableDecl where
  name := name
  tableClass := d.tableClass.getD "DATA"
  kind := d.kind.getD ""
  schema := d.schema.join
  rows := d.rows.join
  query := d.query.join

def byName (room : Nat) (s : List Char) : Except JsonFault (TableDecl × List Char) := do
  let (d, s) ← Json.objectOf .keep (Draft.read room) {} s
  return (d.finish (← Json.due "NAME" d.name), s)

def byPlace (room : Nat) (s : List Char) : Except JsonFault (TableDecl × List Char) := do
  let (name, s) ← Json.place true Json.aString s
  let name ← Json.duePlace 0 "RawTable" 6 name
  let (tableClass, s) ← Json.place false Json.aString s
  let (kind, s) ← Json.place false Json.aString s
  let (schema, s) ← Json.place false (Json.optional (SchemaDecl.readJson room)) s
  let (rows, s) ← Json.place false (Json.optional (readRows room)) s
  let (query, s) ← Json.place false (Json.optional (Clause.readJson room)) s
  return (Draft.finish { tableClass, kind, schema, rows, query } name, s)

def readJson : Nat → List Char → Except JsonFault (TableDecl × List Char) :=
  Json.aRecord "RawTable" byName byPlace

end TableDecl

namespace ModuleDecl

structure Draft where
  name : Option String := none
  moduleClass : Option (Option String) := none
  kind : Option (Option String) := none
  tables : Option (List TableDecl) := none

def tableList : Nat → List Char → Except JsonFault (List TableDecl × List Char) :=
  Json.aSequence TableDecl.readJson

def Draft.read (room : Nat) (key : String) (d : Draft) (s : List Char) :
    Except JsonFault (Draft × List Char) :=
  match key with
  | "NAME" => do
    let (name, s) ← Json.field key d.name Json.aString s
    return ({ d with name }, s)
  | "CLASS" => do
    let (moduleClass, s) ← Json.field key d.moduleClass (Json.optional Json.aString) s
    return ({ d with moduleClass }, s)
  | "KIND" => do
    let (kind, s) ← Json.field key d.kind (Json.optional Json.aString) s
    return ({ d with kind }, s)
  | "TABLES" => do
    let (tables, s) ← Json.field key d.tables (tableList room) s
    return ({ d with tables }, s)
  | _ => do return (d, ← Json.otherField s)

def Draft.finish (d : Draft) (name : String) : ModuleDecl :=
  ⟨name, d.moduleClass.join, d.kind.join, d.tables.getD []⟩

def byName (room : Nat) (s : List Char) : Except JsonFault (ModuleDecl × List Char) := do
  let (d, s) ← Json.objectOf .keep (Draft.read room) {} s
  return (d.finish (← Json.due "NAME" d.name), s)

def byPlace (room : Nat) (s : List Char) : Except JsonFault (ModuleDecl × List Char) := do
  let (name, s) ← Json.place true Json.aString s
  let name ← Json.duePlace 0 "RawModule" 4 name
  let (moduleClass, s) ← Json.place false (Json.optional Json.aString) s
  let (kind, s) ← Json.place false (Json.optional Json.aString) s
  let (tables, s) ← Json.place false (tableList room) s
  return (Draft.finish { moduleClass, kind, tables } name, s)

def readJson : Nat → List Char → Except JsonFault (ModuleDecl × List Char) :=
  Json.aRecord "RawModule" byName byPlace

end ModuleDecl

namespace DocumentDecl

structure Draft where
  dialect : Option (Option String) := none
  modules : Option (List ModuleDecl) := none

def moduleList : Nat → List Char → Except JsonFault (List ModuleDecl × List Char) :=
  Json.aSequence ModuleDecl.readJson

def Draft.read (room : Nat) (key : String) (d : Draft) (s : List Char) :
    Except JsonFault (Draft × List Char) :=
  match key with
  | "SYNTAX" => do
    let (dialect, s) ← Json.field key d.dialect (Json.optional Json.aString) s
    return ({ d with dialect }, s)
  | "MODULES" => do
    let (modules, s) ← Json.field key d.modules (moduleList room) s
    return ({ d with modules }, s)
  | _ => do return (d, ← Json.otherField s)

def Draft.finish (d : Draft) : DocumentDecl := ⟨d.dialect.join, d.modules.getD []⟩

def byName (room : Nat) (s : List Char) : Except JsonFault (DocumentDecl × List Char) := do
  let (d, s) ← Json.objectOf .keep (Draft.read room) {} s
  return (d.finish, s)

def byPlace (room : Nat) (s : List Char) : Except JsonFault (DocumentDecl × List Char) := do
  let (dialect, s) ← Json.place true (Json.optional Json.aString) s
  let (modules, s) ← Json.place false (moduleList room) s
  return (Draft.finish { dialect, modules }, s)

def readJson : Nat → List Char → Except JsonFault (DocumentDecl × List Char) :=
  Json.aRecord "RawDocument" byName byPlace

def ofText (source : String) : Except JsonFault DocumentDecl :=
  Json.readWhole (readJson Json.nestingRoom) source

end DocumentDecl
end TablePlan
