import TablePlan.Catalog.Basic
import TablePlan.Document.Declaration
import TablePlan.Schema.Selection
/-! Documents whose tables have been checked and gathered in a catalog. -/
namespace TablePlan

structure ModuleInfo where
  name : String
  moduleClass : Option String
  kind : Option String
  tables : List String
  deriving DecidableEq, Repr

structure Document where
  dialect : Option String
  modules : List ModuleInfo
  catalog : Catalog
  deriving DecidableEq, Repr

def Fault.within (table : String) : Fault → Fault
  | .format cause => .format (.inTable table cause)
  | fault => fault

namespace TableDecl

def declaredSchema (d : TableDecl) : Except Fault (Option Schema) :=
  match d.schema with
  | none => .ok none
  | some declared => do return some (← Schema.ofDeclaration declared.keys declared.types)

def querySchema (d : TableDecl) (declared : Option Schema) (query : Clause) :
    Except Fault Schema := do
  let derived ← Schema.ofQuery query
  match declared with
  | none => return derived
  | some declared =>
    if declared.agrees derived then return declared
    else throw (.schemaMismatch d.name declared derived)

def bare (d : TableDecl) : Table :=
  { name := d.name, tableClass := .ofKeyword d.tableClass, kind := d.kind }

def check (d : TableDecl) : Except Fault Table := do
  let declared ← d.declaredSchema
  match d.rows, d.query with
  | some _, some _ => throw (.format .instanceAndQuery)
  | some rows, none =>
    match declared with
    | none => throw (.format .instanceWithoutSchema)
    | some schema => return d.bare.fill (← Instance.ofRows schema rows)
  | none, some query => return (d.bare.withSchema (← d.querySchema declared query)).withQuery query
  | none, none => return { d.bare with schema := declared }

def ingest (d : TableDecl) (moduleName : String) : Except Fault Table :=
  match d.check with
  | .ok table => .ok (table.inModule moduleName)
  | .error fault => .error (fault.within d.name)

end TableDecl

namespace Catalog

def ingest (c : Catalog) (moduleName : String) : List TableDecl → Except Fault Catalog
  | [] => .ok c
  | d :: rest => do ingest (← c.insert (← d.ingest moduleName)) moduleName rest

def ingestModules (c : Catalog) : List ModuleDecl → Except Fault Catalog
  | [] => .ok c
  | m :: rest => do ingestModules (← c.ingest m.name m.tables) rest

end Catalog

def ModuleDecl.info (m : ModuleDecl) : ModuleInfo :=
  ⟨m.name, m.moduleClass, m.kind, m.tables.map TableDecl.name⟩

def DocumentDecl.load (d : DocumentDecl) : Except Fault Document := do
  return ⟨d.dialect, d.modules.map ModuleDecl.info, ← Catalog.empty.ingestModules d.modules⟩

namespace Document

def ofText (source : String) : Except Fault Document :=
  match DocumentDecl.ofText source with
  | .ok declared => declared.load
  | .error fault => .error (.json fault)

end Document
end TablePlan
