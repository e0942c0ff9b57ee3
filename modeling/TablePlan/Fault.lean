import TablePlan.Clause.Basic
import TablePlan.Schema.Basic
import TablePlan.Json.Fault
/-! Everything that can go wrong, by cause, and the words for it. -/
namespace TablePlan

inductive FormatFault where
  | nullClause
  | unsupportedType (keyword : String)
  | fieldCount (names types : Nat)
  | repeatedField (name : String)
  | noSelect
  | selectSubquery
  | selectItem (found : Clause.Kind)
  | unannotated (item : String)
  | notObject (found : Clause.Kind)
  | nestedList (key : String)
  | repeatedTable (name : String)
  | rowWidth (row values fields : Nat)
  | nothingToMaterialize (table : String)
  | noQuery (table : String)
  | noSchema (table : String)
  | instanceAndQuery
  | instanceWithoutSchema
  | inTable (name : String) (cause : FormatFault)
  deriving DecidableEq, Repr

inductive Place where
  | translation (depth : Nat)
  | scan (depth : Nat)
  | resolution (table : String) (depth : Nat)
  | named (label : String)
  deriving DecidableEq, Repr

inductive FileFault where
  | missing
  | isFolder
  | notFolder
  | nameTooLong
  deriving DecidableEq, Repr

inductive Fault where
  | format (cause : FormatFault)
  | tooDeep (place : Place) (limit : Nat)
  | circular (table dependency : String) (cycle : List String)
  | schemaMismatch (table : String) (declared derived : Schema)
  | unknownTable (name : String)
  | engine (table message : String)
  | json (fault : JsonFault)
  | unreadable (path : String) (cause : FileFault)
  deriving DecidableEq, Repr

def FormatFault.message : FormatFault → String
  | .nullClause => "null is not a valid query clause"
  | .unsupportedType keyword => "unsupported field type '" ++ keyword ++ "'"
  | .fieldCount names types =>
    "schema declares " ++ toString names ++ " field names but " ++ toString types ++ " field types"
  | .repeatedField name => "duplicate field name '" ++ name ++ "'"
  | .noSelect => "query has no SELECT clause"
  | .selectSubquery => "SELECT must list literal fields, found a subquery"
  | .selectItem found => "SELECT item must be a literal, found a " ++ found.name
  | .unannotated item => "SELECT item '" ++ item ++ "' lacks a '<name> -- <TYPE>' annotation"
  | .notObject found => "query must be an object of directives, found a " ++ found.name
  | .nestedList key => "'" ++ key ++ "' predicate holds a nested list"
  | .repeatedTable name => "table '" ++ name ++ "' is declared more than once"
  | .rowWidth row values fields =>
    "row " ++ toString row ++ " has " ++ toString values ++ " values but the schema has " ++
      toString fields ++ " fields"
  | .nothingToMaterialize table => "table '" ++ table ++ "' has no query to materialize"
  | .noQuery table => "table '" ++ table ++ "' has no QUERY"
  | .noSchema table => "table '" ++ table ++ "' has no SCHEMA"
  | .instanceAndQuery => "declares both an INSTANCE and a QUERY"
  | .instanceWithoutSchema => "INSTANCE requires a SCHEMA"
  | .inTable name cause => "table '" ++ name ++ "': " ++ cause.message

def Place.message : Place → String
  | .translation depth => "SQL translation of subquery at depth " ++ toString depth
  | .scan depth => "dependency scan of subquery at depth " ++ toString depth
  | .resolution table depth =>
    "dependency resolution of table '" ++ table ++ "' at depth " ++ toString depth
  | .named label => label

def FileFault.message : FileFault → String
  | .missing => "No such file or directory (os error 2)"
  | .isFolder => "Is a directory (os error 21)"
  | .notFolder => "Not a directory (os error 20)"
  | .nameTooLong => "File name too long (os error 36)"

namespace Fault

def message : Fault → String
  | .format cause => "format error: " ++ cause.message
  | .tooDeep place limit =>
    place.message ++ ": nesting exceeds the depth limit of " ++ toString limit
  | .circular table dependency cycle =>
    "circular reference: table '" ++ table ++ "' depends on '" ++ dependency ++ "' (" ++
      " -> ".intercalate cycle ++ ")"
  | .schemaMismatch table declared derived =>
    "schema mismatch for table '" ++ table ++ "': declared [" ++ declared.toText ++
      "], query selects [" ++ derived.toText ++ "]"
  | .unknownTable name => "unknown table: '" ++ name ++ "'"
  | .engine table message =>
    "engine failed to execute query for table '" ++ table ++ "': " ++ message
  | .json fault => "invalid JSON: " ++ fault.message
  | .unreadable path cause => "IO error: reading '" ++ path ++ "': " ++ cause.message

def isFormat : Fault → Bool
  | .format _ => true
  | _ => false

def isTooDeep : Fault → Bool
  | .tooDeep _ _ => true
  | _ => false

def isCircular : Fault → Bool
  | .circular _ _ _ => true
  | _ => false

end Fault
end TablePlan
