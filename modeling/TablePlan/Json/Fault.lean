import TablePlan.Json.Written
import TablePlan.Text.Quoted
/-! What can be wrong with JSON text: it breaks the grammar, it ends where more is due, or it
holds a value that does not fit its place. -/
namespace TablePlan
namespace Json

inductive Found where
  | null
  | bool (b : Bool)
  | number (n : Number)
  | text (s : String)
  | sequence
  | map
  deriving DecidableEq, Repr

inductive Wanted where
  | text
  | sequence
  | map
  | unit
  | record (title : String)
  deriving DecidableEq, Repr

inductive Misfit where
  | missingField (name : String)
  | duplicateField (name : String)
  | wrongType (found : Found) (wanted : Wanted)
  | tooShort (length : Nat) (title : String) (size : Nat)
  | unknownVariant (name : String) (known : List String)
  | nullClause
  deriving DecidableEq, Repr

def Found.message : Found → String
  | .null => "null"
  | .bool b => "boolean `" ++ toString b ++ "`"
  | .number (.int n) => "integer `" ++ String.ofList (Number.int n).written ++ "`"
  | .number (.real x) => "floating point `" ++ String.ofList (Number.real x).written ++ "`"
  | .text s => "string " ++ String.ofList (Text.quoted s.toList)
  | .sequence => "sequence"
  | .map => "map"

def Wanted.message : Wanted → String
  | .text => "a string"
  | .sequence => "a sequence"
  | .map => "a map"
  | .unit => "unit"
  | .record title => "struct " ++ title

def Misfit.message : Misfit → String
  | .missingField name => "missing field `" ++ name ++ "`"
  | .duplicateField name => "duplicate field `" ++ name ++ "`"
  | .wrongType found wanted => "invalid type: " ++ found.message ++ ", expected " ++ wanted.message
  | .tooShort length title size =>
    "invalid length " ++ toString length ++ ", expected struct " ++ title ++ " with " ++
      toString size ++ " elements"
  | .unknownVariant name known =>
    "unknown variant `" ++ name ++ "`, expected one of " ++
      ", ".intercalate (known.map fun k => "`" ++ k ++ "`")
  | .nullClause => "format error: null is not a valid query clause"

end Json

inductive JsonFault where
  | malformed
  | truncated
  | misfit (why : Json.Misfit)
  deriving DecidableEq, Repr

def JsonFault.message : JsonFault → String
  | .malformed => "malformed text"
  | .truncated => "unexpected end of text"
  | .misfit why => why.message

end TablePlan
