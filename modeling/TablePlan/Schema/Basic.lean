import TablePlan.Keyed
/-! Schemas: typed fields under distinct names. -/
namespace TablePlan

inductive FieldType where
  | string
  | integer
  | double
  | ieeeDouble
  | stringFunction
  | integerFunction
  | doubleFunction
  | ieeeDoubleFunction
  deriving DecidableEq, Repr

namespace FieldType

def all : List FieldType :=
  [.string, .integer, .double, .ieeeDouble, .stringFunction, .integerFunction, .doubleFunction,
    .ieeeDoubleFunction]

def keyword : FieldType → String
  | .string => "STRING"
  | .integer => "INTEGER"
  | .double => "DOUBLE"
  | .ieeeDouble => "IEEEDOUBLE"
  | .stringFunction => "STRING_FUNCTION"
  | .integerFunction => "INTEGER_FUNCTION"
  | .doubleFunction => "DOUBLE_FUNCTION"
  | .ieeeDoubleFunction => "IEEEDOUBLE_FUNCTION"

def ofKeyword? (word : String) : Option FieldType := all.find? fun t => t.keyword = word

def isFunction : FieldType → Bool
  | .stringFunction | .integerFunction | .doubleFunction | .ieeeDoubleFunction => true
  | _ => false

theorem memAll (t : FieldType) : t ∈ all := by cases t <;> decide

theorem keywordRead (t : FieldType) : ofKeyword? t.keyword = some t := by cases t <;> decide

theorem keywordOf {word : String} {t : FieldType} (found : ofKeyword? word = some t) :
    t.keyword = word := by
  simpa using List.find?_some found

end FieldType

structure Schema where
  fields : List (String × FieldType)
  distinct : (Keyed.names fields).Nodup
  deriving DecidableEq, Repr

namespace Schema

def empty : Schema := ⟨[], List.nodup_nil⟩

def names (s : Schema) : List String := Keyed.names s.fields

def size (s : Schema) : Nat := s.fields.length

def find? (s : Schema) (name : String) : Option FieldType := Keyed.find? name s.fields

def add? (s : Schema) (name : String) (type : FieldType) : Option Schema :=
  if fresh : name ∉ s.names then
    some ⟨s.fields ++ [(name, type)], by
      rw [Keyed.namesAppend]
      exact Keyed.freshDistinct s.distinct fresh⟩
  else none

def put (s : Schema) (name : String) (type : FieldType) : Schema :=
  ⟨Keyed.put name type s.fields, Keyed.putDistinct s.distinct⟩

def agrees (s other : Schema) : Bool :=
  s.size == other.size && s.fields.all fun (name, type) => other.find? name == some type

def sameFields (s other : Schema) : Bool := Keyed.same s.fields other.fields

def toText (s : Schema) : String :=
  ", ".intercalate (s.fields.map fun (name, type) => name ++ " " ++ type.keyword)

theorem addedFields {s t : Schema} {name : String} {type : FieldType}
    (added : s.add? name type = some t) :
    name ∉ s.names ∧ t.fields = s.fields ++ [(name, type)] := by
  unfold add? at added
  split at added
  · rename_i fresh
    cases added
    exact ⟨fresh, rfl⟩
  · contradiction

end Schema
end TablePlan
