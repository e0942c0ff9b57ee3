import TablePlan.Fault
/-! Schemas put together field by field. -/
namespace TablePlan

def FieldType.ofKeyword (word : String) : Except Fault FieldType :=
  match ofKeyword? word with
  | some type => .ok type
  | none => .error (.format (.unsupportedType word))

namespace Schema

def add (s : Schema) (name : String) (type : FieldType) : Except Fault Schema :=
  match s.add? name type with
  | some s => .ok s
  | none => .error (.format (.repeatedField name))

def declare (s : Schema) (name keyword : String) : Except Fault Schema := do
  s.add name (← FieldType.ofKeyword keyword)

def declareAll (s : Schema) : List (String × String) → Except Fault Schema
  | [] => .ok s
  | (name, keyword) :: rest => do declareAll (← s.declare name keyword) rest

def ofDeclaration (names types : List String) : Except Fault Schema :=
  if names.length = types.length then empty.declareAll (names.zip types)
  else .error (.format (.fieldCount names.length types.length))

end Schema
end TablePlan
