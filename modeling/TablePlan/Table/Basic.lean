import TablePlan.Clause.Basic
import TablePlan.Fault
import TablePlan.Json.Basic
/-! Tables. A table is empty, or it holds rows under a schema, or a query that selects its rows. -/
namespace TablePlan

inductive TableClass where
  | data
  | decision
  | constraint
  | objective
  | term
  | other (name : String)
  deriving DecidableEq, Repr

def TableClass.keyword : TableClass → String
  | .data => "DATA"
  | .decision => "VARIABLE"
  | .constraint => "CONSTRAINT"
  | .objective => "OBJECTIVE"
  | .term => "TERM"
  | .other name => name

def TableClass.ofKeyword (word : String) : TableClass :=
  if word = "DATA" then .data
  else if word = "VARIABLE" then .decision
  else if word = "CONSTRAINT" then .constraint
  else if word = "OBJECTIVE" then .objective
  else if word = "TERM" then .term
  else .other word

theorem TableClass.keywordKept (word : String) : (ofKeyword word).keyword = word := by
  unfold ofKeyword
  repeat' split
  all_goals first | rfl | (subst_vars; rfl)

abbrev Row := List Json

structure Instance where
  schema : Schema
  rows : List Row
  deriving DecidableEq, Repr

namespace Instance

def misfit? (size : Nat) : Nat → List Row → Option (Nat × Nat)
  | _, [] => none
  | index, row :: rest =>
    if row.length = size then misfit? size (index + 1) rest else some (index, row.length)

def ofRows (schema : Schema) (rows : List Row) : Except Fault Instance :=
  match misfit? schema.size 0 rows with
  | none => .ok ⟨schema, rows⟩
  | some (row, values) => .error (.format (.rowWidth row values schema.size))

theorem noMisfit {size index : Nat} {rows : List Row} :
    misfit? size index rows = none ↔ ∀ row ∈ rows, row.length = size := by
  induction rows generalizing index with
  | nil => simp [misfit?]
  | cons row rest ih =>
    unfold misfit?
    split
    · rename_i fits
      simp [ih, fits]
    · rename_i unfit
      simp [unfit]

end Instance

inductive Body where
  | empty
  | filled (content : Instance)
  | query (clause : Clause)
  deriving DecidableEq, Repr

structure Table where
  name : String
  tableClass : TableClass
  kind : String
  module? : Option String := none
  schema : Option Schema := none
  body : Body := .empty
  deriving DecidableEq, Repr

namespace Table

def query? (t : Table) : Option Clause :=
  match t.body with
  | .query clause => some clause
  | _ => none

def content? (t : Table) : Option Instance :=
  match t.body with
  | .filled content => some content
  | _ => none

def inModule (t : Table) (name : String) : Table := { t with module? := some name }

def withSchema (t : Table) (schema : Schema) : Table := { t with schema := some schema }

def withQuery (t : Table) (clause : Clause) : Table := { t with body := .query clause }

def fill (t : Table) (content : Instance) : Table :=
  { t with schema := some content.schema, body := .filled content }

def materialize (t : Table) (content : Instance) : Except Fault (Clause × Table) :=
  match t.body with
  | .query clause => .ok (clause, t.fill content)
  | _ => .error (.format (.nothingToMaterialize t.name))

end Table
end TablePlan
