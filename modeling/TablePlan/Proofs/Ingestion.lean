import Mathlib.Data.List.Forall2
import TablePlan.Document.Load
import TablePlan.Proofs.Agreement
import TablePlan.Proofs.Sequence
/-! What a declared table becomes when it is taken in, and that a document which is loaded holds one
table for each declaration, in the order of the text. A table that is loaded with a query has a
schema, which is that of the query but for the order of its fields. -/
namespace TablePlan

variable {d : TableDecl} {t : Table} {moduleName : String} {declared : Option Schema}
  {schema : Schema} {query : Clause}

namespace TableDecl

theorem querySchemaAgrees (chosen : d.querySchema declared query = .ok schema) :
    ∃ derived, Schema.ofQuery query = .ok derived ∧ schema.fields.Perm derived.fields ∧
      ∀ given, declared = some given → schema = given := by
  obtain ⟨derived, selected, chosen⟩ := bindOk.1 chosen
  refine ⟨derived, selected, ?_⟩
  cases declared with
  | none =>
    cases chosen
    exact ⟨.refl _, nofun⟩
  | some given =>
    dsimp only at chosen
    split at chosen
    · rename_i agreed
      cases chosen
      exact ⟨Schema.agreesExact.1 agreed, fun _ same => Option.some.inj same⟩
    · cases chosen

inductive Checked (d : TableDecl) (declared : Option Schema) : Table → Prop where
  | bare (rowless : d.rows = none) (unasked : d.query = none) :
      Checked d declared { d.bare with schema := declared }
  | filled {schema : Schema} {rows : List Row} {content : Instance} (given : d.rows = some rows)
      (unasked : d.query = none) (declares : declared = some schema)
      (rowed : Instance.ofRows schema rows = .ok content) :
      Checked d declared (d.bare.fill content)
  | query {schema : Schema} {query : Clause} (rowless : d.rows = none)
      (asked : d.query = some query) (chosen : d.querySchema declared query = .ok schema) :
      Checked d declared ((d.bare.withSchema schema).withQuery query)

theorem checked (ran : d.check = .ok t) :
    ∃ declared, d.declaredSchema = .ok declared ∧ Checked d declared t := by
  obtain ⟨declared, read, ran⟩ := bindOk.1 ran
  refine ⟨declared, read, ?_⟩
  split at ran
  · cases ran
  · rename_i given unasked
    cases declared with
    | none => cases ran
    | some schema =>
      obtain ⟨content, rowed, last⟩ := bindOk.1 ran
      cases last
      exact .filled given unasked rfl rowed
  · rename_i rowless asked
    obtain ⟨schema, chosen, last⟩ := bindOk.1 ran
    cases last
    exact .query rowless asked chosen
  · rename_i rowless unasked
    cases ran
    exact .bare rowless unasked

theorem ingested (ran : d.ingest moduleName = .ok t) :
    ∃ bare, d.check = .ok bare ∧ t = bare.inModule moduleName := by
  unfold ingest at ran
  split at ran
  · rename_i bare checks
    exact ⟨bare, checks, (Except.ok.inj ran).symm⟩
  · cases ran

end TableDecl

namespace Catalog

variable {c next : Catalog} {decls : List TableDecl} {modules : List ModuleDecl}

def Ingested (entry : String × TableDecl) (t : Table) : Prop := entry.2.ingest entry.1 = .ok t

def declarations (modules : List ModuleDecl) : List (String × TableDecl) :=
  modules.flatMap fun m => m.tables.map fun d => (m.name, d)

theorem inserted (ran : c.insert t = .ok next) : next.tables = c.tables ++ [t] := by
  unfold insert at ran
  split at ran
  · cases ran
    simp [tables]
  · cases ran

theorem ingestAppends (ran : c.ingest moduleName decls = .ok next) :
    ∃ tables, next.tables = c.tables ++ tables ∧
      List.Forall₂ Ingested (decls.map fun d => (moduleName, d)) tables := by
  induction decls generalizing c with
  | nil =>
    cases ran
    exact ⟨[], by simp, .nil⟩
  | cons d rest ih =>
    obtain ⟨t, taken, ran⟩ := bindOk.1 ran
    obtain ⟨between, placed, ran⟩ := bindOk.1 ran
    obtain ⟨tables, after, all⟩ := ih ran
    exact ⟨t :: tables, by simp [after, inserted placed], .cons taken all⟩

theorem ingestModulesAppend (ran : c.ingestModules modules = .ok next) :
    ∃ tables, next.tables = c.tables ++ tables ∧
      List.Forall₂ Ingested (declarations modules) tables := by
  induction modules generalizing c with
  | nil =>
    cases ran
    exact ⟨[], by simp, .nil⟩
  | cons m rest ih =>
    obtain ⟨between, first, ran⟩ := bindOk.1 ran
    obtain ⟨own, appended, taken⟩ := ingestAppends first
    obtain ⟨others, after, all⟩ := ih ran
    refine ⟨own ++ others, by simp [after, appended], ?_⟩
    exact List.rel_append taken all

end Catalog

namespace Document

variable {source : String} {document : Document}

theorem loadedTables (loaded : ofText source = .ok document) :
    ∃ declared, DocumentDecl.ofText source = .ok declared ∧
      List.Forall₂ Catalog.Ingested (Catalog.declarations declared.modules)
        document.catalog.tables := by
  unfold ofText at loaded
  split at loaded
  · rename_i declared read
    obtain ⟨catalog, taken, last⟩ := bindOk.1 loaded
    cases last
    obtain ⟨tables, appended, all⟩ := Catalog.ingestModulesAppend taken
    have whole : catalog.tables = tables := appended
    exact ⟨declared, read, whole ▸ all⟩
  · cases loaded

theorem loadedOf (loaded : ofText source = .ok document) (member : t ∈ document.catalog.tables) :
    ∃ (d : TableDecl) (moduleName : String), d.ingest moduleName = .ok t := by
  obtain ⟨_, _, all⟩ := loadedTables loaded
  obtain ⟨⟨moduleName, d⟩, _, taken⟩ := relatedRight all member
  exact ⟨d, moduleName, taken⟩

theorem loadedSchema (loaded : ofText source = .ok document)
    (member : t ∈ document.catalog.tables) (body : t.body = .query query) :
    ∃ schema derived, t.schema = some schema ∧ Schema.ofQuery query = .ok derived ∧
      schema.fields.Perm derived.fields := by
  obtain ⟨d, moduleName, taken⟩ := loadedOf loaded member
  obtain ⟨bare, checks, rfl⟩ := TableDecl.ingested taken
  obtain ⟨declared, _, checked⟩ := TableDecl.checked checks
  cases checked with
  | bare | filled => cases body
  | query _ _ chosen =>
    cases body
    obtain ⟨derived, selected, same, _⟩ := TableDecl.querySchemaAgrees chosen
    exact ⟨_, derived, rfl, selected, same⟩

end Document
end TablePlan
