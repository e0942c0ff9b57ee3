import TablePlan.Proofs.Lookup
import TablePlan.Proofs.Trace
import TablePlan.Proofs.Validity
/-! What a loaded document has kept of its text: a table for each declaration, in the same order
and under its own name, with rows that fit the declared fields, a query that selects them, or
neither. -/
namespace TablePlan

variable {entry : String × TableDecl} {t : Table} {d : TableDecl} {declared : Option Schema}

/-- What a table has kept of its declaration in a module. -/
structure Catalog.Kept (entry : String × TableDecl) (t : Table) : Prop where
  name : t.name = entry.2.name
  origin : t.module? = some entry.1
  filled : ∀ content, t.body = .filled content →
    entry.2.rows = some content.rows ∧ entry.2.query = none ∧
      t.schema = some content.schema ∧ (∀ row ∈ content.rows, row.length = content.schema.size) ∧
      ∃ s, entry.2.schema = some s ∧ s.keys.Nodup ∧ s.Declares content.schema
  queried : ∀ query, t.body = .query query →
    entry.2.query = some query ∧ entry.2.rows = none ∧
      ∃ schema derived, t.schema = some schema ∧ Schema.ofQuery query = .ok derived ∧
        schema.fields.Perm derived.fields ∧
        (∀ s, entry.2.schema = some s → s.Declares schema) ∧
        (entry.2.schema = none → ∃ items, query.selectedItems = some items ∧
          List.Forall₂ Schema.Selected items schema.fields)
  bare : t.body = .empty ↔ entry.2.rows = none ∧ entry.2.query = none
  declared : t.body = .empty → (entry.2.schema = none → t.schema = none) ∧
    ∀ s, entry.2.schema = some s → ∃ schema, t.schema = some schema ∧ s.Declares schema

namespace TableDecl

theorem Read.none (read : Read d declared) (absent : d.schema = none) : declared = none := by
  cases read with
  | undeclared => rfl
  | declared given => cases absent.symm.trans given

theorem Read.some {s : SchemaDecl} (read : Read d declared) (given : d.schema = some s) :
    ∃ schema, declared = some schema ∧ s.Declares schema := by
  cases read with
  | undeclared absent => cases absent.symm.trans given
  | declared again declares =>
    cases given.symm.trans again
    exact ⟨_, rfl, declares⟩

end TableDecl

namespace Catalog

theorem ingestedKept (taken : Ingested entry t) : Kept entry t := by
  obtain ⟨moduleName, d⟩ := entry
  obtain ⟨bare, checks, rfl⟩ := TableDecl.ingested taken
  obtain ⟨declared, ran, checked⟩ := TableDecl.checked checks
  have read := TableDecl.declaredSchemaReads ran
  cases checked with
  | bare rowless unasked =>
    refine ⟨rfl, rfl, nofun, nofun, ⟨fun _ => ⟨rowless, unasked⟩, fun _ => rfl⟩, fun _ => ?_⟩
    exact ⟨read.none, fun s given => read.some given⟩
  | filled given unasked same rowed =>
    obtain ⟨rfl, fits⟩ := ofRowsExact.1 rowed
    subst same
    cases read with
    | declared known declares =>
      refine ⟨rfl, rfl, fun content body => ?_, nofun, ?_, nofun⟩
      · cases body
        exact ⟨given, unasked, rfl, fits, _, known, declares.1 ▸ Schema.distinct _, declares⟩
      · exact ⟨nofun, fun ⟨rowless, _⟩ => nomatch rowless.symm.trans given⟩
  | query rowless asked chosen =>
    obtain ⟨derived, selected, agrees, kept⟩ := TableDecl.querySchemaAgrees chosen
    refine ⟨rfl, rfl, nofun, fun query body => ?_, ?_, nofun⟩
    · cases body
      refine ⟨asked, rowless, _, derived, rfl, selected, agrees, fun s given => ?_,
        fun absent => ?_⟩
      · obtain ⟨schema, same, declares⟩ := read.some given
        exact kept schema same ▸ declares
      · rw [read.none absent] at chosen
        obtain ⟨_, again, last⟩ := bindOk.1 chosen
        cases last
        exact Schema.ofQueryExact.1 again
    · exact ⟨nofun, fun ⟨_, unasked⟩ => nomatch unasked.symm.trans asked⟩

theorem keptNames {entries : List (String × TableDecl)} {tables : List Table}
    (kept : List.Forall₂ Kept entries tables) : tables.map Table.name = entryNames entries := by
  induction kept with
  | nil => rfl
  | cons head _ ih => exact congrArg₂ List.cons head.name ih

theorem listedNames (modules : List ModuleDecl) :
    (modules.map ModuleDecl.info).flatMap ModuleInfo.tables =
      entryNames (declarations modules) := by
  simp [entryNames, declarations, ModuleDecl.info, List.flatMap_map, List.map_flatMap,
    Function.comp_def]

end Catalog

namespace Document

variable {source : String} {document : Document}

theorem loadedKeeps (loaded : ofText source = .ok document) :
    document.catalog.names.Nodup ∧
    document.catalog.names = document.modules.flatMap ModuleInfo.tables ∧
    (∀ name t, document.catalog.find? name = some t ↔
      t ∈ document.catalog.tables ∧ t.name = name) ∧
    ∃ given, DocumentDecl.ofText source = .ok given ∧
      document.modules = given.modules.map ModuleDecl.info ∧
      document.catalog.names = Catalog.entryNames (Catalog.declarations given.modules) ∧
      List.Forall₂ Catalog.Kept (Catalog.declarations given.modules) document.catalog.tables := by
  obtain ⟨given, read, taken⟩ := loadedTables loaded
  have kept := taken.imp fun _ _ => Catalog.ingestedKept
  have names := document.catalog.tableNames.symm.trans (Catalog.keptNames kept)
  have listed : document.modules = given.modules.map ModuleDecl.info := by
    rw [ofTextFold read] at loaded
    obtain ⟨_, _, last⟩ := bindOk.1 loaded
    cases last
    rfl
  refine ⟨document.catalog.distinct, ?_, fun name t => Catalog.findExact, given, read, listed,
    names, kept⟩
  rw [listed, Catalog.listedNames]
  exact names

def mixedText : String :=
  "[null,[[\"m\",null,null,[[\"p\",\"\",\"\",[[\"x\"],[\"STRING\"]],[[\"a\"]]]," ++
    "[\"q\",\"\",\"\",null,null,\x7b\"SELECT\":\"x -- STRING\"\x7d]]],[\"n\",null,null,[[\"r\"]]]]]"

def mixedDocument : Document where
  dialect := none
  modules := [⟨"m", none, none, ["p", "q"]⟩, ⟨"n", none, none, ["r"]⟩]
  catalog := .ofTables [
    ⟨"p", .other "", "", some "m", some ⟨[("x", .string)], by decide⟩,
      .filled ⟨⟨[("x", .string)], by decide⟩, [[.string "a"]]⟩⟩,
    ⟨"q", .other "", "", some "m", some ⟨[("x", .string)], by decide⟩,
      .query (.object [("SELECT", .literal "x -- STRING")])⟩,
    ⟨"r", .data, "", some "n", none, .empty⟩] (by decide)

theorem mixedKept :
    ofText mixedText = .ok mixedDocument ∧ mixedDocument.catalog.names.Nodup ∧
      mixedDocument.catalog.names = ["p", "q", "r"] ∧
      mixedDocument.modules.flatMap ModuleInfo.tables = ["p", "q", "r"] ∧
      ∃ given, DocumentDecl.ofText mixedText = .ok given ∧
        List.Forall₂ Catalog.Kept (Catalog.declarations given.modules)
          mixedDocument.catalog.tables := by
  have loaded : ofText mixedText = .ok mixedDocument := by decide +kernel
  obtain ⟨distinct, listed, _, given, read, _, _, kept⟩ := loadedKeeps loaded
  exact ⟨loaded, distinct, rfl, listed ▸ rfl, given, read, kept⟩

end Document
end TablePlan
