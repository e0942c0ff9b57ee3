import TablePlan.Proofs.Ceiling
import TablePlan.Proofs.Ingestion
import TablePlan.Proofs.Planned
/-! Documents that have been loaded and can be ordered. Loading has read the schemas of their
queries and the order has scanned them, so all statements are there, and an engine that refuses
nothing fills every table under the fields that it was loaded with. -/
namespace TablePlan

variable {c : Catalog} {limits : Limits} {names : List String} {events : List Event}
  {name table : String} {query : Clause} {statements : List Statement} {t : Table}

theorem Clause.scannedTranslates {found : List String}
    (scanned : query.dependencies limits 0 = .ok found) : ∃ text, query.sql limits = .ok text := by
  have within := ((dependenciesJudged query limits 0).succeeds.1 ⟨found, scanned⟩).2
  rw [Nat.zero_add] at within
  exact (sqlJudged query limits).succeeds.2 ⟨id, within⟩

theorem Statement.stated {text : String} {schema : Schema} (rendered : query.sql limits = .ok text)
    (selected : Schema.ofQuery query = .ok schema) :
    ofQuery limits table query = .ok ⟨table, text, schema⟩ :=
  bindOk.2 ⟨text, rendered, bindOk.2 ⟨schema, selected, rfl⟩⟩

namespace Catalog

theorem Arranged.scanned (arranged : c.Arranged limits names) (holds : c.query? name = some query) :
    ∃ found, query.dependencies limits 0 = .ok found := by
  obtain ⟨t, member, rfl, _⟩ := queryExact.1 holds
  obtain ⟨before, after, cut⟩ := List.append_of_mem (arranged.complete t member)
  obtain ⟨found, scanned, _⟩ := arranged.ordered before t.name after query cut holds
  exact ⟨found, scanned⟩

theorem statementsStated (stated : ∀ name query, c.query? name = some query →
    ∃ statement, Statement.ofQuery limits name query = .ok statement) (names : List String) :
    ∃ statements, c.statements limits names = .ok statements := by
  induction names with
  | nil => exact ⟨[], rfl⟩
  | cons name rest ih =>
    obtain ⟨others, later⟩ := ih
    cases holds : c.query? name with
    | none => exact ⟨others, (statementsSkip holds).trans later⟩
    | some query =>
      obtain ⟨statement, here⟩ := stated name query holds
      exact ⟨_, (statementsNext holds).2 ⟨statement, others, here, later, rfl⟩⟩

theorem planTables (planned : c.plan limits = .ok statements) :
    (statements.map Statement.table).Nodup ∧ ∀ name, name ∈ statements.map Statement.table ↔
      ∃ t ∈ c.tables, t.name = name ∧ ∃ query, t.body = .query query := by
  obtain ⟨names, ordered, planned⟩ := bindOk.1 planned
  have arranged := orderArranged ordered
  rw [(statementsParts planned).1]
  exact ⟨arranged.distinct.filter _, fun name => queriedExact arranged⟩

theorem planParts (planned : c.plan limits = .ok statements) : ∀ statement ∈ statements,
    ∃ t ∈ c.tables, t.name = statement.table ∧ ∃ query, t.body = .query query ∧
      Schema.ofQuery query = .ok statement.schema := by
  obtain ⟨names, _, planned⟩ := bindOk.1 planned
  intro statement member
  obtain ⟨query, holds, stated⟩ := (statementsParts planned).2 statement member
  obtain ⟨t, inside, named, body⟩ := queryExact.1 holds
  exact ⟨t, inside, named, query, body, (statementParts stated).2.2⟩

theorem materializedBecame {after : Catalog}
    (materialized : Materialized c limits events (.ok names) after) :
    List.Forall₂ (Became events) c.tables after.tables := by
  rcases materializedEnds materialized with ⟨_, failed, _⟩ |
    ⟨order, first, later, contents, ordered, rfl, _, staged, _, rfl⟩
  · cases failed
  have arranged := orderArranged ordered
  obtain ⟨listed, _, answered⟩ := stagedContents staged
  rw [fillAllTables (listed ▸ arranged.distinct.filter _), List.forall₂_map_right_iff,
    List.forall₂_same]
  refine settledBecame listed arranged.complete fun entry member => ?_
  obtain ⟨query, sql, holds, selected, executed⟩ := answered entry member
  exact ⟨query, sql, holds, selected, List.mem_append_right _ executed⟩

end Catalog

namespace Document

variable {source : String} {d : Document}

theorem loadedStated (loaded : ofText source = .ok d) (ordered : d.catalog.order limits = .ok names)
    (holds : d.catalog.query? name = some query) :
    ∃ statement, Statement.ofQuery limits name query = .ok statement := by
  obtain ⟨found, scanned⟩ := (Catalog.orderArranged ordered).scanned holds
  obtain ⟨text, rendered⟩ := Clause.scannedTranslates scanned
  obtain ⟨t, member, _, body⟩ := Catalog.queryExact.1 holds
  obtain ⟨_, derived, _, selected, _⟩ := loadedSchema loaded member body
  exact ⟨_, Statement.stated rendered selected⟩

theorem loadedPlanned (loaded : ofText source = .ok d)
    (ordered : d.catalog.order limits = .ok names) :
    ∃ statements, d.catalog.plan limits = .ok statements := by
  rw [Catalog.planOrdered ordered]
  exact Catalog.statementsStated (fun _ _ => loadedStated loaded ordered) names

theorem loadedUnplanned (loaded : ofText source = .ok d) (fault : Fault) :
    d.catalog.plan limits = .error fault ↔ d.catalog.order limits = .error fault := by
  refine ⟨fun unplanned => ?_, Catalog.planUnordered⟩
  cases ordered : d.catalog.order limits with
  | error cause =>
    cases (Catalog.planUnordered ordered).symm.trans unplanned
    rfl
  | ok names =>
    obtain ⟨statements, planned⟩ := loadedPlanned loaded ordered
    cases planned.symm.trans unplanned

/-- A query has been replaced by rows under the fields that the table was loaded with. -/
def Rematched (before after : Table) : Prop :=
  after.name = before.name ∧ ∀ query, before.body = .query query →
    ∃ schema content, before.schema = some schema ∧ after.body = .filled content ∧
      after.schema = some content.schema ∧ content.schema.agrees schema = true

theorem becameRematched {after : Table} (loaded : ofText source = .ok d)
    (member : t ∈ d.catalog.tables) (became : Catalog.Became events t after) :
    Rematched t after := by
  obtain ⟨named, _, _, _, became⟩ := became
  refine ⟨named, fun query body => ?_⟩
  rw [body] at became
  obtain ⟨_, schema, rows, selected, _, filled, kept⟩ := became
  obtain ⟨given, derived, declared, again, same⟩ := loadedSchema loaded member body
  cases selected.symm.trans again
  exact ⟨given, ⟨schema, rows⟩, declared, filled, kept, Schema.agreesExact.2 same.symm⟩

theorem loadedRuns (loaded : ofText source = .ok d) (limits : Limits) :
    ((∃ statements, d.catalog.plan limits = .ok statements) ↔
        ∃ names, d.catalog.order limits = .ok names) ∧
      (∀ fault, d.catalog.plan limits = .error fault ↔ d.catalog.order limits = .error fault) ∧
      (∀ statements, d.catalog.plan limits = .ok statements →
        (statements.map Statement.table).Nodup ∧
        (∀ name, name ∈ statements.map Statement.table ↔
          ∃ t ∈ d.catalog.tables, t.name = name ∧ ∃ query, t.body = .query query) ∧
        ∀ statement ∈ statements, ∃ t ∈ d.catalog.tables, t.name = statement.table ∧
          ∃ schema, t.schema = some schema ∧ statement.schema.fields.Perm schema.fields) ∧
      ∀ {σ : Type} (e : Engine σ) (s : σ) (names : List String), e.Obliging →
        d.catalog.order limits = .ok names →
        let outcome := d.catalog.materializeAll e limits s
        (∃ filled, outcome.result = .ok filled) ∧
        (∀ t ∈ outcome.catalog.tables, ∀ query, t.body ≠ .query query) ∧
        List.Forall₂ Rematched d.catalog.tables outcome.catalog.tables := by
  refine ⟨⟨fun ⟨_, planned⟩ => ?_, fun ⟨_, ordered⟩ => loadedPlanned loaded ordered⟩,
    loadedUnplanned loaded, fun statements planned => ?_,
    fun {σ} e s names obliging ordered => ?_⟩
  · obtain ⟨names, ordered, _⟩ := bindOk.1 planned
    exact ⟨names, ordered⟩
  · obtain ⟨distinct, exact⟩ := Catalog.planTables planned
    refine ⟨distinct, exact, fun statement member => ?_⟩
    obtain ⟨t, inside, named, query, body, selected⟩ := Catalog.planParts planned statement member
    obtain ⟨schema, derived, declared, again, same⟩ := loadedSchema loaded inside body
    cases selected.symm.trans again
    exact ⟨t, inside, named, schema, declared, same.symm⟩
  · obtain ⟨statements, planned⟩ := loadedPlanned loaded ordered
    have done := Catalog.materializeObliging obliging d.catalog limits s
    rw [planned] at done
    have materialized := (d.catalog.traced e limits s).2
    have became := Catalog.materializedBecame (done ▸ materialized)
    have loadedBecame := (List.forall₂_and_left _ _).2 ⟨fun _ member => member, became⟩
    refine ⟨⟨_, done⟩, fun t member query body => ?_, ?_⟩
    · obtain ⟨before, _, became⟩ := relatedRight became member
      cases (Catalog.becameBare became).symm.trans (Catalog.bodyOfQuery.2 body)
    · exact loadedBecame.imp fun _ _ ⟨member, became⟩ => becameRematched loaded member became

def flowText : String :=
  "[null,[[\"m\",null,null,[[\"flow\",\"\",\"\",[[\"cap\",\"at\"],[\"DOUBLE\",\"STRING\"]],null," ++
    "\x7b\"SELECT\":[\"at -- STRING\",\"cap -- DOUBLE\"],\"FROM\":\"routes\"\x7d]]]]]"

def flowDocument : Document where
  dialect := none
  modules := [⟨"m", none, none, ["flow"]⟩]
  catalog := .ofTables [
    { name := "flow", tableClass := .other "", kind := "", module? := some "m",
      schema := some ⟨[⟨"cap", .double⟩, ⟨"at", .string⟩], by decide⟩,
      body := .query (.object [
        ("SELECT", .list [.literal "at -- STRING", .literal "cap -- DOUBLE"]),
        ("FROM", .literal "routes")]) }] (by decide)

theorem flowRuns :
    ofText flowText = .ok flowDocument ∧
      flowDocument.catalog.order {} = .ok ["routes", "flow"] ∧
      (∃ statements, flowDocument.catalog.plan {} = .ok statements) ∧
      flowDocument.catalog.plan ⟨0⟩ = .error (.tooDeep (.resolution "routes" 1) 0) ∧
      let outcome := flowDocument.catalog.materializeAll Catalog.naming {} ()
      (∃ filled, outcome.result = .ok filled) ∧
      List.Forall₂ Rematched flowDocument.catalog.tables outcome.catalog.tables := by
  have loaded : ofText flowText = .ok flowDocument := by decide +kernel
  have ordered : flowDocument.catalog.order {} = .ok ["routes", "flow"] := by decide +kernel
  have deep : flowDocument.catalog.order ⟨0⟩ = .error (.tooDeep (.resolution "routes" 1) 0) := by
    decide +kernel
  obtain ⟨plans, _, _, runs⟩ := loadedRuns loaded {}
  obtain ⟨_, unplanned, _⟩ := loadedRuns loaded ⟨0⟩
  obtain ⟨done, _, rematched⟩ := runs Catalog.naming () _ Catalog.namingObliging ordered
  exact ⟨loaded, ordered, plans.2 ⟨_, ordered⟩, (unplanned _).2 deep, done, rematched⟩

end Document
end TablePlan
