import TablePlan.Proofs.Settlement
/-! The plan of a catalog and its materialization are one walk: an engine is asked for the planned
statements in their order, as far as the materialization comes, and with an engine that refuses
nothing it comes as far as the plan. -/
namespace TablePlan

variable {c : Catalog} {limits : Limits} {names : List String} {events first later : List Event}
  {name : String} {query : Clause} {statements : List Statement} {fault : Fault}

def Event.statement? : Event → Option Statement
  | .execute table sql schema _ => some ⟨table, sql, schema⟩
  | .register _ _ _ => none

def asked (events : List Event) : List Statement := events.filterMap Event.statement?

theorem askedAppend : asked (first ++ later) = asked first ++ asked later :=
  List.filterMap_append

theorem registeredAsked {tables : List Table} {outcome : Except Fault Unit}
    (registered : Registered tables events outcome) : asked events = [] := by
  refine List.filterMap_eq_nil_iff.2 fun event member => ?_
  obtain ⟨_, _, _, _, _, rfl⟩ := registeredHolds registered event member
  rfl

theorem ranAsked {outcome : Except Fault Instance} (ran : Ran limits name query events outcome) :
    (∃ fault, Statement.ofQuery limits name query = .error fault ∧ outcome = .error fault ∧
        asked events = []) ∨
      ∃ statement, Statement.ofQuery limits name query = .ok statement ∧
        asked events = [statement] := by
  cases ran with
  | unstated stated => exact .inl ⟨_, stated, rfl, rfl⟩
  | failed stated | misfit stated | refused stated | done stated => exact .inr ⟨_, stated, rfl⟩

theorem ranOkAsked {content : Instance} (ran : Ran limits name query events (.ok content)) :
    ∃ statement, Statement.ofQuery limits name query = .ok statement ∧
      asked events = [statement] := by
  rcases ranAsked ran with ⟨_, _, failed, _⟩ | stated
  · cases failed
  · exact stated

namespace Catalog

theorem statementsNext (holds : c.query? name = some query) :
    c.statements limits (name :: names) = .ok statements ↔
      ∃ statement others, Statement.ofQuery limits name query = .ok statement ∧
        c.statements limits names = .ok others ∧ statements = statement :: others := by
  simp only [Catalog.statements, holds]
  constructor
  · intro planned
    obtain ⟨statement, stated, planned⟩ := bindOk.1 planned
    obtain ⟨others, later, last⟩ := bindOk.1 planned
    exact ⟨statement, others, stated, later, (Except.ok.inj last).symm⟩
  · rintro ⟨statement, others, stated, later, rfl⟩
    exact bindOk.2 ⟨statement, stated, bindOk.2 ⟨others, later, rfl⟩⟩

theorem statementsSkip (bare : c.query? name = none) :
    c.statements limits (name :: names) = c.statements limits names := by
  simp only [Catalog.statements, bare]

theorem planOrdered (ordered : c.order limits = .ok names) :
    c.plan limits = c.statements limits names := by
  rw [plan, ordered]
  rfl

theorem planUnordered (unordered : c.order limits = .error fault) :
    c.plan limits = .error fault := by
  rw [plan, unordered]
  rfl

theorem statementsParts (planned : c.statements limits names = .ok statements) :
    statements.map Statement.table = names.filter (fun name => (c.query? name).isSome) ∧
      ∀ statement ∈ statements, ∃ query, c.query? statement.table = some query ∧
        Statement.ofQuery limits statement.table query = .ok statement := by
  induction names generalizing statements with
  | nil =>
    cases planned
    simp
  | cons name rest ih =>
    cases holds : c.query? name with
    | none =>
      rw [statementsSkip holds] at planned
      simpa [holds] using ih planned
    | some query =>
      obtain ⟨statement, others, stated, later, rfl⟩ := (statementsNext holds).1 planned
      obtain ⟨tables, parts⟩ := ih later
      obtain ⟨rfl, _, _⟩ := statementParts stated
      refine ⟨by simp [holds, tables], List.forall_mem_cons.2 ⟨⟨query, holds, stated⟩, parts⟩⟩

end Catalog

section Staged

variable {outcome : Except Fault (List (String × Instance))} {contents : List (String × Instance)}

theorem stagedPlanned (staged : Staged c limits names events (.ok contents)) :
    c.statements limits names = .ok (asked events) := by
  generalize ended : Except.ok contents = outcome at staged
  induction staged generalizing contents with
  | nil => rfl
  | skip bare _ ih => rw [Catalog.statementsSkip bare, ih ended]
  | stop => cases ended
  | @next _ _ _ _ _ _ outcome holds ran _ ih =>
    cases outcome with
    | error => cases ended
    | ok others =>
      obtain ⟨statement, stated, single⟩ := ranOkAsked ran
      refine (Catalog.statementsNext holds).2 ⟨statement, _, stated, ih rfl, ?_⟩
      rw [askedAppend, single, List.singleton_append]

theorem stagedBegins (staged : Staged c limits names events outcome)
    (planned : c.statements limits names = .ok statements) : asked events <+: statements := by
  induction staged generalizing statements with
  | nil => exact List.nil_prefix
  | skip bare _ ih => exact ih (Catalog.statementsSkip bare ▸ planned)
  | stop holds ran =>
    obtain ⟨statement, others, stated, _, rfl⟩ := (Catalog.statementsNext holds).1 planned
    rcases ranAsked ran with ⟨_, _, _, none⟩ | ⟨other, again, single⟩
    · exact none ▸ List.nil_prefix
    · cases again.symm.trans stated
      exact single ▸ List.prefix_append [statement] others
  | next holds ran _ ih =>
    obtain ⟨statement, others, stated, later, rfl⟩ := (Catalog.statementsNext holds).1 planned
    obtain ⟨other, again, single⟩ := ranOkAsked ran
    cases again.symm.trans stated
    rw [askedAppend, single, List.singleton_append]
    exact List.cons_prefix_cons.2 ⟨rfl, ih later⟩

end Staged

namespace Catalog

variable {result : Except Fault (List String)} {last : Catalog}

theorem materializedPlanned (materialized : Materialized c limits events (.ok names) last) :
    c.plan limits = .ok (asked events) := by
  rcases materializedEnds materialized with ⟨_, failed, _⟩ |
    ⟨order, first, later, contents, ordered, rfl, registered, staged, _, _⟩
  · cases failed
  · rw [planOrdered ordered, stagedPlanned staged, askedAppend, registeredAsked registered,
      List.nil_append]

theorem materializedBegins (materialized : Materialized c limits events result last)
    (planned : c.plan limits = .ok statements) : asked events <+: statements := by
  cases materialized with
  | unordered => exact List.nil_prefix
  | unregistered _ registered => exact registeredAsked registered ▸ List.nil_prefix
  | staged ordered registered staged =>
    rw [planOrdered ordered] at planned
    rw [askedAppend, registeredAsked registered, List.nil_append]
    exact stagedBegins staged planned

end Catalog

/-- An engine that refuses nothing, and whose rows are as wide as the schema that they are asked
for. -/
structure Engine.Obliging {σ : Type} (e : Engine σ) : Prop where
  registers : ∀ table content s, (e.register table content s).1 = .ok ()
  answers : ∀ table sql schema s, ∃ rows, (e.execute table sql schema s).1 = .ok rows ∧
    ∀ row ∈ rows, row.length = schema.size

namespace Engine

variable {σ : Type} {e : Engine σ}

theorem runQueryObliging {statement : Statement} (obliging : e.Obliging)
    (stated : Statement.ofQuery limits name query = .ok statement) (s : σ) :
    ∃ content after, e.runQuery limits name query s = (.ok content, after) := by
  obtain ⟨rows, answered, fits⟩ :=
    obliging.answers statement.table statement.sql statement.schema s
  obtain ⟨between, ran⟩ : ∃ between,
      e.execute statement.table statement.sql statement.schema s = (.ok rows, between) :=
    ⟨_, Prod.ext answered rfl⟩
  have accepted := e.registerTableWilling obliging.registers name ⟨statement.schema, rows⟩ between
  obtain ⟨after, registered⟩ : ∃ after,
      e.registerTable name ⟨statement.schema, rows⟩ between = (.ok (), after) :=
    ⟨_, Prod.ext accepted rfl⟩
  refine ⟨⟨statement.schema, rows⟩, after, ?_⟩
  simp only [runQuery, stated, run, ran, ofRowsExact.2 ⟨rfl, fits⟩, registered]

theorem stageObliging (obliging : e.Obliging) (names : List String) (s : σ) :
    (e.stage limits c names s).1.map Keyed.names =
      (c.statements limits names).map (List.map Statement.table) := by
  induction names generalizing s with
  | nil => rfl
  | cons name rest ih =>
    cases holds : c.query? name with
    | none => simpa only [stage, Catalog.statements, holds] using ih s
    | some query =>
      cases stated : Statement.ofQuery limits name query with
      | error fault =>
        simp only [stage, runQuery, Catalog.statements, holds, stated]
        rfl
      | ok statement =>
        obtain ⟨content, after, ran⟩ := runQueryObliging obliging stated s
        obtain ⟨rfl, _, _⟩ := statementParts stated
        have others := ih after
        simp only [stage, Catalog.statements, holds, stated, ran]
        generalize e.stage limits c rest after = told at others ⊢
        obtain ⟨outcome, last⟩ := told
        generalize c.statements limits rest = planned at others ⊢
        cases outcome with
        | error fault =>
          cases planned with
          | error cause =>
            cases others
            rfl
          | ok statements => cases others
        | ok contents =>
          cases planned with
          | error cause => cases others
          | ok statements =>
            have tables : Keyed.names contents = statements.map Statement.table :=
              Except.ok.inj others
            exact congrArg (fun names => Except.ok (statement.table :: names)) tables

end Engine

namespace Catalog

variable {σ : Type} {e : Engine σ}

theorem materializeObliging (obliging : e.Obliging) (c : Catalog) (limits : Limits) (s : σ) :
    (c.materializeAll e limits s).result =
      (c.plan limits).map (List.map Statement.table) := by
  unfold materializeAll
  cases ordered : c.order limits with
  | error fault =>
    rw [planUnordered ordered]
    rfl
  | ok names =>
    obtain ⟨after, registered⟩ : ∃ after, e.registerAll c.tables s = (.ok (), after) :=
      ⟨_, Prod.ext (e.registerAllWilling obliging.registers c.tables s) rfl⟩
    obtain ⟨_, _, staged⟩ := e.stageRecorded limits c names after []
    rw [planOrdered ordered, ← Engine.stageObliging obliging names after]
    simp only [registered]
    generalize e.stage limits c names after = told at staged ⊢
    obtain ⟨outcome, last⟩ := told
    cases outcome with
    | error fault => rfl
    | ok contents =>
      simp only [stagedSettles staged (orderArranged ordered)]
      rfl

theorem planWalked {σ : Type} (c : Catalog) (e : Engine σ) (limits : Limits) (s : σ) :
    let outcome := c.materializeAll e limits s
    let events := c.trace e limits s
    c.materializeAll e.recorded limits (s, []) =
        ⟨outcome.result, outcome.catalog, (outcome.state, events)⟩ ∧
      (∀ names, outcome.result = .ok names → c.plan limits = .ok (asked events)) ∧
      (∀ statements fault, c.plan limits = .ok statements → outcome.result = .error fault →
        asked events <+: statements) ∧
      ∀ fault, c.plan limits = .error fault →
        (∃ cause, outcome.result = .error cause) ∧
        (e.Obliging → outcome.result = .error fault) := by
  obtain ⟨faithful, materialized⟩ := c.traced e limits s
  refine ⟨faithful, fun names done => ?_, fun statements fault planned _ => ?_,
    fun fault unplanned => ⟨?_, fun obliging => ?_⟩⟩
  · exact materializedPlanned (done ▸ materialized)
  · exact materializedBegins materialized planned
  · cases ended : (c.materializeAll e limits s).result with
    | error cause => exact ⟨cause, rfl⟩
    | ok names => cases (materializedPlanned (ended ▸ materialized)).symm.trans unplanned
  · rw [materializeObliging obliging, unplanned]
    rfl

def shippingPlan : List Statement :=
  [⟨"flow", "SELECT Plant, -- STRING\nFROM routes", plants⟩,
    ⟨"supply", "SELECT Plant, -- STRING\nFROM flow", plants⟩]

def untyped : Catalog := .ofTables [
    { name := "flow", tableClass := .decision, kind := "COLUMN",
      body := .query (.object [("SELECT", .list [.literal "Plant -- STRING"]),
        ("FROM", .literal "routes")]) },
    { name := "supply", tableClass := .constraint, kind := "ROW",
      body := .query (.object [("SELECT", .literal "Plant"), ("FROM", .literal "flow")]) }]
  (by decide)

def naming : Engine Unit where
  register _ _ _ := (.ok (), ())
  execute table _ schema _ := (.ok [List.replicate schema.size (.string table)], ())

theorem namingObliging : naming.Obliging where
  registers _ _ _ := rfl
  answers _ _ _ _ := ⟨_, rfl, by simp⟩

theorem shippingWalked :
    shipping.plan {} = .ok shippingPlan ∧
      asked (shipping.trace (counting 5) {} 0) = shippingPlan ∧
      asked (shipping.trace (counting 2) {} 0) <+: shippingPlan ∧
      asked (shipping.trace (counting 2) {} 0) ≠ [] ∧
      untyped.plan {} = .error (.format (.unannotated "Plant")) ∧
      (untyped.materializeAll naming {} ()).result = .error (.format (.unannotated "Plant")) := by
  have planned : shipping.plan {} = .ok shippingPlan := by decide +kernel
  have done : (shipping.materializeAll (counting 5) {} 0).result = .ok ["flow", "supply"] := by
    decide +kernel
  have refused : (shipping.materializeAll (counting 2) {} 0).result =
      .error (.engine "flow" "full") := by decide +kernel
  have unplanned : untyped.plan {} = .error (.format (.unannotated "Plant")) := by decide +kernel
  obtain ⟨_, whole, _⟩ := planWalked shipping (counting 5) {} 0
  obtain ⟨_, _, begins, _⟩ := planWalked shipping (counting 2) {} 0
  obtain ⟨_, _, _, fails⟩ := planWalked untyped naming {} ()
  have same := (whole _ done).symm.trans planned
  exact ⟨planned, Except.ok.inj same, begins _ _ planned refused, by decide +kernel, unplanned,
    (fails _ unplanned).2 namingObliging⟩

end Catalog
end TablePlan
