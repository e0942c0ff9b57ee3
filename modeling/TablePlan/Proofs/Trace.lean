import TablePlan.Catalog.Engine
import TablePlan.Proofs.Sequence
/-! What an engine is asked to do while a catalog is materialized, as relations that hold of every
engine: they say which event may follow upon which answer, and how the work ends. -/
namespace TablePlan

theorem statementParts {limits : Limits} {table : String} {query : Clause} {statement : Statement}
    (stated : Statement.ofQuery limits table query = .ok statement) :
    statement.table = table ∧ query.sql limits = .ok statement.sql ∧
      Schema.ofQuery query = .ok statement.schema := by
  obtain ⟨sql, rendered, stated⟩ := bindOk.1 stated
  obtain ⟨schema, selected, last⟩ := bindOk.1 stated
  cases last
  exact ⟨rfl, rendered, selected⟩

theorem ofRowsExact {schema : Schema} {rows : List Row} {content : Instance} :
    Instance.ofRows schema rows = .ok content ↔
      content = ⟨schema, rows⟩ ∧ ∀ row ∈ rows, row.length = schema.size := by
  rw [← @Instance.noMisfit schema.size 0 rows, Instance.ofRows]
  split
  · rename_i fits
    rw [Except.ok.injEq, fits, eq_comm]
    exact (and_iff_left rfl).symm
  · rename_i misfit
    rw [misfit]
    exact ⟨nofun, nofun⟩

namespace Event

def table : Event → String
  | .register table _ _ | .execute table _ _ _ => table

def registered? : Event → Option String
  | .register table _ _ => some table
  | .execute _ _ _ _ => none

def executed? : Event → Option String
  | .execute table _ _ _ => some table
  | .register _ _ _ => none

theorem tableOfRegistered {event : Event} {name : String} (asked : event.registered? = some name) :
    event.table = name := by
  cases event with
  | register => exact Option.some.inj asked
  | execute => cases asked

end Event

inductive Registered : List Table → List Event → Except Fault Unit → Prop where
  | nil : Registered [] [] (.ok ())
  | skip {t rest events outcome} (bare : t.content? = none)
      (later : Registered rest events outcome) : Registered (t :: rest) events outcome
  | refused {t rest content message} (holds : t.content? = some content) :
      Registered (t :: rest) [.register t.name content (.error message)]
        (.error (.engine t.name message))
  | next {t rest content events outcome} (holds : t.content? = some content)
      (later : Registered rest events outcome) :
      Registered (t :: rest) (.register t.name content (.ok ()) :: events) outcome

inductive Ran (limits : Limits) (table : String) (query : Clause) :
    List Event → Except Fault Instance → Prop where
  | unstated {fault} (stated : Statement.ofQuery limits table query = .error fault) :
      Ran limits table query [] (.error fault)
  | failed {sql schema message}
      (stated : Statement.ofQuery limits table query = .ok ⟨table, sql, schema⟩) :
      Ran limits table query [.execute table sql schema (.error message)]
        (.error (.engine table message))
  | misfit {sql schema rows fault}
      (stated : Statement.ofQuery limits table query = .ok ⟨table, sql, schema⟩)
      (rowed : Instance.ofRows schema rows = .error fault) :
      Ran limits table query [.execute table sql schema (.ok rows)] (.error fault)
  | refused {sql schema rows content message}
      (stated : Statement.ofQuery limits table query = .ok ⟨table, sql, schema⟩)
      (rowed : Instance.ofRows schema rows = .ok content) :
      Ran limits table query
        [.execute table sql schema (.ok rows), .register table content (.error message)]
        (.error (.engine table message))
  | done {sql schema rows content}
      (stated : Statement.ofQuery limits table query = .ok ⟨table, sql, schema⟩)
      (rowed : Instance.ofRows schema rows = .ok content) :
      Ran limits table query
        [.execute table sql schema (.ok rows), .register table content (.ok ())] (.ok content)

inductive Staged (c : Catalog) (limits : Limits) :
    List String → List Event → Except Fault (List (String × Instance)) → Prop where
  | nil : Staged c limits [] [] (.ok [])
  | skip {name rest events outcome} (bare : c.query? name = none)
      (later : Staged c limits rest events outcome) : Staged c limits (name :: rest) events outcome
  | stop {name rest query events fault} (holds : c.query? name = some query)
      (ran : Ran limits name query events (.error fault)) :
      Staged c limits (name :: rest) events (.error fault)
  | next {name rest query content first events outcome} (holds : c.query? name = some query)
      (ran : Ran limits name query first (.ok content))
      (later : Staged c limits rest events outcome) :
      Staged c limits (name :: rest) (first ++ events) (outcome.map ((name, content) :: ·))

def Catalog.conclude (c : Catalog) :
    Except Fault (List (String × Instance)) → Except Fault (List String) × Catalog
  | .error fault => (.error fault, c)
  | .ok contents => c.settle contents

inductive Materialized (c : Catalog) (limits : Limits) :
    List Event → Except Fault (List String) → Catalog → Prop where
  | unordered {fault} (ordered : c.order limits = .error fault) :
      Materialized c limits [] (.error fault) c
  | unregistered {names events fault} (ordered : c.order limits = .ok names)
      (registered : Registered c.tables events (.error fault)) :
      Materialized c limits events (.error fault) c
  | staged {names first events outcome} (ordered : c.order limits = .ok names)
      (registered : Registered c.tables first (.ok ()))
      (staged : Staged c limits names events outcome) :
      Materialized c limits (first ++ events) (c.conclude outcome).1 (c.conclude outcome).2

namespace Engine

variable {σ : Type} (e : Engine σ)

theorem registerTableRecorded (table : String) (content : Instance) (s : σ) (events : List Event) :
    ∃ answer, e.recorded.registerTable table content (s, events) =
        ((e.registerTable table content s).1, (e.registerTable table content s).2,
          events ++ [.register table content answer]) ∧
      (answer = .ok () ∧ (e.registerTable table content s).1 = .ok () ∨
        ∃ message, answer = .error message ∧
          (e.registerTable table content s).1 = .error (.engine table message)) := by
  cases answered : e.register table content s with
  | mk answer after =>
    have told : e.recorded.register table content (s, events) =
        (answer, after, events ++ [.register table content answer]) := by
      simp [recorded, answered]
    simp only [registerTable, told, answered]
    cases answer with
    | error message => exact ⟨.error message, rfl, .inr ⟨message, rfl, rfl⟩⟩
    | ok _ => exact ⟨.ok (), rfl, .inl ⟨rfl, rfl⟩⟩

theorem registerAllRecorded (tables : List Table) (s : σ) (events : List Event) :
    ∃ more, e.recorded.registerAll tables (s, events) =
        ((e.registerAll tables s).1, (e.registerAll tables s).2, events ++ more) ∧
      Registered tables more (e.registerAll tables s).1 := by
  induction tables generalizing s events with
  | nil => exact ⟨[], by simp [registerAll], .nil⟩
  | cons t rest ih =>
    cases holds : t.content? with
    | none =>
      obtain ⟨more, same, registered⟩ := ih s events
      simp only [registerAll, holds]
      exact ⟨more, same, .skip holds registered⟩
    | some content =>
      obtain ⟨answer, asked, reply⟩ := registerTableRecorded e t.name content s events
      simp only [registerAll, holds, asked]
      generalize e.registerTable t.name content s = told at reply ⊢
      obtain ⟨outcome, after⟩ := told
      rcases reply with ⟨rfl, rfl⟩ | ⟨message, rfl, rfl⟩
      · obtain ⟨more, same, registered⟩ := ih after (events ++ [.register t.name content (.ok ())])
        exact ⟨_ :: more, by simpa using same, .next holds registered⟩
      · exact ⟨_, rfl, .refused holds⟩

theorem runQueryRecorded (limits : Limits) (table : String) (query : Clause) (s : σ)
    (events : List Event) :
    ∃ more, e.recorded.runQuery limits table query (s, events) =
        ((e.runQuery limits table query s).1, (e.runQuery limits table query s).2,
          events ++ more) ∧
      Ran limits table query more (e.runQuery limits table query s).1 := by
  unfold runQuery
  cases stated : Statement.ofQuery limits table query with
  | error fault => exact ⟨[], by simp, .unstated stated⟩
  | ok statement =>
    obtain ⟨named, sql, schema⟩ := statement
    obtain ⟨rfl, _, _⟩ := statementParts stated
    cases answered : e.execute named sql schema s with
    | mk answer after =>
      have told : e.recorded.execute named sql schema (s, events) =
          (answer, after, events ++ [.execute named sql schema answer]) := by
        simp [recorded, answered]
      simp only [run, told, answered]
      cases answer with
      | error message => exact ⟨_, rfl, .failed stated⟩
      | ok rows =>
        cases rowed : Instance.ofRows schema rows with
        | error fault => exact ⟨[.execute named sql schema (.ok rows)], by simp [rowed],
            by simpa [rowed] using Ran.misfit stated rowed⟩
        | ok content =>
          obtain ⟨reply, asked, replied⟩ := registerTableRecorded e named content after
            (events ++ [.execute named sql schema (.ok rows)])
          simp only [rowed, asked]
          generalize e.registerTable named content after = told at replied ⊢
          obtain ⟨outcome, last⟩ := told
          rcases replied with ⟨rfl, rfl⟩ | ⟨message, rfl, rfl⟩
          · exact ⟨_, by simp, .done stated rowed⟩
          · exact ⟨_, by simp, .refused stated rowed⟩

theorem stageRecorded (limits : Limits) (c : Catalog) (names : List String) (s : σ)
    (events : List Event) :
    ∃ more, e.recorded.stage limits c names (s, events) =
        ((e.stage limits c names s).1, (e.stage limits c names s).2, events ++ more) ∧
      Staged c limits names more (e.stage limits c names s).1 := by
  induction names generalizing s events with
  | nil => exact ⟨[], by simp [stage], .nil⟩
  | cons name rest ih =>
    cases holds : c.query? name with
    | none =>
      obtain ⟨more, same, staged⟩ := ih s events
      simp only [stage, holds]
      exact ⟨more, same, .skip holds staged⟩
    | some query =>
      obtain ⟨first, asked, ran⟩ := runQueryRecorded e limits name query s events
      simp only [stage, holds, asked]
      generalize e.runQuery limits name query s = told at ran ⊢
      obtain ⟨outcome, after⟩ := told
      cases outcome with
      | error fault => exact ⟨first, rfl, .stop holds ran⟩
      | ok content =>
        obtain ⟨more, same, staged⟩ := ih after (events ++ first)
        simp only [same]
        generalize e.stage limits c rest after = told at staged ⊢
        obtain ⟨outcome, last⟩ := told
        cases outcome with
        | error fault => exact ⟨first ++ more, by simp, .next holds ran staged⟩
        | ok contents => exact ⟨first ++ more, by simp, .next holds ran staged⟩

end Engine

namespace Catalog

variable {σ : Type}

theorem materializeRecorded (c : Catalog) (e : Engine σ) (limits : Limits) (s : σ)
    (events : List Event) :
    ∃ more, c.materializeAll e.recorded limits (s, events) =
        ⟨(c.materializeAll e limits s).result, (c.materializeAll e limits s).catalog,
          ((c.materializeAll e limits s).state, events ++ more)⟩ ∧
      Materialized c limits more (c.materializeAll e limits s).result
        (c.materializeAll e limits s).catalog := by
  unfold materializeAll
  cases ordered : c.order limits with
  | error fault => exact ⟨[], by simp, .unordered ordered⟩
  | ok names =>
    obtain ⟨first, asked, registered⟩ := e.registerAllRecorded c.tables s events
    simp only [asked]
    generalize e.registerAll c.tables s = told at registered ⊢
    obtain ⟨outcome, after⟩ := told
    cases outcome with
    | error fault => exact ⟨first, rfl, .unregistered ordered registered⟩
    | ok _ =>
      obtain ⟨more, same, staged⟩ := e.stageRecorded limits c names after (events ++ first)
      simp only [same]
      generalize e.stage limits c names after = told at staged ⊢
      obtain ⟨outcome, last⟩ := told
      cases outcome with
      | error fault => exact ⟨first ++ more, by simp, .staged ordered registered staged⟩
      | ok contents => exact ⟨first ++ more, by simp, .staged ordered registered staged⟩

def trace (c : Catalog) (e : Engine σ) (limits : Limits) (s : σ) : List Event :=
  (c.materializeAll e.recorded limits (s, [])).state.2

theorem traced (c : Catalog) (e : Engine σ) (limits : Limits) (s : σ) :
    c.materializeAll e.recorded limits (s, []) =
        ⟨(c.materializeAll e limits s).result, (c.materializeAll e limits s).catalog,
          ((c.materializeAll e limits s).state, c.trace e limits s)⟩ ∧
      Materialized c limits (c.trace e limits s) (c.materializeAll e limits s).result
        (c.materializeAll e limits s).catalog := by
  obtain ⟨more, same, materialized⟩ := c.materializeRecorded e limits s []
  have recorded : c.trace e limits s = more := by simp [trace, same]
  rw [recorded]
  exact ⟨same, materialized⟩

end Catalog
end TablePlan
