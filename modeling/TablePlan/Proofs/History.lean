import TablePlan.Proofs.Trace
/-! Histories of an engine: what it has been asked and has answered, with the state in which that
left it. Whatever is asked of it while a catalog is materialized is such a history. -/
namespace TablePlan

variable {σ : Type}

namespace Engine

/-- All that an engine can have been through since it was in the state `s`. -/
inductive History (e : Engine σ) (s : σ) : List Event → σ → Prop where
  | begin : History e s [] s
  | register {events state} (table : String) (content : Instance)
      (earlier : History e s events state) :
      History e s (events ++ [.register table content (e.register table content state).1])
        (e.register table content state).2
  | execute {events state} (table sql : String) (schema : Schema)
      (earlier : History e s events state) :
      History e s (events ++ [.execute table sql schema (e.execute table sql schema state).1])
        (e.execute table sql schema state).2

theorem historyCut {e : Engine σ} {s state : σ} {events before after : List Event}
    {table sql : String} {schema : Schema} {answer : Except String (List Row)}
    (history : e.History s events state)
    (cut : events = before ++ .execute table sql schema answer :: after) :
    ∃ between, e.History s before between ∧
      (e.execute table sql schema between).1 = answer := by
  induction history generalizing after with
  | begin => simp at cut
  | register _ _ _ ih =>
    rcases cutAppend cut with ⟨rest, inside, _⟩ | ⟨rest, _, last⟩
    · exact ih inside
    · cases rest <;> simp at last
  | execute _ _ _ earlier ih =>
    rcases cutAppend cut with ⟨rest, inside, _⟩ | ⟨rest, whole, last⟩
    · exact ih inside
    · cases rest with
      | nil =>
        cases last
        rw [List.append_nil] at whole
        exact ⟨_, whole ▸ earlier, rfl⟩
      | cons => simp at last

section Keeps

variable {e : Engine σ} {kept : σ → Prop}
  (registers : ∀ table content s, kept s → kept (e.register table content s).2)
  (executes : ∀ table sql schema s, kept s → kept (e.execute table sql schema s).2)

section Registers

include registers

theorem registerTableKeeps (table : String) (content : Instance) {s : σ} (now : kept s) :
    kept (e.registerTable table content s).2 := by
  have next := registers table content s now
  unfold registerTable
  generalize e.register table content s = told at next
  obtain ⟨answer, after⟩ := told
  cases answer <;> exact next

theorem registerAllKeeps (tables : List Table) {s : σ} (now : kept s) :
    kept (e.registerAll tables s).2 := by
  induction tables generalizing s with
  | nil => exact now
  | cons t rest ih =>
    unfold registerAll
    cases t.content? with
    | none => exact ih now
    | some content =>
      have next := registerTableKeeps registers t.name content now
      dsimp only
      generalize e.registerTable t.name content s = told at next
      obtain ⟨outcome, after⟩ := told
      cases outcome with
      | error fault => exact next
      | ok _ => exact ih next

end Registers

include executes in
theorem runKeeps (statement : Statement) {s : σ} (now : kept s) : kept (e.run statement s).2 := by
  have next := executes statement.table statement.sql statement.schema s now
  unfold run
  generalize e.execute statement.table statement.sql statement.schema s = told at next
  obtain ⟨answer, after⟩ := told
  cases answer <;> exact next

include registers executes

theorem runQueryKeeps (limits : Limits) (table : String) (query : Clause) {s : σ} (now : kept s) :
    kept (e.runQuery limits table query s).2 := by
  unfold runQuery
  cases Statement.ofQuery limits table query with
  | error fault => exact now
  | ok statement =>
    have next := runKeeps executes statement now
    dsimp only
    generalize e.run statement s = told at next
    obtain ⟨outcome, between⟩ := told
    cases outcome with
    | error fault => exact next
    | ok content =>
      have last := registerTableKeeps registers table content next
      dsimp only
      generalize e.registerTable table content between = told at last
      obtain ⟨outcome, after⟩ := told
      cases outcome <;> exact last

theorem stageKeeps (limits : Limits) (c : Catalog) (names : List String) {s : σ} (now : kept s) :
    kept (e.stage limits c names s).2 := by
  induction names generalizing s with
  | nil => exact now
  | cons name rest ih =>
    unfold stage
    cases c.query? name with
    | none => exact ih now
    | some query =>
      have next := runQueryKeeps registers executes limits name query now
      dsimp only
      generalize e.runQuery limits name query s = told at next
      obtain ⟨outcome, between⟩ := told
      cases outcome with
      | error fault => exact next
      | ok content =>
        have last := ih next
        dsimp only
        generalize e.stage limits c rest between = told at last
        obtain ⟨outcome, after⟩ := told
        cases outcome <;> exact last

theorem materializeKeeps (c : Catalog) (limits : Limits) {s : σ} (now : kept s) :
    kept (c.materializeAll e limits s).state := by
  unfold Catalog.materializeAll
  cases c.order limits with
  | error fault => exact now
  | ok names =>
    have next := registerAllKeeps registers c.tables now
    dsimp only
    generalize e.registerAll c.tables s = told at next
    obtain ⟨outcome, between⟩ := told
    cases outcome with
    | error fault => exact next
    | ok _ =>
      have last := stageKeeps registers executes limits c names next
      dsimp only
      generalize e.stage limits c names between = told at last
      obtain ⟨outcome, after⟩ := told
      cases outcome <;> exact last

end Keeps

end Engine

theorem Catalog.traceHistory (c : Catalog) (e : Engine σ) (limits : Limits) (s : σ) :
    e.History s (c.trace e limits s) (c.materializeAll e limits s).state := by
  have recorded := @Engine.materializeKeeps _ e.recorded (fun now => e.History s now.2 now.1)
    (fun table content _ earlier => earlier.register table content)
    (fun table sql schema _ earlier => earlier.execute table sql schema) c limits (s, []) .begin
  rw [(c.traced e limits s).1] at recorded
  exact recorded

end TablePlan
