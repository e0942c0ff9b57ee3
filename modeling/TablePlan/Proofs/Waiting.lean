import TablePlan.Proofs.Lookup
import TablePlan.Proofs.Trace
/-! No statement is executed before all that it reads from has been registered, whatever the engine
answers, and nothing is asked of the engine twice. -/
namespace TablePlan

variable {c : Catalog} {limits : Limits} {tables : List Table} {names : List String}
  {events before after : List Event} {table sql : String} {query : Clause} {schema : Schema}
  {content : Instance}

def holdings (tables : List Table) : List Event :=
  tables.filterMap fun t => t.content?.map fun content => .register t.name content (.ok ())

theorem contentBody {t : Table} : t.content? = some content ↔ t.body = .filled content := by
  unfold Table.content?
  split <;> simp_all

section Registered

variable {outcome : Except Fault Unit}

theorem registeredHolds (registered : Registered tables events outcome) : ∀ event ∈ events,
    ∃ t ∈ tables, ∃ content answer, t.body = .filled content ∧
      event = .register t.name content answer := by
  induction registered with
  | nil => simp
  | skip _ _ ih =>
    intro event member
    obtain ⟨t, inside, found⟩ := ih event member
    exact ⟨t, .tail _ inside, found⟩
  | refused holds =>
    intro event member
    cases List.mem_singleton.1 member
    exact ⟨_, .head _, _, _, contentBody.1 holds, rfl⟩
  | next holds _ ih =>
    intro event member
    rcases List.mem_cons.1 member with rfl | later
    · exact ⟨_, .head _, _, _, contentBody.1 holds, rfl⟩
    · obtain ⟨t, inside, found⟩ := ih event later
      exact ⟨t, .tail _ inside, found⟩

theorem heldExecutes (held : ∀ event ∈ events, ∃ t ∈ tables, ∃ content answer,
    t.body = .filled content ∧ event = .register t.name content answer) :
    events.filterMap Event.executed? = [] := by
  rw [List.filterMap_eq_nil_iff]
  intro event member
  obtain ⟨_, _, _, _, _, rfl⟩ := held event member
  rfl

theorem registeredNames (registered : Registered tables events outcome) :
    (events.filterMap Event.registered?).Sublist (tables.map Table.name) := by
  induction registered with
  | nil => exact .slnil
  | skip _ _ ih => exact .cons _ ih
  | refused => simp [Event.registered?]
  | next _ _ ih => exact .cons_cons _ ih

theorem registeredAll (registered : Registered tables events (.ok ())) :
    events = holdings tables := by
  generalize ended : Except.ok () = outcome at registered
  induction registered with
  | nil => rfl
  | skip bare _ ih => simpa [holdings, bare] using ih ended
  | refused => cases ended
  | next holds _ ih => simpa [holdings, holds] using ih ended

end Registered

section Ran

variable {outcome : Except Fault Instance} {named : String} {answer : Except String (List Row)}
  {reply : Except String Unit}

theorem ranShape (ran : Ran limits named query events outcome) :
    events = [] ∨ ∃ sql schema, Schema.ofQuery query = .ok schema ∧
      ((∃ answer, events = [.execute named sql schema answer]) ∨ ∃ rows reply, events =
        [.execute named sql schema (.ok rows), .register named ⟨schema, rows⟩ reply]) := by
  cases ran with
  | unstated => exact .inl rfl
  | failed stated | misfit stated =>
    obtain ⟨_, _, selected⟩ := statementParts stated
    exact .inr ⟨_, _, selected, .inl ⟨_, rfl⟩⟩
  | refused stated rowed | done stated rowed =>
    obtain ⟨_, _, selected⟩ := statementParts stated
    obtain ⟨rfl, -⟩ := ofRowsExact.1 rowed
    exact .inr ⟨_, _, selected, .inr ⟨_, _, rfl⟩⟩

theorem ranExecute (ran : Ran limits named query events outcome)
    (cut : events = before ++ .execute table sql schema answer :: after) :
    named = table ∧ before = [] := by
  rcases ranShape ran with rfl | ⟨_, _, _, ⟨_, rfl⟩ | ⟨_, _, rfl⟩⟩
  · simp at cut
  · cases before with
    | nil => simp_all
    | cons => simp at cut
  · rcases before with _ | ⟨head, _ | ⟨next, rest⟩⟩
    · simp_all
    · simp at cut
    · simp at cut

theorem ranRegister (ran : Ran limits named query events outcome)
    (cut : events = before ++ .register table content reply :: after) :
    named = table ∧ Schema.ofQuery query = .ok content.schema ∧
      ∃ sql, before = [.execute table sql content.schema (.ok content.rows)] := by
  rcases ranShape ran with rfl | ⟨sql, _, selected, ⟨_, rfl⟩ | ⟨_, _, rfl⟩⟩
  · simp at cut
  · cases before <;> simp at cut
  · rcases before with _ | ⟨head, _ | ⟨next, rest⟩⟩
    · simp at cut
    · simp only [List.cons_append, List.nil_append, List.cons.injEq, Event.register.injEq] at cut
      obtain ⟨rfl, ⟨rfl, rfl, rfl⟩, rfl⟩ := cut
      exact ⟨rfl, selected, sql, rfl⟩
    · simp at cut

end Ran

section Staged

variable {outcome : Except Fault (List (String × Instance))} {answer : Except String (List Row)}
  {reply : Except String Unit}

theorem stagedExecute (staged : Staged c limits names events outcome)
    (cut : events = before ++ .execute table sql schema answer :: after) :
    ∃ earlier later query, names = earlier ++ table :: later ∧ c.query? table = some query ∧
      ∀ name ∈ earlier, (c.query? name).isSome →
        ∃ content, .register name content (.ok ()) ∈ before := by
  induction staged generalizing before with
  | nil => simp at cut
  | @skip name _ _ _ bare _ ih =>
    obtain ⟨earlier, later, query, split, holds, registered⟩ := ih cut
    refine ⟨name :: earlier, later, query, by simp [split], holds, fun other member some => ?_⟩
    rcases List.mem_cons.1 member with rfl | inside
    · simp [bare] at some
    · exact registered other inside some
  | stop holds ran =>
    obtain ⟨rfl, rfl⟩ := ranExecute ran cut
    exact ⟨[], _, _, rfl, holds, by simp⟩
  | @next name _ _ content _ _ _ holds ran _ ih =>
    rcases cutAppend cut with ⟨_, inside, _⟩ | ⟨between, rfl, inside⟩
    · obtain ⟨rfl, rfl⟩ := ranExecute ran inside
      exact ⟨[], _, _, rfl, holds, by simp⟩
    · obtain ⟨earlier, later, query, split, found, registered⟩ := ih inside
      refine ⟨name :: earlier, later, query, by simp [split], found, fun other member some => ?_⟩
      rcases List.mem_cons.1 member with rfl | inside
      · cases ran with
        | done => exact ⟨content, by simp⟩
      · obtain ⟨content, there⟩ := registered other inside some
        exact ⟨content, List.mem_append_right _ there⟩

theorem stagedRegister (staged : Staged c limits names events outcome)
    (cut : events = before ++ .register table content reply :: after) :
    ∃ query sql earlier, c.query? table = some query ∧ Schema.ofQuery query = .ok content.schema ∧
      before = earlier ++ [.execute table sql content.schema (.ok content.rows)] := by
  induction staged generalizing before with
  | nil => simp at cut
  | skip _ _ ih => exact ih cut
  | stop holds ran =>
    obtain ⟨rfl, selected, sql, rfl⟩ := ranRegister ran cut
    exact ⟨_, sql, [], holds, selected, rfl⟩
  | @next _ _ _ _ first _ _ holds ran _ ih =>
    rcases cutAppend cut with ⟨_, inside, _⟩ | ⟨between, rfl, inside⟩
    · obtain ⟨rfl, selected, sql, rfl⟩ := ranRegister ran inside
      exact ⟨_, sql, [], holds, selected, rfl⟩
    · obtain ⟨query, sql, earlier, found, selected, rfl⟩ := ih inside
      exact ⟨query, sql, first ++ earlier, found, selected, by simp⟩

theorem ranTables {outcome : Except Fault Instance} (ran : Ran limits table query events outcome) :
    (events.filterMap Event.registered?).Sublist [table] ∧
      (events.filterMap Event.executed?).Sublist [table] ∧
      ∀ event ∈ events, event.table = table := by
  rcases ranShape ran with rfl | ⟨_, _, _, ⟨_, rfl⟩ | ⟨_, _, rfl⟩⟩
  · simp
  · exact ⟨List.nil_sublist _, List.Sublist.refl _, by simp [Event.table]⟩
  · exact ⟨List.Sublist.refl _, List.Sublist.refl _, by simp [Event.table]⟩

theorem stagedTables (staged : Staged c limits names events outcome) :
    (events.filterMap Event.registered?).Sublist names ∧
      (events.filterMap Event.executed?).Sublist names ∧
      ∀ event ∈ events, (c.query? event.table).isSome := by
  induction staged with
  | nil => simp
  | skip _ _ ih =>
    obtain ⟨registered, executed, queried⟩ := ih
    exact ⟨registered.cons _, executed.cons _, queried⟩
  | @stop name rest _ _ _ holds ran =>
    obtain ⟨registered, executed, own⟩ := ranTables ran
    have first : [name].Sublist (name :: rest) := by simp
    exact ⟨registered.trans first, executed.trans first, fun event member => by
      rw [own event member, holds]
      rfl⟩
  | next holds ran _ ih =>
    obtain ⟨firstRegistered, firstExecuted, own⟩ := ranTables ran
    obtain ⟨registered, executed, queried⟩ := ih
    rw [List.filterMap_append, List.filterMap_append]
    refine ⟨firstRegistered.append registered, firstExecuted.append executed, ?_⟩
    intro event member
    rcases List.mem_append.1 member with here | later
    · rw [own event here, holds]
      rfl
    · exact queried event later

end Staged

namespace Catalog

theorem queryOfFilled {t : Table} (member : t ∈ c.tables) (body : t.body = .filled content) :
    c.query? t.name = none := by
  simp [queryOf member, Table.query?, body]

/- Every run begins with registrations, and only if none of them fails there is more to come. -/
structure Parts (c : Catalog) (limits : Limits) (first later : List Event) : Prop where
  held : ∀ event ∈ first, ∃ t ∈ c.tables, ∃ content answer, t.body = .filled content ∧
    event = .register t.name content answer
  heldNames : (first.filterMap Event.registered?).Sublist (c.tables.map Table.name)
  more : later = [] ∨ first = holdings c.tables ∧ ∃ names outcome, c.Arranged limits names ∧
    Staged c limits names later outcome

theorem materializedParts {result : Except Fault (List String)} {last : Catalog}
    (materialized : Materialized c limits events result last) :
    ∃ first later, events = first ++ later ∧ Parts c limits first later := by
  cases materialized with
  | unordered => exact ⟨[], [], rfl, by simp, by simp, .inl rfl⟩
  | unregistered _ registered =>
    exact ⟨events, [], by simp, registeredHolds registered, registeredNames registered, .inl rfl⟩
  | @staged names first later outcome ordered registered staged =>
    exact ⟨first, later, rfl, registeredHolds registered, registeredNames registered,
      .inr ⟨registeredAll registered, names, outcome, orderArranged ordered, staged⟩⟩

namespace Parts

variable {first later : List Event} {answer : Except String (List Row)} {reply : Except String Unit}

theorem queried (parts : Parts c limits first later) :
    ∀ event ∈ later, (c.query? event.table).isSome := by
  rcases parts.more with rfl | ⟨_, _, _, _, staged⟩
  · simp
  · exact (stagedTables staged).2.2

theorem heldBare (parts : Parts c limits first later) :
    ∀ event ∈ first, c.query? event.table = none := by
  intro event member
  obtain ⟨t, inside, _, _, body, rfl⟩ := parts.held event member
  exact queryOfFilled inside body

theorem executes (parts : Parts c limits first later)
    (cut : first ++ later = before ++ .execute table sql schema answer :: after) :
    ∃ rest, before = first ++ rest ∧ later = rest ++ .execute table sql schema answer :: after := by
  rcases cutAppend cut with ⟨rest, inside, _⟩ | inside
  · obtain ⟨_, _, _, _, _, impossible⟩ :=
      parts.held (.execute table sql schema answer) (by simp [inside])
    cases impossible
  · exact inside

theorem holdingsFirst (parts : Parts c limits first later)
    (cut : first ++ later = before ++ .execute table sql schema answer :: after) :
    holdings c.tables <+: before := by
  obtain ⟨rest, rfl, inside⟩ := parts.executes cut
  rcases parts.more with rfl | ⟨whole, _⟩
  · simp at inside
  · exact whole ▸ List.prefix_append first rest

theorem waits (parts : Parts c limits first later)
    (cut : first ++ later = before ++ .execute table sql schema answer :: after) :
    ∃ query found, c.query? table = some query ∧ query.dependencies limits 0 = .ok found ∧
      ∀ t ∈ c.tables, t.name ∈ found → t.body ≠ .empty →
        ∃ content, .register t.name content (.ok ()) ∈ before := by
  have whole := parts.holdingsFirst cut
  obtain ⟨rest, rfl, inside⟩ := parts.executes cut
  rcases parts.more with rfl | ⟨_, names, outcome, arranged, staged⟩
  · simp at inside
  obtain ⟨earlier, others, query, split, holds, registered⟩ := stagedExecute staged inside
  obtain ⟨found, scanned, met⟩ := arranged.ordered earlier table others query split holds
  refine ⟨query, found, holds, scanned, fun t member needed filled => ?_⟩
  cases body : t.body with
  | empty => exact absurd body filled
  | filled content =>
    refine ⟨content, whole.subset (List.mem_filterMap.2 ⟨t, member, ?_⟩)⟩
    simp [contentBody.2 body]
  | query clause =>
    obtain ⟨content, there⟩ := registered t.name (met t.name needed)
      (by simp [queryOf member, bodyOfQuery.2 body])
    exact ⟨content, List.mem_append_right _ there⟩

theorem registeredOnce (parts : Parts c limits first later) :
    ((first ++ later).filterMap Event.registered?).Nodup := by
  rw [List.filterMap_append]
  refine List.nodup_append.2 ⟨parts.heldNames.nodup c.tablesDistinct, ?_, ?_⟩
  · rcases parts.more with rfl | ⟨_, _, _, arranged, staged⟩
    · simp
    · exact (stagedTables staged).1.nodup arranged.distinct
  · intro one left other right same
    obtain ⟨event, here, name⟩ := List.mem_filterMap.1 left
    obtain ⟨next, there, otherName⟩ := List.mem_filterMap.1 right
    have bare := parts.heldBare event here
    have some := parts.queried next there
    rw [Event.tableOfRegistered name, same] at bare
    rw [Event.tableOfRegistered otherName, bare] at some
    cases some

theorem executedOnce (parts : Parts c limits first later) :
    ((first ++ later).filterMap Event.executed?).Nodup := by
  rw [List.filterMap_append, heldExecutes parts.held, List.nil_append]
  rcases parts.more with rfl | ⟨_, _, _, arranged, staged⟩
  · simp
  · exact (stagedTables staged).2.1.nodup arranged.distinct

theorem rowsReturned (parts : Parts c limits first later)
    (cut : first ++ later = before ++ .register table content reply :: after)
    (holds : c.query? table = some query) :
    ∃ sql earlier, Schema.ofQuery query = .ok content.schema ∧
      before = earlier ++ [.execute table sql content.schema (.ok content.rows)] := by
  rcases cutAppend cut with ⟨rest, inside, _⟩ | ⟨rest, rfl, inside⟩
  · have bare := parts.heldBare (.register table content reply) (by simp [inside])
    cases bare.symm.trans holds
  · rcases parts.more with rfl | ⟨_, _, _, _, staged⟩
    · simp at inside
    obtain ⟨other, sql, earlier, found, selected, rfl⟩ := stagedRegister staged inside
    cases holds.symm.trans found
    exact ⟨sql, first ++ earlier, selected, by simp⟩

theorem rowsHeld (parts : Parts c limits first later)
    (member : .register table content reply ∈ first ++ later) (bare : c.query? table = none) :
    ∃ t ∈ c.tables, t.name = table ∧ t.body = .filled content := by
  rcases List.mem_append.1 member with here | there
  · obtain ⟨t, inside, _, _, body, same⟩ := parts.held _ here
    cases same
    exact ⟨t, inside, rfl, body⟩
  · have some := parts.queried _ there
    simp [Event.table, bare] at some

theorem emptyIgnored (parts : Parts c limits first later) {t : Table} (member : t ∈ c.tables)
    (empty : t.body = .empty) : ∀ event ∈ first ++ later, event.table ≠ t.name := by
  intro event inside same
  rcases List.mem_append.1 inside with here | there
  · obtain ⟨other, known, _, _, body, rfl⟩ := parts.held event here
    have found := findOf known
    rw [show other.name = t.name from same, findOf member] at found
    cases found
    cases body.symm.trans empty
  · have some := parts.queried event there
    simp [same, queryOf member, Table.query?, empty] at some

end Parts

structure Orderly (c : Catalog) (limits : Limits) (events : List Event) : Prop where
  waits : ∀ before table sql schema answer after,
    events = before ++ .execute table sql schema answer :: after →
    ∃ query found, c.query? table = some query ∧ query.dependencies limits 0 = .ok found ∧
      ∀ t ∈ c.tables, t.name ∈ found → t.body ≠ .empty →
        ∃ content, .register t.name content (.ok ()) ∈ before
  holdingsFirst : ∀ before table sql schema answer after,
    events = before ++ .execute table sql schema answer :: after → holdings c.tables <+: before
  registeredOnce : (events.filterMap Event.registered?).Nodup
  executedOnce : (events.filterMap Event.executed?).Nodup
  rowsReturned : ∀ before table content answer after query,
    events = before ++ .register table content answer :: after → c.query? table = some query →
    ∃ sql earlier, Schema.ofQuery query = .ok content.schema ∧
      before = earlier ++ [.execute table sql content.schema (.ok content.rows)]
  rowsHeld : ∀ table content answer, .register table content answer ∈ events →
    c.query? table = none → ∃ t ∈ c.tables, t.name = table ∧ t.body = .filled content
  emptyIgnored : ∀ t ∈ c.tables, t.body = .empty → ∀ event ∈ events, event.table ≠ t.name

theorem statementsWait {σ : Type} (c : Catalog) (e : Engine σ) (limits : Limits) (s : σ) :
    c.materializeAll e.recorded limits (s, []) =
        ⟨(c.materializeAll e limits s).result, (c.materializeAll e limits s).catalog,
          ((c.materializeAll e limits s).state, c.trace e limits s)⟩ ∧
      Orderly c limits (c.trace e limits s) := by
  obtain ⟨faithful, materialized⟩ := c.traced e limits s
  obtain ⟨first, later, split, parts⟩ := materializedParts materialized
  refine ⟨faithful, ?_⟩
  rw [split]
  exact ⟨fun _ _ _ _ _ _ => parts.waits, fun _ _ _ _ _ _ => parts.holdingsFirst,
    parts.registeredOnce, parts.executedOnce, fun _ _ _ _ _ _ => parts.rowsReturned,
    fun _ _ _ => parts.rowsHeld, fun _ => parts.emptyIgnored⟩

def plants : Schema := ⟨[⟨"Plant", .string⟩], by decide⟩

def shipping : Catalog := .ofTables [
    { name := "supply", tableClass := .constraint, kind := "ROW",
      body := .query (.object [("SELECT", .list [.literal "Plant -- STRING"]),
        ("FROM", .literal "flow")]) },
    { name := "flow", tableClass := .decision, kind := "COLUMN",
      body := .query (.object [("SELECT", .list [.literal "Plant -- STRING"]),
        ("FROM", .literal "routes")]) },
    { name := "routes", tableClass := .data, kind := "INPUT",
      body := .filled ⟨plants, [[.string "north"]]⟩ }] (by decide)

def counting (last : Nat) : Engine Nat where
  register _ _ calls := (if calls < last then .ok () else .error "full", calls + 1)
  execute table _ _ calls :=
    (if calls < last then .ok [[.string table]] else .error "full", calls + 1)

theorem shippingWaits :
    (shipping.trace (counting 3) {} 0).map Event.table = ["routes", "flow", "flow", "supply"] ∧
      Orderly shipping {} (shipping.trace (counting 3) {} 0) :=
  ⟨by decide +kernel, (statementsWait shipping (counting 3) {} 0).2⟩

end Catalog
end TablePlan
