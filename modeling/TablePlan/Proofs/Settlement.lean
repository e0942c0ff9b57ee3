import Mathlib.Data.List.Forall2
import TablePlan.Proofs.Waiting
/-! A materialization fills all tables that hold queries and nothing else, or it leaves the catalog
as it was. What has been staged always settles, so there is no way out in between. -/
namespace TablePlan

variable {c : Catalog} {limits : Limits} {names : List String} {events : List Event}
  {name other : String} {query : Clause} {content : Instance}
  {contents : List (String × Instance)}

theorem ranDone (ran : Ran limits name query events (.ok content)) :
    ∃ sql, query.sql limits = .ok sql ∧ Schema.ofQuery query = .ok content.schema ∧
      events = [.execute name sql content.schema (.ok content.rows),
        .register name content (.ok ())] := by
  cases ran with
  | @done sql _ _ _ stated rowed =>
    obtain ⟨_, rendered, selected⟩ := statementParts stated
    obtain ⟨rfl, -⟩ := ofRowsExact.1 rowed
    exact ⟨sql, rendered, selected, rfl⟩

theorem stagedContents (staged : Staged c limits names events (.ok contents)) :
    Keyed.names contents = names.filter (fun name => (c.query? name).isSome) ∧
      events.filterMap Event.executed? = Keyed.names contents ∧
      ∀ entry ∈ contents, ∃ query sql, c.query? entry.1 = some query ∧
        Schema.ofQuery query = .ok entry.2.schema ∧
        .execute entry.1 sql entry.2.schema (.ok entry.2.rows) ∈ events := by
  generalize ended : Except.ok contents = outcome at staged
  induction staged generalizing contents with
  | nil =>
    cases ended
    simp [Keyed.names]
  | skip bare _ ih => simpa [bare] using ih ended
  | stop => cases ended
  | @next name rest query content first events outcome holds ran _ ih =>
    obtain ⟨sql, _, selected, rfl⟩ := ranDone ran
    cases outcome with
    | error fault => cases ended
    | ok others =>
      cases ended
      obtain ⟨listed, executed, answered⟩ := ih rfl
      refine ⟨?_, ?_, ?_⟩
      · simpa [holds, Keyed.names] using listed
      · exact congrArg (name :: ·) executed
      · intro entry member
        rcases List.mem_cons.1 member with rfl | later
        · exact ⟨query, sql, holds, selected, by simp⟩
        · obtain ⟨query, sql, found, selected, inside⟩ := answered entry later
          exact ⟨query, sql, found, selected, List.mem_append_right _ inside⟩

section Willing

variable {σ : Type} (e : Engine σ)
  (willing : ∀ table content s, (e.register table content s).1 = .ok ())
include willing

theorem Engine.registerTableWilling (table : String) (content : Instance) (s : σ) :
    (e.registerTable table content s).1 = .ok () := by
  have accepted := willing table content s
  unfold registerTable
  generalize e.register table content s = told at accepted
  obtain ⟨answer, after⟩ := told
  cases accepted
  rfl

theorem Engine.registerAllWilling (tables : List Table) (s : σ) :
    (e.registerAll tables s).1 = .ok () := by
  induction tables generalizing s with
  | nil => rfl
  | cons t rest ih =>
    cases holds : t.content? with
    | none => simpa only [registerAll, holds] using ih s
    | some content =>
      have accepted := e.registerTableWilling willing t.name content s
      simp only [registerAll, holds]
      generalize e.registerTable t.name content s = told at accepted
      obtain ⟨outcome, after⟩ := told
      cases accepted
      exact ih after

end Willing

namespace Catalog

theorem fillFind (c : Catalog) (name other : String) (content : Instance) :
    (c.fill name content).find? other =
      (c.find? other).map fun t => if other = name then t.fill content else t :=
  Keyed.findChange name other (fun t : Table => t.fill content) c.entries

theorem fillFindOther (apart : other ≠ name) :
    (c.fill name content).find? other = c.find? other := by
  simp [fillFind, apart]

theorem fillQueryOther (apart : other ≠ name) :
    (c.fill name content).query? other = c.query? other := by
  rw [query?, fillFindOther apart, query?]

def fillAll (c : Catalog) : List (String × Instance) → Catalog
  | [] => c
  | (name, content) :: rest => (c.fill name content).fillAll rest

theorem materializeQuery (holds : c.query? name = some query) :
    c.materialize name content = .ok (query, c.fill name content) := by
  obtain ⟨t, member, rfl, body⟩ := queryExact.1 holds
  simp only [materialize, findOf member, Table.materialize, body]
  rfl

theorem settleFills (distinct : (Keyed.names contents).Nodup)
    (queried : ∀ entry ∈ contents, (c.query? entry.1).isSome) :
    c.settle contents = (.ok (Keyed.names contents), c.fillAll contents) := by
  induction contents generalizing c with
  | nil => rfl
  | cons entry rest ih =>
    obtain ⟨name, content⟩ := entry
    obtain ⟨fresh, others⟩ := List.nodup_cons.1 distinct
    obtain ⟨head, later⟩ := List.forall_mem_cons.1 queried
    obtain ⟨query, holds⟩ := Option.isSome_iff_exists.1 head
    have still : ∀ entry ∈ rest, ((c.fill name content).query? entry.1).isSome := by
      intro entry member
      have apart : entry.1 ≠ name := by
        rintro rfl
        exact fresh (List.mem_map.2 ⟨entry, member, rfl⟩)
      rw [fillQueryOther apart]
      exact later entry member
    simp only [settle, materializeQuery holds, ih others still]
    rfl

def settled (contents : List (String × Instance)) (t : Table) : Table :=
  match Keyed.find? t.name contents with
  | some content => t.fill content
  | none => t

theorem fillAllTables (distinct : (Keyed.names contents).Nodup) :
    (c.fillAll contents).tables = c.tables.map (settled contents) := by
  induction contents generalizing c with
  | nil =>
    have unchanged : settled [] = id := rfl
    simp [fillAll, unchanged]
  | cons entry rest ih =>
    obtain ⟨name, content⟩ := entry
    obtain ⟨fresh, others⟩ := List.nodup_cons.1 distinct
    rw [fillAll, ih others, fillTables, List.map_map]
    apply List.map_congr_left
    intro t _
    by_cases same : t.name = name
    · have last : Keyed.find? t.name rest = none := Keyed.findFresh (same ▸ fresh)
      simp [settled, Keyed.find?, same, Table.fill, same ▸ last]
    · have apart : ¬name = t.name := fun h => same h.symm
      simp [settled, Keyed.find?, same, apart]

theorem stagedSettles (staged : Staged c limits names events (.ok contents))
    (arranged : c.Arranged limits names) :
    c.settle contents = (.ok (Keyed.names contents), c.fillAll contents) := by
  obtain ⟨listed, _, answered⟩ := stagedContents staged
  refine settleFills (listed ▸ arranged.distinct.filter _) fun entry member => ?_
  obtain ⟨query, _, holds, _⟩ := answered entry member
  simp [holds]

theorem materializedEnds {result : Except Fault (List String)} {after : Catalog}
    (materialized : Materialized c limits events result after) :
    (∃ fault, result = .error fault ∧ after = c) ∨
      ∃ names first later contents, c.order limits = .ok names ∧ events = first ++ later ∧
        Registered c.tables first (.ok ()) ∧ Staged c limits names later (.ok contents) ∧
        result = .ok (Keyed.names contents) ∧ after = c.fillAll contents := by
  cases materialized with
  | unordered | unregistered => exact .inl ⟨_, rfl, rfl⟩
  | @staged names first later outcome ordered registered staged =>
    cases outcome with
    | error fault => exact .inl ⟨fault, rfl, rfl⟩
    | ok contents =>
      have settles := stagedSettles staged (orderArranged ordered)
      exact .inr ⟨names, first, later, contents, ordered, rfl, registered, staged,
        by simp [conclude, settles], by simp [conclude, settles]⟩

section Bare

variable (bare : ∀ t ∈ c.tables, t.query? = none)
include bare

theorem queryBare (name : String) : c.query? name = none := by
  cases holds : c.query? name with
  | none => rfl
  | some query =>
    obtain ⟨t, member, _, body⟩ := queryExact.1 holds
    cases (bare t member).symm.trans (bodyOfQuery.2 body)

theorem orderBare (limits : Limits) : c.order limits = .ok c.names := by
  have entries : ∀ entry ∈ (c.resolver limits).tables, entry.2 = none := by
    intro entry member
    obtain ⟨t, inside, rfl⟩ := List.mem_map.1 member
    exact bare t inside
  have names : Keyed.names (c.resolver limits).tables = c.names := by
    rw [← c.tableNames]
    simp [Keyed.names, resolver, Function.comp_def]
  have free : DependencyMap.empty.resolveTables limits c.names {} = .ok ⟨[] ++ c.names, []⟩ :=
    DependencyMap.resolveTablesFree (fun _ _ => rfl) c.distinct (by simp) rfl
  rw [orderSteps, names]
  exact bindOk.2 ⟨_, Resolver.scanTablesBare entries, bindOk.2 ⟨_, free, rfl⟩⟩

theorem planBare (limits : Limits) : c.plan limits = .ok [] := by
  have none : ∀ names, c.statements limits names = .ok [] := by
    intro names
    induction names with
    | nil => rfl
    | cons name rest ih => simp [statements, queryBare bare, ih]
  simp [plan, orderBare bare, none, bind, Except.bind]

theorem stageBare {σ : Type} (e : Engine σ) (limits : Limits) (names : List String) (s : σ) :
    e.stage limits c names s = (.ok [], s) := by
  induction names with
  | nil => rfl
  | cons name rest ih => simp only [Engine.stage, queryBare bare, ih]

theorem traceBare {σ : Type} (e : Engine σ) (limits : Limits) (s : σ) :
    (c.trace e limits s).filterMap Event.executed? = [] := by
  obtain ⟨first, later, split, parts⟩ := materializedParts (c.traced e limits s).2
  have none : later = [] := by
    cases later with
    | nil => rfl
    | cons event rest =>
      have some := parts.queried event (.head _)
      simp [queryBare bare] at some
  rw [split, none, List.append_nil, heldExecutes parts.held]

theorem materializeBare {σ : Type} (e : Engine σ) (limits : Limits) (s : σ)
    (willing : ∀ table content s, (e.register table content s).1 = .ok ()) :
    (c.materializeAll e limits s).result = .ok [] ∧ (c.materializeAll e limits s).catalog = c := by
  have registered := e.registerAllWilling willing c.tables s
  unfold materializeAll
  rw [orderBare bare]
  generalize e.registerAll c.tables s = told at registered
  obtain ⟨outcome, after⟩ := told
  cases registered
  simp [stageBare bare, settle]

end Bare

def Became (events : List Event) (before after : Table) : Prop :=
  after.name = before.name ∧ after.tableClass = before.tableClass ∧ after.kind = before.kind ∧
    after.module? = before.module? ∧
    match before.body with
    | .query query => ∃ sql schema rows, Schema.ofQuery query = .ok schema ∧
        .execute before.name sql schema (.ok rows) ∈ events ∧
        after.body = .filled ⟨schema, rows⟩ ∧ after.schema = some schema
    | .empty | .filled _ => after = before

theorem failureLeavesCatalog {σ : Type} (c : Catalog) (e : Engine σ) (limits : Limits) (s : σ) :
    (∀ fault, (c.materializeAll e limits s).result = .error fault →
      (c.materializeAll e limits s).catalog = c) ∧
    ∀ names state contents last, c.order limits = .ok names →
      e.stage limits c names state = (.ok contents, last) →
      (c.settle contents).1 = .ok (Keyed.names contents) := by
  constructor
  · intro fault failed
    rcases materializedEnds (c.traced e limits s).2 with ⟨_, _, same⟩ |
      ⟨_, _, _, _, _, _, _, _, done, _⟩
    · exact same
    · cases failed.symm.trans done
  · intro names state contents last ordered ran
    obtain ⟨events, _, staged⟩ := e.stageRecorded limits c names state []
    rw [ran] at staged
    rw [stagedSettles staged (orderArranged ordered)]

def shipped : List (String × Instance) :=
  ["flow", "supply"].map fun table => (table, ⟨plants, [[.string table]]⟩)

theorem shippingRefused :
    (shipping.materializeAll (counting 3) {} 0).result = .error (.engine "supply" "full") ∧
      (shipping.materializeAll (counting 3) {} 0).catalog = shipping ∧
      (shipping.settle shipped).1 = .ok ["flow", "supply"] := by
  have failed : (shipping.materializeAll (counting 3) {} 0).result =
      .error (.engine "supply" "full") := by decide +kernel
  have ordered : shipping.order {} = .ok ["routes", "flow", "supply"] := by decide +kernel
  have staged : (counting 5).stage {} shipping ["routes", "flow", "supply"] 1 =
      (.ok shipped, 5) := by rfl
  exact ⟨failed, (failureLeavesCatalog shipping (counting 3) {} 0).1 _ failed,
    (failureLeavesCatalog shipping (counting 5) {} 0).2 _ 1 shipped 5 ordered staged⟩

theorem settledBecame
    (listed : Keyed.names contents = names.filter fun name => (c.query? name).isSome)
    (complete : ∀ t ∈ c.tables, t.name ∈ names)
    (answered : ∀ entry ∈ contents, ∃ query sql, c.query? entry.1 = some query ∧
      Schema.ofQuery query = .ok entry.2.schema ∧
      .execute entry.1 sql entry.2.schema (.ok entry.2.rows) ∈ events) :
    ∀ t ∈ c.tables, Became events t (settled contents t) := by
  intro t member
  cases holds : t.query? with
  | none =>
    have absent : t.name ∉ Keyed.names contents := by
      rw [listed]
      simp [queryOf member, holds]
    have same : settled contents t = t := by simp [settled, Keyed.findFresh absent]
    rw [same]
    refine ⟨rfl, rfl, rfl, rfl, ?_⟩
    cases body : t.body with
    | query query => cases holds.symm.trans (bodyOfQuery.2 body)
    | empty | filled => rfl
  | some query =>
    have inside : t.name ∈ Keyed.names contents := by
      rw [listed]
      simp [complete t member, queryOf member, holds]
    obtain ⟨content, found⟩ := Keyed.findOfName inside
    obtain ⟨other, sql, same, selected, asked⟩ := answered _ (Keyed.memOfFind found)
    cases (holds.symm.trans (queryOf member).symm).trans same
    have filled : settled contents t = t.fill content := by simp [settled, found]
    rw [filled]
    refine ⟨rfl, rfl, rfl, rfl, ?_⟩
    rw [bodyOfQuery.1 holds]
    exact ⟨sql, content.schema, content.rows, selected, asked, rfl, rfl⟩

theorem becameBare {t after : Table} (became : Became events t after) : after.query? = none := by
  obtain ⟨_, _, _, _, body⟩ := became
  cases held : t.body with
  | query query =>
    rw [held] at body
    obtain ⟨_, _, _, _, _, filled, _⟩ := body
    simp [Table.query?, filled]
  | empty | filled =>
    rw [held] at body
    simp [body, Table.query?, held]

theorem queriedExact (arranged : c.Arranged limits names) :
    name ∈ names.filter (fun name => (c.query? name).isSome) ↔
      ∃ t ∈ c.tables, t.name = name ∧ ∃ query, t.body = .query query := by
  rw [List.mem_filter, Option.isSome_iff_exists]
  constructor
  · rintro ⟨_, query, holds⟩
    obtain ⟨t, member, named, body⟩ := queryExact.1 holds
    exact ⟨t, member, named, query, body⟩
  · rintro ⟨t, member, rfl, query, body⟩
    exact ⟨arranged.complete t member, query, queryExact.2 ⟨t, member, rfl, body⟩⟩

theorem materializationWhole {σ : Type} {c : Catalog} {e : Engine σ} {limits : Limits} {s : σ}
    {names : List String} (done : (c.materializeAll e limits s).result = .ok names) :
    (∃ order, c.order limits = .ok order ∧
        names = order.filter fun name => (c.query? name).isSome) ∧
      names.Nodup ∧
      (∀ name, name ∈ names ↔ ∃ t ∈ c.tables, t.name = name ∧ ∃ query, t.body = .query query) ∧
      (c.trace e limits s).filterMap Event.executed? = names ∧
      let after := (c.materializeAll e limits s).catalog
      List.Forall₂ (Became (c.trace e limits s)) c.tables after.tables ∧
      (∀ t ∈ after.tables, ∀ query, t.body ≠ .query query) ∧
      (∀ ceiling, after.plan ceiling = .ok []) ∧
      (∀ ceiling, after.order ceiling = .ok after.names) ∧
      ∀ {τ : Type} (again : Engine τ) (ceiling : Limits) (state : τ),
        (∀ table content state, (again.register table content state).1 = .ok ()) →
        (after.materializeAll again ceiling state).result = .ok [] ∧
        (after.materializeAll again ceiling state).catalog = after ∧
        (after.trace again ceiling state).filterMap Event.executed? = [] := by
  rcases materializedEnds (c.traced e limits s).2 with ⟨_, failed, _⟩ |
    ⟨order, first, later, contents, ordered, split, registered, staged, ended, filled⟩
  · cases failed.symm.trans done
  cases ended.symm.trans done
  have arranged := orderArranged ordered
  obtain ⟨listed, executed, answered⟩ := stagedContents staged
  have distinct : (Keyed.names contents).Nodup := listed ▸ arranged.distinct.filter _
  have tables : (c.materializeAll e limits s).catalog.tables = c.tables.map (settled contents) := by
    rw [filled, fillAllTables distinct]
  have became : ∀ t ∈ c.tables, Became (c.trace e limits s) t (settled contents t) := by
    refine settledBecame listed arranged.complete fun entry member => ?_
    obtain ⟨query, sql, holds, selected, asked⟩ := answered entry member
    exact ⟨query, sql, holds, selected, split ▸ List.mem_append_right _ asked⟩
  have bare : ∀ t ∈ (c.materializeAll e limits s).catalog.tables, t.query? = none := by
    rw [tables]
    intro after member
    obtain ⟨t, inside, rfl⟩ := List.mem_map.1 member
    exact becameBare (became t inside)
  refine ⟨⟨order, ordered, listed⟩, distinct, ?_, ?_, ?_, ?_, planBare bare, orderBare bare, ?_⟩
  · intro name
    rw [listed]
    exact queriedExact arranged
  · rw [split, List.filterMap_append, heldExecutes (registeredHolds registered), executed,
      List.nil_append]
  · rw [tables, List.forall₂_map_right_iff, List.forall₂_same]
    exact became
  · intro t member query body
    cases (bare t member).symm.trans (bodyOfQuery.2 body)
  · intro τ again ceiling state willing
    obtain ⟨result, same⟩ := materializeBare bare again ceiling state willing
    exact ⟨result, same, traceBare bare again ceiling state⟩

def keeping : Engine Unit where
  register _ _ _ := (.ok (), ())
  execute _ _ _ _ := (.error "unknown", ())

theorem shippingWhole :
    let after := (shipping.materializeAll (counting 5) {} 0).catalog
    (shipping.materializeAll (counting 5) {} 0).result = .ok ["flow", "supply"] ∧
      List.Forall₂ (Became (shipping.trace (counting 5) {} 0)) shipping.tables after.tables ∧
      after.plan ⟨0⟩ = .ok [] ∧ after.order ⟨0⟩ = .ok after.names ∧
      (after.materializeAll keeping ⟨0⟩ ()).result = .ok [] ∧
      (after.materializeAll keeping ⟨0⟩ ()).catalog = after := by
  have done : (shipping.materializeAll (counting 5) {} 0).result = .ok ["flow", "supply"] := by
    decide +kernel
  obtain ⟨_, _, _, _, became, _, planned, ordered, again⟩ := materializationWhole done
  obtain ⟨result, same, _⟩ := again keeping ⟨0⟩ () fun _ _ _ => rfl
  exact ⟨done, became, planned ⟨0⟩, ordered ⟨0⟩, result, same⟩

end Catalog
end TablePlan
