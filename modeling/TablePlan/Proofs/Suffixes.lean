import Mathlib.Data.List.TakeWhile
import TablePlan.Clause.Sql
import TablePlan.Proofs.FirstScan
import TablePlan.Schema.Selection
/-! Suffixes of keys. Nothing that is made of a query looks at them: with all suffixes gone it has
the same text, schema and references, and the same faults but for the key that one of them names. So
queries that differ in suffixes alone are alike to whatever reads them. -/
namespace TablePlan

variable {α β : Type} {limits : Limits} {depth : Nat}

theorem directiveBare (key : String) : directiveOf (directiveOf key) = directiveOf key := by
  rw [directiveOf, directiveOf, String.toList_ofList, List.takeWhile_idem]

def Fault.unsuffixed : Fault → Fault
  | .format (.nestedList key) => .format (.nestedList (directiveOf key))
  | fault => fault

theorem circularUnsuffixed {fault : Fault} {table dependency : String} {cycle : List String} :
    fault.unsuffixed = .circular table dependency cycle ↔
      fault = .circular table dependency cycle := by
  unfold Fault.unsuffixed
  split
  · simp
  · rfl

/-- Values that are related, or faults that differ at most in the suffix of the key they name. -/
inductive Agree (R : α → β → Prop) : Except Fault α → Except Fault β → Prop where
  | ok {value : α} {other : β} (related : R value other) : Agree R (.ok value) (.ok other)
  | error {fault other : Fault} (same : fault.unsuffixed = other.unsuffixed) :
      Agree R (.error fault) (.error other)

namespace Agree

variable {γ δ : Type} {first again third : Except Fault α}

theorem refl : (outcome : Except Fault α) → Agree Eq outcome outcome
  | .ok _ => .ok rfl
  | .error _ => .error rfl

theorem symm (agree : Agree Eq first again) : Agree Eq again first := by
  cases agree with
  | ok same => exact .ok same.symm
  | error same => exact .error same.symm

theorem trans (agree : Agree Eq first again) (further : Agree Eq again third) :
    Agree Eq first third := by
  cases agree with
  | ok same => exact same ▸ further
  | error same =>
    cases further with
    | error later => exact .error (same.trans later)

theorem bind {R : α → β → Prop} {S : γ → δ → Prop} {left : Except Fault α} {right : Except Fault β}
    {next : α → Except Fault γ} {later : β → Except Fault δ} (here : Agree R left right)
    (after : ∀ value other, R value other → Agree S (next value) (later other)) :
    Agree S (left >>= next) (right >>= later) := by
  cases here with
  | ok related => exact after _ _ related
  | error same => exact .error same

theorem both {second other : Except Fault β} (here : Agree Eq first again)
    (later : Agree Eq second other) (join : α → β → γ) :
    Agree Eq (do return join (← first) (← second)) (do return join (← again) (← other)) := by
  refine here.bind fun one _ same => same ▸ later.bind fun other _ alike => ?_
  exact alike ▸ .refl _

theorem circular (agree : Agree Eq first again) {table dependency : String} {cycle : List String} :
    first = .error (.circular table dependency cycle) ↔
      again = .error (.circular table dependency cycle) := by
  cases agree with
  | ok => exact ⟨nofun, nofun⟩
  | error same =>
    rw [Except.error.injEq, Except.error.injEq, ← circularUnsuffixed, same, circularUnsuffixed]

end Agree

namespace Clause

mutual

def unsuffixed : Clause → Clause
  | .literal text => .literal text
  | .list items => .list (unsuffixedItems items)
  | .object entries => .object (unsuffixedEntries entries)

def unsuffixedItems : List Clause → List Clause
  | [] => []
  | item :: rest => item.unsuffixed :: unsuffixedItems rest

def unsuffixedEntries : List (String × Clause) → List (String × Clause)
  | [] => []
  | (key, predicate) :: rest => (directiveOf key, predicate.unsuffixed) :: unsuffixedEntries rest

end

theorem predicateDepthUnsuffixed (depth : Nat) (predicate : Clause) :
    predicateDepth depth predicate.unsuffixed = predicateDepth depth predicate := by
  cases predicate <;> simp only [unsuffixed, predicateDepth]

mutual

theorem renderUnsuffixed (depth : Nat) : (node : Clause) →
    render limits depth node.unsuffixed = render limits depth node
  | .literal _ => by rw [unsuffixed]
  | .list items => by rw [unsuffixed, render, render, renderItemsUnsuffixed depth items]
  | .object entries => by rw [unsuffixed, render, render, renderEntriesUnsuffixed depth entries]

theorem renderItemsUnsuffixed (depth : Nat) : (items : List Clause) →
    renderItems limits depth (unsuffixedItems items) = renderItems limits depth items
  | [] => by rw [unsuffixedItems]
  | item :: rest => by
    rw [unsuffixedItems, renderItems, renderItems, renderUnsuffixed depth item,
      renderItemsUnsuffixed depth rest]

theorem renderEntriesUnsuffixed (depth : Nat) : (entries : List (String × Clause)) →
    renderEntries limits depth (unsuffixedEntries entries) = renderEntries limits depth entries
  | [] => by rw [unsuffixedEntries]
  | (key, predicate) :: rest => by
    rw [unsuffixedEntries, renderEntries, renderEntries, predicateDepthUnsuffixed,
      renderUnsuffixed _ predicate, renderEntriesUnsuffixed depth rest, directiveBare]

end

theorem kindUnsuffixed (query : Clause) : query.unsuffixed.kind = query.kind := by
  cases query <;> simp only [unsuffixed, kind]

theorem sqlUnsuffixed (query : Clause) (limits : Limits) :
    query.unsuffixed.sql limits = query.sql limits := by
  rw [sql, sql, renderUnsuffixed, kindUnsuffixed]

theorem clausesUnsuffixed (query : Clause) : query.unsuffixed.clauses =
    query.clauses.map fun (directive, predicate) => (directive, predicate.unsuffixed) := by
  cases query with
  | literal _ | list _ => simp only [unsuffixed, clauses, List.map_nil]
  | object entries =>
    simp only [unsuffixed, clauses, List.map_map]
    induction entries with
    | nil => rfl
    | cons entry rest ih =>
      obtain ⟨key, predicate⟩ := entry
      simp only [unsuffixedEntries, List.map_cons, directiveBare, ih, Function.comp]

theorem findUnsuffixed (name : String) (entries : List (String × Clause)) :
    Keyed.find? name (entries.map fun (key, predicate) => (key, predicate.unsuffixed)) =
      (Keyed.find? name entries).map unsuffixed := by
  induction entries with
  | nil => rfl
  | cons entry rest ih =>
    obtain ⟨key, predicate⟩ := entry
    simp only [List.map_cons, Keyed.find?, ih]
    split <;> rfl

theorem selectUnsuffixed (query : Clause) :
    query.unsuffixed.select? = query.select?.map unsuffixed := by
  rw [select?, select?, clausesUnsuffixed, findUnsuffixed]

theorem addSelectedUnsuffixed (schema : Schema) (item : Clause) :
    schema.addSelected item.unsuffixed = schema.addSelected item := by
  cases item <;> simp only [unsuffixed, Schema.addSelected, kind]

theorem addAllSelectedUnsuffixed (schema : Schema) (items : List Clause) :
    schema.addAllSelected (unsuffixedItems items) = schema.addAllSelected items := by
  induction items generalizing schema with
  | nil => rw [unsuffixedItems]
  | cons item rest ih =>
    simp only [unsuffixedItems, Schema.addAllSelected, addSelectedUnsuffixed, ih]

theorem ofQueryUnsuffixed (query : Clause) :
    Schema.ofQuery query.unsuffixed = Schema.ofQuery query := by
  rw [Schema.ofQuery, Schema.ofQuery, selectUnsuffixed]
  cases query.select? with
  | none => rfl
  | some selected =>
    cases selected <;> simp only [Option.map_some, unsuffixed, addAllSelectedUnsuffixed]

mutual

theorem scanUnsuffixed (depth : Nat) : (query : Clause) →
    Agree Eq (query.unsuffixed.scan limits depth) (query.scan limits depth)
  | .object entries => by
    rw [unsuffixed, scan, scan]
    exact (Agree.refl _).bind fun _ _ _ => scanEntriesUnsuffixed depth entries
  | .literal _ => by
    rw [unsuffixed]
    exact .refl _
  | .list _ => by
    rw [unsuffixed, scan, scan]
    exact .refl _

theorem scanEntriesUnsuffixed (depth : Nat) : (entries : List (String × Clause)) →
    Agree Eq (scanEntries limits depth (unsuffixedEntries entries))
      (scanEntries limits depth entries)
  | [] => by
    rw [unsuffixedEntries]
    exact .refl _
  | (key, predicate) :: rest => by
    have later := scanEntriesUnsuffixed depth rest
    rw [unsuffixedEntries]
    unfold scanEntries
    cases predicate with
    | literal text =>
      rw [unsuffixed, directiveBare]
      exact .both (.refl _) later _
    | object entries =>
      have here := scanUnsuffixed (depth + 1) (.object entries)
      rw [unsuffixed] at here ⊢
      exact here.both later _
    | list items =>
      rw [unsuffixed]
      exact (scanItemsUnsuffixed depth key items).both later _

theorem scanItemsUnsuffixed (depth : Nat) (key : String) : (items : List Clause) →
    Agree Eq (scanItems limits depth (directiveOf key) (unsuffixedItems items))
      (scanItems limits depth key items)
  | [] => by
    rw [unsuffixedItems]
    exact .refl _
  | item :: rest => by
    have later := scanItemsUnsuffixed depth key rest
    rw [unsuffixedItems]
    unfold scanItems
    cases item with
    | literal text =>
      rw [unsuffixed, directiveBare]
      exact .both (.refl _) later _
    | object entries =>
      have here := scanUnsuffixed depth (.object entries)
      rw [unsuffixed] at here ⊢
      exact here.both later _
    | list items =>
      rw [unsuffixed]
      have nested : (Fault.format (.nestedList (directiveOf key))).unsuffixed =
          (Fault.format (.nestedList key)).unsuffixed := by
        simp only [Fault.unsuffixed, directiveBare]
      exact .error nested

end

theorem dependenciesUnsuffixed (query : Clause) (limits : Limits) (depth : Nat) :
    Agree Eq (query.unsuffixed.dependencies limits depth) (query.dependencies limits depth) :=
  (scanUnsuffixed depth query).bind fun _ _ same => .ok (congrArg Names.ofList same)

section Alike

variable {query other : Clause} (alike : query.unsuffixed = other.unsuffixed)
include alike

theorem sqlAlike (limits : Limits) : query.sql limits = other.sql limits := by
  rw [← sqlUnsuffixed, alike, sqlUnsuffixed]

theorem ofQueryAlike : Schema.ofQuery query = Schema.ofQuery other := by
  rw [← ofQueryUnsuffixed, alike, ofQueryUnsuffixed]

theorem dependenciesAlike (limits : Limits) (depth : Nat) :
    Agree Eq (query.dependencies limits depth) (other.dependencies limits depth) := by
  have bare := dependenciesUnsuffixed query limits depth
  rw [alike] at bare
  exact bare.symm.trans (dependenciesUnsuffixed other limits depth)

end Alike

end Clause

namespace Resolver

variable {tables others : List (String × Option Clause)} {r s : Resolver} {m : DependencyMap}

def unsuffixed (tables : List (String × Option Clause)) : List (String × Option Clause) :=
  tables.map fun (table, query?) => (table, query?.map Clause.unsuffixed)

theorem namesUnsuffixed (tables : List (String × Option Clause)) :
    Keyed.names (unsuffixed tables) = Keyed.names tables := by
  simp only [Keyed.names, unsuffixed, List.map_map, Function.comp_def]

theorem scanTablesUnsuffixed (tables : List (String × Option Clause)) :
    Agree Eq (scanTables limits m (unsuffixed tables)) (scanTables limits m tables) := by
  induction tables generalizing m with
  | nil => exact .refl _
  | cons entry rest ih =>
    obtain ⟨table, query?⟩ := entry
    cases query? with
    | none => exact ih
    | some query =>
      refine (query.dependenciesUnsuffixed limits 0).bind fun names _ same => ?_
      exact same ▸ ih

/-- Two resolvers that are equally far, over queries that differ in suffixes alone. -/
structure Alike (r s : Resolver) : Prop where
  tables : unsuffixed r.tables = unsuffixed s.tables
  limits : r.limits = s.limits
  dependencies : r.dependencies = s.dependencies
  progress : r.progress = s.progress

theorem Alike.names (alike : Alike r s) : Keyed.names r.tables = Keyed.names s.tables := by
  rw [← namesUnsuffixed, alike.tables, namesUnsuffixed]

theorem builtAlike (same : unsuffixed tables = unsuffixed others)
    (built : ofTables tables = .ok r) :
    ∃ s, ofTables others = .ok s ∧ Alike r s := by
  obtain ⟨distinct, rfl⟩ := ofTablesExact.1 built
  rw [← namesUnsuffixed, same, namesUnsuffixed] at distinct
  exact ⟨_, ofTablesExact.2 ⟨distinct, rfl⟩, same, rfl, rfl, rfl⟩

section Requests

variable (alike : Alike r s)
include alike

theorem scanAlike : Agree Alike r.scan s.scan := by
  have scanned : Agree Eq (scanTables r.limits .empty r.tables)
      (scanTables s.limits .empty s.tables) := by
    have bare := @scanTablesUnsuffixed s.limits .empty r.tables
    rw [alike.tables] at bare
    rw [alike.limits]
    exact bare.symm.trans (scanTablesUnsuffixed s.tables)
  exact scanned.bind fun _ _ same => .ok ⟨alike.tables, alike.limits, same, alike.progress⟩

theorem resolveAllAlike : Agree Alike r.resolveAll s.resolveAll := by
  have resolved : Agree Eq
      (r.dependencies.resolveTables r.limits (Keyed.names r.tables) r.progress)
      (s.dependencies.resolveTables s.limits (Keyed.names s.tables) s.progress) := by
    rw [alike.dependencies, alike.limits, alike.names, alike.progress]
    exact .refl _
  exact resolved.bind fun _ _ same => .ok ⟨alike.tables, alike.limits, alike.dependencies, same⟩

theorem resolveForAlike (table : String) (depth : Nat) :
    Agree Alike (r.resolveFor table depth) (s.resolveFor table depth) := by
  have resolved : Agree Eq (r.dependencies.resolveTable r.limits table depth r.progress)
      (s.dependencies.resolveTable s.limits table depth s.progress) := by
    rw [alike.dependencies, alike.limits, alike.progress]
    exact .refl _
  exact resolved.bind fun _ _ same => .ok ⟨alike.tables, alike.limits, alike.dependencies, same⟩

theorem attemptAlike {step again : Except Fault Resolver} (steps : Agree Alike step again) :
    Agree Eq (r.attempt step).1 (s.attempt again).1 ∧
      Alike (r.attempt step).2 (s.attempt again).2 := by
  cases steps with
  | ok related => exact ⟨.ok rfl, related⟩
  | error same => exact ⟨.error same, alike⟩

theorem performAlike (request : Request) :
    Agree Eq (r.perform request).1 (s.perform request).1 ∧
      Alike (r.perform request).2 (s.perform request).2 := by
  cases request with
  | scan => exact attemptAlike alike (scanAlike alike)
  | resolveAll => exact attemptAlike alike (resolveAllAlike alike)
  | resolveFor table depth => exact attemptAlike alike (resolveForAlike alike table depth)
  | resolve =>
    have scans := scanAlike alike
    unfold perform resolve
    generalize r.scan = first, s.scan = second at scans
    cases scans with
    | ok related => exact attemptAlike related (resolveAllAlike related)
    | error same => exact ⟨.error same, alike⟩
  | limit limits => exact ⟨.refl _, alike.tables, rfl, alike.dependencies, alike.progress⟩

def after (r : Resolver) (requests : List Request) : Resolver :=
  requests.foldl (fun r request => (r.perform request).2) r

theorem afterAlike (requests : List Request) : Alike (r.after requests) (s.after requests) := by
  induction requests generalizing r s with
  | nil => exact alike
  | cons request rest ih => exact ih (performAlike alike request).2

end Requests

end Resolver

theorem suffixesIgnored :
    (∀ query other : Clause, query.unsuffixed = other.unsuffixed → ∀ limits : Limits,
      query.sql limits = other.sql limits ∧ Schema.ofQuery query = Schema.ofQuery other ∧
      ∀ depth, Agree Eq (query.dependencies limits depth) (other.dependencies limits depth)) ∧
    ∀ tables others, Resolver.unsuffixed tables = Resolver.unsuffixed others →
      ∀ r, Resolver.ofTables tables = .ok r → ∃ s, Resolver.ofTables others = .ok s ∧
      ∀ requests request,
        let here := (r.after requests).perform request
        let there := (s.after requests).perform request
        Agree Eq here.1 there.1 ∧ here.2.order = there.2.order ∧
        ∀ table dependency cycle, here.1 = .error (.circular table dependency cycle) ↔
          there.1 = .error (.circular table dependency cycle) := by
  refine ⟨fun query other alike limits => ⟨Clause.sqlAlike alike limits, Clause.ofQueryAlike alike,
    Clause.dependenciesAlike alike limits⟩, fun tables others same r built => ?_⟩
  obtain ⟨s, rebuilt, alike⟩ := Resolver.builtAlike same built
  refine ⟨s, rebuilt, fun requests request => ?_⟩
  obtain ⟨answers, left⟩ := Resolver.performAlike (Resolver.afterAlike alike requests) request
  exact ⟨answers, congrArg Progress.resolved left.progress, fun _ _ _ => answers.circular⟩

def joined : Clause :=
  .object [("SELECT", .literal "Plant -- STRING"), ("FROM#1", .literal "routes"),
    ("JOIN#1", .object [("FROM#", .literal "stock")]), ("JOIN#2", .list [.literal "plants"])]

def rejoined : Clause :=
  .object [("SELECT#0", .literal "Plant -- STRING"), ("FROM", .literal "routes"),
    ("JOIN", .object [("FROM", .literal "stock")]), ("JOIN#1#2", .list [.literal "plants"])]

def reading (query : Clause) : List (String × Option Clause) :=
  [("flow", some query), ("routes", some (.object [("FROM", .literal "flow")]))]

theorem joinedIgnored :
    joined.unsuffixed = rejoined.unsuffixed ∧ joined.sql {} = rejoined.sql {} ∧
      Schema.ofQuery joined = Schema.ofQuery rejoined ∧
      Agree Eq (joined.dependencies ⟨0⟩ 0) (rejoined.dependencies ⟨0⟩ 0) ∧
      Resolver.unsuffixed (reading joined) = Resolver.unsuffixed (reading rejoined) ∧
      ∃ s, Resolver.ofTables (reading rejoined) = .ok s ∧
        ((s.after [.limit ⟨2⟩]).perform .resolve).1 =
          .error (.circular "routes" "flow" ["flow", "routes", "flow"]) := by
  have alike : joined.unsuffixed = rejoined.unsuffixed := by decide
  have tables : Resolver.unsuffixed (reading joined) = Resolver.unsuffixed (reading rejoined) := by
    decide
  obtain ⟨same, schema, -⟩ := suffixesIgnored.1 joined rejoined alike {}
  have stopped := (suffixesIgnored.1 joined rejoined alike ⟨0⟩).2.2 0
  obtain ⟨s, rebuilt, runs⟩ :=
    suffixesIgnored.2 _ _ tables ⟨reading joined, by decide, {}, .empty, {}⟩ rfl
  have circled := (runs [.limit ⟨2⟩] .resolve).2.2 "routes" "flow" ["flow", "routes", "flow"]
  exact ⟨alike, same, schema, stopped, tables, s, rebuilt, circled.1 (by decide +kernel)⟩

end TablePlan
