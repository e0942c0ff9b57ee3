import TablePlan.Dependency.Resolver
import TablePlan.Proofs.Keyed
import TablePlan.Proofs.Mentions
/-! What a scan of all tables records: for every table with a query the names that the query refers
to, whatever the ceiling was under which the scan succeeded. -/
namespace TablePlan

variable {name table : String} {held : List String} {query : Clause} {limits : Limits}

theorem Names.addAllFresh {known names : List String} (distinct : names.Nodup)
    (apart : ∀ name ∈ names, name ∉ known) : addAll known names = known ++ names := by
  induction names generalizing known with
  | nil => simp [addAll]
  | cons name rest ih =>
    obtain ⟨fresh, distinct⟩ := List.nodup_cons.1 distinct
    obtain ⟨new, later⟩ := List.forall_mem_cons.1 apart
    rw [addAll, add, if_neg new, ih distinct]
    · simp
    · intro other member inside
      rcases List.mem_append.1 inside with old | last
      · exact later other member old
      · exact fresh (List.mem_singleton.1 last ▸ member)

theorem Names.ofListOfDistinct {names : List String} (distinct : names.Nodup) :
    ofList names = names := by
  rw [ofList, addAllFresh distinct (by simp), List.nil_append]

namespace DependencyMap

theorem ofPutSame (m : DependencyMap) (distinct : held.Nodup) :
    (m.put name held).of name = held := by
  simp [of, put, Keyed.findPutSame, Names.ofListOfDistinct distinct]

theorem ofPutOther (m : DependencyMap) (apart : table ≠ name) :
    (m.put name held).of table = m.of table := by
  simp [of, put, Keyed.findPutOther apart]

end DependencyMap

namespace Resolver

variable {tables : List (String × Option Clause)} {m found : DependencyMap}

def recorded (tables : List (String × Option Clause)) : List (String × List String) :=
  tables.filterMap fun (table, query?) =>
    query?.map fun query => (table, Names.ofList query.mentions)

theorem scanTablesRecorded (ran : scanTables limits m tables = .ok found) :
    found = m.putAll (recorded tables) := by
  induction tables generalizing m with
  | nil =>
    cases ran
    rfl
  | cons entry rest ih =>
    obtain ⟨table, query?⟩ := entry
    cases query? with
    | none => exact ih ran
    | some query =>
      obtain ⟨names, scanned, ran⟩ := bindOk.1 ran
      rw [ih ran, Clause.dependenciesFound scanned]
      rfl

theorem scanTablesOther (ran : scanTables limits m tables = .ok found)
    (absent : ∀ query, (table, some query) ∉ tables) : found.of table = m.of table := by
  induction tables generalizing m with
  | nil =>
    cases ran
    rfl
  | cons entry rest ih =>
    obtain ⟨head, query?⟩ := entry
    have later := fun query member => absent query (List.mem_cons_of_mem _ member)
    cases query? with
    | none => exact ih ran later
    | some query =>
      obtain ⟨names, scanned, ran⟩ := bindOk.1 ran
      have apart : table ≠ head := fun same => absent query (same ▸ .head _)
      rw [ih ran later, DependencyMap.ofPutOther m apart]

theorem scanTablesOf (ran : scanTables limits m tables = .ok found)
    (distinct : (Keyed.names tables).Nodup) (member : (table, some query) ∈ tables) :
    query.dependencies limits 0 = .ok (found.of table) := by
  induction tables generalizing m with
  | nil => simp at member
  | cons entry rest ih =>
    obtain ⟨head, query?⟩ := entry
    obtain ⟨fresh, others⟩ := List.nodup_cons.1 distinct
    rcases List.mem_cons.1 member with here | later
    · cases here
      obtain ⟨names, scanned, ran⟩ := bindOk.1 ran
      have known : names.Nodup := Clause.dependenciesFound scanned ▸ Names.ofListDistinct _
      have bare : ∀ query, (table, some query) ∉ rest :=
        fun query member => fresh (List.mem_map.2 ⟨(table, some query), member, rfl⟩)
      rw [scanTablesOther ran bare, DependencyMap.ofPutSame m known]
      exact scanned
    · cases query? with
      | none => exact ih ran others later
      | some _ =>
        obtain ⟨_, _, ran⟩ := bindOk.1 ran
        exact ih ran others later

theorem scanTablesSucceed (scans : ∀ table query, (table, some query) ∈ tables →
    ∃ names, query.dependencies limits 0 = .ok names) :
    ∃ found, scanTables limits m tables = .ok found := by
  induction tables generalizing m with
  | nil => exact ⟨m, rfl⟩
  | cons entry rest ih =>
    obtain ⟨table, query?⟩ := entry
    have later := fun table query member => scans table query (.tail _ member)
    cases query? with
    | none => exact ih later
    | some query =>
      obtain ⟨names, scanned⟩ := scans table query (.head _)
      obtain ⟨found, ran⟩ : ∃ found, scanTables limits (m.put table names) rest = .ok found :=
        ih later
      exact ⟨found, bindOk.2 ⟨names, scanned, ran⟩⟩

theorem scanTablesReordered {other : List (String × Option Clause)} (reordered : tables.Perm other)
    (distinct : (Keyed.names tables).Nodup) (ran : scanTables limits .empty tables = .ok m) :
    ∃ found, scanTables limits .empty other = .ok found ∧ ∀ table, found.of table = m.of table := by
  obtain ⟨found, again⟩ : ∃ found, scanTables limits .empty other = .ok found :=
    scanTablesSucceed fun table query member =>
      ⟨_, scanTablesOf ran distinct (reordered.mem_iff.2 member)⟩
  refine ⟨found, again, fun table => ?_⟩
  by_cases queried : ∃ query, (table, some query) ∈ tables
  · obtain ⟨query, member⟩ := queried
    have left := scanTablesOf ran distinct member
    have right := scanTablesOf again ((reordered.map Prod.fst).nodup_iff.1 distinct)
      (reordered.mem_iff.1 member)
    exact Except.ok.inj (right.symm.trans left)
  · have bare := not_exists.1 queried
    rw [scanTablesOther ran bare,
      scanTablesOther again fun query member => bare query (reordered.mem_iff.2 member)]

theorem scanTablesBare (bare : ∀ entry ∈ tables, entry.2 = none) :
    scanTables limits m tables = .ok m := by
  induction tables with
  | nil => rfl
  | cons entry rest ih =>
    obtain ⟨none, later⟩ := List.forall_mem_cons.1 bare
    obtain ⟨table, query?⟩ := entry
    cases none
    exact ih later

end Resolver
end TablePlan
