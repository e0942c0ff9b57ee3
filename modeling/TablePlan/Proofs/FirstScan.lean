import TablePlan.Proofs.Path
import TablePlan.Proofs.Run
/-! Resolvers right after their first scan: what they have recorded, and that nothing is resolved
yet. -/
namespace TablePlan.Resolver

variable {tables other : List (String × Option Clause)} {r : Resolver} {table name : String}
  {limits : Limits} {fault : Fault}

theorem repeatFree {seen names : List String} (distinct : names.Nodup)
    (apart : ∀ name ∈ names, name ∉ seen) : firstRepeat? seen names = none := by
  induction names generalizing seen with
  | nil => rfl
  | cons name rest ih =>
    obtain ⟨fresh, distinct⟩ := List.nodup_cons.1 distinct
    obtain ⟨new, later⟩ := List.forall_mem_cons.1 apart
    rw [firstRepeat?, if_neg new]
    refine ih distinct fun other member => ?_
    have apart : other ≠ name := fun same => fresh (same ▸ member)
    exact List.not_mem_cons_of_ne_of_not_mem apart (later other member)

theorem ofTablesExact : ofTables tables = .ok r ↔
    ∃ distinct, r = ⟨tables, distinct, {}, .empty, {}⟩ := by
  unfold ofTables
  split
  · rename_i again found
    constructor
    · intro built
      cases built
    · rintro ⟨distinct, _⟩
      rw [repeatFree distinct (by simp)] at found
      cases found
  · constructor
    · intro built
      cases built
      exact ⟨_, rfl⟩
    · rintro ⟨_, rfl⟩
      rfl

/-- The ceiling may be another one by now than it was during the scan. -/
inductive FirstScan (tables : List (String × Option Clause)) : Resolver → Prop where
  | scanned {fresh r : Resolver} {ceiling limits : Limits} (built : ofTables tables = .ok fresh)
      (ran : scan { fresh with limits := ceiling } = .ok r) : FirstScan tables { r with limits }

theorem FirstScan.parts (first : FirstScan tables r) : ∃ ceiling m distinct,
    scanTables ceiling .empty tables = .ok m ∧ r = ⟨tables, distinct, r.limits, m, {}⟩ := by
  cases first with
  | @scanned _ _ ceiling _ built ran =>
    obtain ⟨distinct, rfl⟩ := ofTablesExact.1 built
    obtain ⟨m, found, last⟩ := bindOk.1 ran
    cases last
    exact ⟨ceiling, m, distinct, found, rfl⟩

theorem FirstScan.limited (first : FirstScan tables r) (limits : Limits) :
    FirstScan tables { r with limits } := by
  cases first with
  | @scanned _ r _ _ built ran =>
    have moved : FirstScan tables { r with limits } := .scanned built ran
    exact moved

theorem FirstScan.readerDeclared (first : FirstScan tables r)
    (reads : r.dependencies.Reads table name) : table ∈ Keyed.names r.tables := by
  obtain ⟨ceiling, m, distinct, ran, same⟩ := first.parts
  rw [same] at reads ⊢
  by_contra undeclared
  have none : m.of table = [] := scanTablesOther ran fun query member =>
    undeclared (List.mem_map.2 ⟨(table, some query), member, rfl⟩)
  simp [DependencyMap.Reads, none] at reads

theorem FirstScan.settled (first : FirstScan tables r) : Settled r := by
  obtain ⟨_, _, _, _, same⟩ := first.parts
  rw [same]
  exact ⟨rfl, List.nodup_nil, DependencyMap.orderedNil _⟩

theorem FirstScan.idle (first : FirstScan tables r) : r.progress = {} := by
  obtain ⟨_, _, _, _, same⟩ := first.parts
  rw [same]

end TablePlan.Resolver
