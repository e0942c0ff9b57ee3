import TablePlan.Proofs.Acceptance
import TablePlan.Proofs.Ceiling
import TablePlan.Proofs.Requests
/-! Reported cycles. Whatever was asked for before, a cycle that a request reports is one of the
recorded dependencies: it is read off the active path, and that path is at every moment the way by
which the walk has come. -/
namespace TablePlan

theorem Fault.straight {fault : Fault} (kind : fault.isTooDeep = true ∨ fault.isFormat = true) :
    fault.isCircular = false := by
  cases fault with
  | circular => simp [isTooDeep, isFormat] at kind
  | _ => rfl

namespace DependencyMap

variable {m : DependencyMap} {limits : Limits} {start : Nat} {root table name : String}
  {cycle : List String}

/-- A way from a name back to it that passes no name twice and comes to `table` last. -/
structure Round (m : DependencyMap) (table name : String) (cycle : List String) : Prop where
  long : 2 ≤ cycle.length
  first : cycle.head? = some name
  last : cycle.getLast? = some name
  closing : cycle.dropLast.getLast? = some table
  distinct : cycle.dropLast.Nodup
  linked : cycle.IsChain m.Reads

theorem Path.round {depth : Nat} {active : List String}
    (path : Path m start name table depth active) (reads : m.Reads table name) :
    Round m table name (active ++ [name]) where
  long := by
    obtain ⟨rest, rfl⟩ := path.begins
    simp
  first := by simp [path.first]
  last := by simp
  closing := by simpa using path.last
  distinct := by simpa using path.distinct
  linked := path.linkedTo reads

theorem Stopped.reported (stopped : Stopped m limits start root (.circular table name cycle)) :
    Round m table name cycle := by
  cases stopped with
  | circular path reads active =>
    obtain ⟨_, round, cut, back⟩ := path.closes active
    exact cut ▸ back.round reads

end DependencyMap

namespace Resolver

variable {tables : List (String × Option Clause)} {early : Option (List String)}
  {r next : Resolver} {request : Request} {fault : Fault} {limits : Limits} {m : DependencyMap}
  {table name : String} {cycle : List String} {depth : Nat}

theorem scanTablesStraight (ran : scanTables limits m tables = .error fault) :
    fault.isCircular = false := by
  induction tables generalizing m with
  | nil => cases ran
  | cons entry rest ih =>
    obtain ⟨table, query?⟩ := entry
    cases query? with
    | none => exact ih ran
    | some query =>
      rcases bindError.1 ran with refused | ⟨_, _, later⟩
      · exact Fault.straight ((query.dependenciesJudged limits 0).fault refused).1
      · exact ih later

theorem scanStraight (ran : r.scan = .error fault) : fault.isCircular = false := by
  rcases bindError.1 ran with refused | ⟨_, _, last⟩
  · exact scanTablesStraight refused
  · cases last

theorem resolveAllStops (idle : r.progress.active = [])
    (failed : (r.perform .resolveAll).1 = .error fault) :
    ∃ root, (r.perform .resolveAll).2.dependencies.Stopped r.limits 0 root fault := by
  obtain ⟨refused, same⟩ := attemptFailed failed
  rcases bindError.1 refused with stopped | ⟨_, _, last⟩
  · obtain ⟨root, _, stopped⟩ := DependencyMap.resolveTablesStop stopped idle
    exact ⟨root, by rwa [perform, same]⟩
  · cases last

theorem resolveForStops (idle : r.progress.active = [])
    (failed : (r.perform (.resolveFor table depth)).1 = .error fault)
    (circular : fault.isCircular = true) :
    (r.perform (.resolveFor table depth)).2.dependencies.Stopped r.limits depth table fault := by
  obtain ⟨refused, same⟩ := attemptFailed failed
  rcases bindError.1 refused with stopped | ⟨_, _, last⟩
  · rw [perform, same]
    refine DependencyMap.resolveTableStops stopped idle (Nat.not_lt.1 fun deep => ?_)
    cases DependencyMap.visitUnique (.tooDeep deep) (DependencyMap.resolveTableExact.1 stopped)
    cases circular
  · cases last

theorem performStops (idle : r.progress.active = []) (failed : (r.perform request).1 = .error fault)
    (circular : fault.isCircular = true) :
    ∃ limits start root, (r.perform request).2.dependencies.Stopped limits start root fault := by
  cases request with
  | scan =>
    have straight := scanStraight (attemptFailed failed).1
    cases circular.symm.trans straight
  | resolveAll => exact ⟨_, _, resolveAllStops idle failed⟩
  | resolveFor table depth => exact ⟨_, _, _, resolveForStops idle failed circular⟩
  | resolve =>
    cases ran : r.scan with
    | error cause =>
      simp only [perform, resolve, ran, Except.error.injEq] at failed
      cases circular.symm.trans (failed ▸ scanStraight ran)
    | ok next =>
      rw [resolveAfterScan ran] at failed ⊢
      cases scanKnows ran
      exact ⟨_, _, resolveAllStops idle failed⟩
  | limit limits => cases failed

theorem reportedRound (led : Led tables early r)
    (failed : (r.perform request).1 = .error (.circular table name cycle)) :
    (r.perform request).2.dependencies.Round table name cycle := by
  obtain ⟨_, _, _, stopped⟩ := performStops (ledLasts led).idle failed rfl
  exact stopped.reported

def loopedHasty : Resolver :=
  { loopedScanned {} with dependencies := .empty, progress := ⟨["plants"], []⟩ }

theorem loopedReported :
    Led looped none loopedHasty ∧
      (loopedHasty.perform .resolve).1 =
        .error (.circular "depots" "routes" ["routes", "depots", "routes"]) ∧
      (loopedHasty.perform .resolve).2.dependencies.Round "depots" "routes"
        ["routes", "depots", "routes"] := by
  have start : Led looped none ⟨looped, by decide, {}, .empty, {}⟩ := .start rfl
  have led : Led looped none loopedHasty := start.step (.resolveFor "plants" 3)
  have failed : (loopedHasty.perform .resolve).1 =
      .error (.circular "depots" "routes" ["routes", "depots", "routes"]) := rfl
  exact ⟨led, failed, reportedRound led failed⟩

end Resolver
end TablePlan
