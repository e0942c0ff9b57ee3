import TablePlan.Proofs.Order
import TablePlan.Proofs.Scanned
/-! Runs of a resolver in which nothing is resolved before a scan has succeeded: every state on the
way is idle and in order, whatever was asked for, whichever of it failed, and however the ceiling
was moved in between. -/
namespace TablePlan.Resolver

def Request.needsScan : Request → Bool
  | .resolveAll | .resolveFor _ _ => true
  | .scan | .resolve | .limit _ => false

def scanSucceeds (r : Resolver) : Request → Bool
  | .scan | .resolve => r.scan.isOk
  | .resolveAll | .resolveFor _ _ | .limit _ => false

/-- The states that can be reached, and whether a scan has succeeded on the way. -/
inductive Reached (tables : List (String × Option Clause)) : Bool → Resolver → Prop where
  | start {r : Resolver} (built : ofTables tables = .ok r) : Reached tables false r
  | step {scanned : Bool} {r : Resolver} (reached : Reached tables scanned r) (request : Request)
      (due : request.needsScan = true → scanned = true) :
      Reached tables (scanned || r.scanSucceeds request) (r.perform request).2

structure Settled (r : Resolver) : Prop where
  idle : r.progress.active = []
  distinct : r.order.Nodup
  ordered : r.dependencies.Ordered r.order

variable {tables : List (String × Option Clause)} {r next : Resolver} {request : Request}
  {fault : Fault} {limits : Limits} {scanned : Bool} {table : String} {depth : Nat}

theorem Settled.sound (settled : Settled r) : r.dependencies.Sound r.progress where
  distinct := settled.distinct
  pathDistinct := by simp [settled.idle]
  apart := by simp [settled.idle]
  ordered := settled.ordered

theorem Settled.extend {p : Progress} (settled : Settled r)
    (step : r.dependencies.Extends r.progress p) : Settled { r with progress := p } where
  idle := step.path.trans settled.idle
  distinct := step.sound.distinct
  ordered := step.sound.ordered

theorem resolveAllExtends (ran : r.resolveAll = .ok next) (settled : Settled r) :
    ∃ p, next = { r with progress := p } ∧ r.dependencies.Extends r.progress p ∧
      ∀ table ∈ Keyed.names r.tables, table ∈ p.resolved := by
  obtain ⟨p, resolved, last⟩ := bindOk.1 ran
  cases last
  exact ⟨p, rfl, DependencyMap.resolveTablesExtends resolved settled.sound settled.idle⟩

theorem resolveForExtends (ran : r.resolveFor table depth = .ok next) (settled : Settled r) :
    ∃ p, next = { r with progress := p } ∧ r.dependencies.Extends r.progress p := by
  obtain ⟨p, resolved, last⟩ := bindOk.1 ran
  cases last
  have inactive : table ∉ r.progress.active := by simp [settled.idle]
  exact ⟨p, rfl, (DependencyMap.resolveTableExtends resolved settled.sound inactive).1⟩

def Known (r : Resolver) : Prop := r.dependencies = DependencyMap.empty.putAll (recorded r.tables)

theorem scanKnows (ran : r.scan = .ok next) :
    next = { r with dependencies := DependencyMap.empty.putAll (recorded r.tables) } := by
  obtain ⟨found, scanned, last⟩ := bindOk.1 ran
  cases last
  rw [scanTablesRecorded scanned]

structure Stands (tables : List (String × Option Clause)) (scanned : Bool) (r : Resolver) :
    Prop where
  settled : Settled r
  tables : r.tables = tables
  known : scanned = true → Known r
  fresh : scanned = false → r.order = []

theorem Stands.scan (stands : Stands tables scanned r) (ran : r.scan = .ok next) :
    Stands tables true next ∧ next.progress = r.progress := by
  cases scanKnows ran
  refine ⟨⟨⟨stands.settled.idle, stands.settled.distinct, ?_⟩, stands.tables, fun _ => rfl, nofun⟩,
    rfl⟩
  cases scanned with
  | true => exact stands.known rfl ▸ stands.settled.ordered
  | false =>
    have none : r.order = [] := stands.fresh rfl
    exact none ▸ DependencyMap.orderedNil _

theorem Stands.extend {p : Progress} (stands : Stands tables true r)
    (step : r.dependencies.Extends r.progress p) : Stands tables true { r with progress := p } :=
  ⟨stands.settled.extend step, stands.tables, stands.known, nofun⟩

theorem startStands (built : ofTables tables = .ok r) : Stands tables false r := by
  unfold ofTables at built
  split at built
  · cases built
  · cases built
    exact ⟨⟨rfl, List.nodup_nil, DependencyMap.orderedNil _⟩, rfl, nofun, fun _ => rfl⟩

theorem resolveAfterScan (ran : r.scan = .ok next) :
    r.perform .resolve = next.perform .resolveAll := by
  simp only [perform, resolve, ran]

theorem resolveSteps (r : Resolver) :
    (r.resolve.1.map fun _ => r.resolve.2.order) = do
      let m ← scanTables r.limits .empty r.tables
      let p ← m.resolveTables r.limits (Keyed.names r.tables) r.progress
      return p.resolved := by
  unfold resolve
  cases scanned : scanTables r.limits .empty r.tables with
  | error fault =>
    have failed : r.scan = .error fault := bindError.2 (.inl scanned)
    rw [failed]
    rfl
  | ok m =>
    have found : r.scan = .ok { r with dependencies := m } := bindOk.2 ⟨m, scanned, rfl⟩
    simp only [found]
    cases resolved : m.resolveTables r.limits (Keyed.names r.tables) r.progress with
    | error fault =>
      have failed : resolveAll { r with dependencies := m } = .error fault :=
        bindError.2 (.inl resolved)
      rw [failed]
      exact (bindError.2 (.inr ⟨m, rfl, bindError.2 (.inl resolved)⟩)).symm
    | ok p =>
      have reached : resolveAll { r with dependencies := m } =
          .ok { r with dependencies := m, progress := p } := bindOk.2 ⟨p, resolved, rfl⟩
      rw [reached]
      refine (bindOk.2 ⟨m, rfl, ?_⟩).symm
      rw [resolved]
      rfl

theorem resolveAllStands (stands : Stands tables true r) :
    Stands tables true (r.perform .resolveAll).2 ∧ r.order <+: (r.perform .resolveAll).2.order := by
  cases ran : r.resolveAll with
  | error fault => simpa [perform, ran, attempt] using stands
  | ok next =>
    obtain ⟨p, rfl, step, _⟩ := resolveAllExtends ran stands.settled
    simpa [perform, ran, attempt] using ⟨stands.extend step, step.order⟩

theorem performStands (stands : Stands tables scanned r)
    (due : request.needsScan = true → scanned = true) :
    Stands tables (scanned || r.scanSucceeds request) (r.perform request).2 ∧
      r.order <+: (r.perform request).2.order := by
  cases request with
  | scan =>
    cases ran : r.scan with
    | error fault =>
      simpa [perform, ran, attempt, scanSucceeds, Except.isOk, Except.toBool] using stands
    | ok next =>
      obtain ⟨after, kept⟩ := stands.scan ran
      simpa [perform, ran, attempt, scanSucceeds, Except.isOk, Except.toBool, order, kept]
  | resolveAll =>
    cases due rfl
    exact resolveAllStands stands
  | resolveFor table depth =>
    cases due rfl
    cases ran : r.resolveFor table depth with
    | error fault => simpa [perform, ran, attempt, scanSucceeds] using stands
    | ok next =>
      obtain ⟨p, rfl, step⟩ := resolveForExtends ran stands.settled
      simpa [perform, ran, attempt, scanSucceeds] using ⟨stands.extend step, step.order⟩
  | resolve =>
    cases ran : r.scan with
    | error fault =>
      simpa [perform, resolve, ran, scanSucceeds, Except.isOk, Except.toBool] using stands
    | ok next =>
      obtain ⟨between, kept⟩ := stands.scan ran
      obtain ⟨after, grown⟩ := resolveAllStands between
      have same : next.order = r.order := congrArg Progress.resolved kept
      rw [same] at grown
      simpa [resolveAfterScan ran, scanSucceeds, ran, Except.isOk, Except.toBool, after] using grown
  | limit limits =>
    have idle : Settled { r with limits } :=
      ⟨stands.settled.idle, stands.settled.distinct, stands.settled.ordered⟩
    simpa [perform, scanSucceeds, order] using
      (⟨idle, stands.tables, stands.known, stands.fresh⟩ : Stands tables scanned { r with limits })

theorem reachedStands (reached : Reached tables scanned r) : Stands tables scanned r := by
  induction reached with
  | start built => exact startStands built
  | step _ request due ih => exact (performStands ih due).1

theorem attemptPassed {step : Except Fault Resolver} (ran : r.attempt step = (.ok (), next)) :
    step = .ok next := by
  cases step with
  | error => cases ran
  | ok =>
    cases ran
    rfl

theorem attemptFailed {step : Except Fault Resolver} (failed : (r.attempt step).1 = .error fault) :
    step = .error fault ∧ (r.attempt step).2 = r := by
  cases step with
  | error =>
    cases failed
    exact ⟨rfl, rfl⟩
  | ok => cases failed

theorem attemptFault (same : next.progress = r.progress) {step : Except Fault Resolver}
    (failed : (next.attempt step).1 = .error fault) :
    (next.attempt step).2.progress = r.progress := by
  rw [(attemptFailed failed).2, same]

theorem performFault (failed : (r.perform request).1 = .error fault) :
    (r.perform request).2.progress = r.progress := by
  cases request with
  | scan | resolveAll | resolveFor => exact attemptFault rfl failed
  | resolve =>
    cases ran : r.scan with
    | error => simp [perform, resolve, ran]
    | ok next =>
      rw [resolveAfterScan ran] at failed ⊢
      exact attemptFault (by cases scanKnows ran; rfl) failed
  | limit => cases failed

theorem resolveAllComplete (settled : Settled r) (done : (r.perform .resolveAll).1 = .ok ()) :
    (r.perform .resolveAll).2.tables = r.tables ∧
      ∀ table ∈ Keyed.names r.tables, table ∈ (r.perform .resolveAll).2.order := by
  cases ran : r.resolveAll with
  | error fault => simp [perform, ran, attempt] at done
  | ok next =>
    obtain ⟨p, rfl, _, complete⟩ := resolveAllExtends ran settled
    simpa [perform, ran, attempt, order] using complete

theorem resolveComplete (stands : Stands tables scanned r)
    (kind : request = .resolveAll ∨ request = .resolve) (done : (r.perform request).1 = .ok ()) :
    (r.perform request).2.tables = tables ∧
      ∀ table ∈ Keyed.names tables, table ∈ (r.perform request).2.order := by
  rcases kind with rfl | rfl
  · cases stands.tables
    exact resolveAllComplete stands.settled done
  · cases ran : r.scan with
    | error fault => simp [perform, resolve, ran] at done
    | ok next =>
      have between := (stands.scan ran).1
      rw [resolveAfterScan ran] at done ⊢
      cases between.tables
      exact resolveAllComplete between.settled done

theorem resolveAgain (complete : ∀ table ∈ Keyed.names r.tables, table ∈ r.order) :
    r.perform .resolveAll = (.ok (), r) := by
  have still : r.dependencies.resolveTables r.limits (Keyed.names r.tables) r.progress =
      .ok r.progress := DependencyMap.resolveTablesAgain complete
  simp only [perform, resolveAll, still]
  rfl

theorem runKeepsOrder (reached : Reached tables scanned r) :
    r.Settled ∧ ∀ request : Request, (request.needsScan = true → scanned = true) →
      ((r.perform request).1 = .ok () → r.order <+: (r.perform request).2.order) ∧
      (∀ fault, (r.perform request).1 = .error fault →
        (r.perform request).2.progress = r.progress) ∧
      (request = .resolveAll ∨ request = .resolve → (r.perform request).1 = .ok () →
        (∀ table ∈ Keyed.names tables, table ∈ (r.perform request).2.order) ∧
        ∀ limits, perform { (r.perform request).2 with limits } .resolveAll =
          (.ok (), { (r.perform request).2 with limits })) := by
  have stands := reachedStands reached
  refine ⟨stands.settled, fun request due => ⟨fun _ => (performStands stands due).2,
    fun fault => performFault, fun kind done => ?_⟩⟩
  obtain ⟨same, complete⟩ := resolveComplete stands kind done
  refine ⟨complete, fun limits => resolveAgain ?_⟩
  rw [same]
  exact complete

def shipping : List (String × Option Clause) :=
  [("flow", some (.object [("FROM", .list [.literal "routes", .literal "capacity"])])),
    ("capacity", some (.object [("FROM", .literal "routes")])), ("routes", none)]

def shippingScanned (limits : Limits) : Resolver where
  tables := shipping
  distinct := by decide
  limits := limits
  dependencies :=
    DependencyMap.empty.putAll [("flow", ["routes", "capacity"]), ("capacity", ["routes"])]

theorem scannedReached : Reached shipping true (shippingScanned {}) := by
  have start : Reached shipping false ⟨shipping, by decide, {}, .empty, {}⟩ := .start rfl
  have refused : Reached shipping true (shippingScanned ⟨0⟩) :=
    (start.step (.limit ⟨0⟩) nofun).step .resolve nofun
  exact refused.step (.limit {}) nofun

theorem shippingKeepsOrder :
    Reached shipping true (shippingScanned {}) ∧ (shippingScanned {}).Settled ∧
      ((shippingScanned {}).perform .resolveAll).2.order = ["routes", "capacity", "flow"] ∧
      perform { ((shippingScanned {}).perform .resolveAll).2 with limits := ⟨0⟩ } .resolveAll =
        (.ok (), { ((shippingScanned {}).perform .resolveAll).2 with limits := ⟨0⟩ }) ∧
      ((shippingScanned {}).perform (.resolveFor "flow" 7)).1 =
        .error (.tooDeep (.resolution "routes" 8) 7) ∧
      ((shippingScanned {}).perform (.resolveFor "flow" 7)).2.progress = {} := by
  obtain ⟨settled, kept⟩ := runKeepsOrder scannedReached
  have refused : ((shippingScanned {}).perform (.resolveFor "flow" 7)).1 =
      .error (.tooDeep (.resolution "routes" 8) 7) := by decide
  have again := ((kept .resolveAll fun _ => rfl).2.2 (.inl rfl) (by decide)).2 ⟨0⟩
  have still := (kept (.resolveFor "flow" 7) fun _ => rfl).2.1 _ refused
  exact ⟨scannedReached, settled, by decide, again, refused, still⟩

end TablePlan.Resolver
