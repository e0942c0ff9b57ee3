import TablePlan.Proofs.FirstScan
/-! Which tables can be resolved: never those with a cycle among their dependencies, and always, in
whatever order they are listed, those without one whose chains of dependencies keep to the
ceiling. -/
namespace TablePlan

namespace DependencyMap

variable {m : DependencyMap} {limits : Limits} {start : Nat} {root : String} {tables : List String}
  {fault : Fault}

theorem Stopped.cause (stopped : Stopped m limits start root fault) :
    fault.isCircular = true ∨ fault.isTooDeep = true := by
  cases stopped with
  | circular => exact .inl rfl
  | tooDeep => exact .inr rfl

theorem Stopped.round {table name : String} {cycle : List String}
    (stopped : Stopped m limits start root (.circular table name cycle)) :
    name ∈ cycle ∧ ∀ one ∈ cycle, ∀ other ∈ cycle, m.Reaches one other := by
  cases stopped with
  | circular path reads active =>
    obtain ⟨_, round, cut, back⟩ := path.closes active
    have closing : name ∈ round := by
      obtain ⟨rest, rfl⟩ := back.begins
      exact .head _
    have member : ∀ one ∈ round ++ [name], one ∈ round := by
      intro one inside
      rcases List.mem_append.1 inside with old | last
      · exact old
      · exact List.mem_singleton.1 last ▸ closing
    rw [cut]
    exact ⟨List.mem_append_left _ closing, fun one left other right =>
      back.returns reads (member one left) (member other right)⟩

theorem Stopped.cyclic (stopped : Stopped m limits start root fault)
    (circular : fault.isCircular = true) : m.Cyclic := by
  unfold Fault.isCircular at circular
  split at circular
  · obtain ⟨member, round⟩ := stopped.round
    exact ⟨_, round _ member _ member⟩
  · cases circular

theorem Stopped.roomy (stopped : Stopped m limits 0 root fault) (known : root ∈ tables)
    (room : (Names.ofList (tables ++ m.names)).length ≤ limits.maxDepth + 1) :
    fault.isCircular = true := by
  cases stopped with
  | circular => rfl
  | tooDeep path reads inactive deep =>
    have bounded := path.bounded known reads inactive
    omega

def Shallow (m : DependencyMap) (limits : Limits) (tables : List String) : Prop :=
  ∀ table ∈ tables, ∀ path, (table :: path).IsChain m.Reads → path.length ≤ limits.maxDepth

theorem Stopped.shallow (stopped : Stopped m limits 0 root fault) (known : root ∈ tables)
    (shallow : m.Shallow limits tables) : fault.isCircular = true := by
  cases stopped with
  | circular => rfl
  | @tooDeep _ depth name p path reads inactive deep =>
    obtain ⟨rest, begins⟩ := path.begins
    have chain : (root :: (rest ++ [name])).IsChain m.Reads := by
      simpa [begins] using path.linkedTo reads
    have short := shallow root known _ chain
    have length := path.depth
    simp only [begins, List.length_cons, List.length_append, List.length_nil] at short length
    omega

theorem resolveTablesAccept (acyclic : ¬ m.Cyclic) (shallow : m.Shallow limits tables) :
    ∃ q, m.resolveTables limits tables {} = .ok q := by
  cases ran : m.resolveTables limits tables {} with
  | ok q => exact ⟨q, rfl⟩
  | error fault =>
    obtain ⟨root, known, stopped⟩ := resolveTablesStop ran rfl
    exact absurd (stopped.cyclic (stopped.shallow known shallow)) acyclic

theorem resolvedExact {q : Progress} {name : String}
    (ran : m.resolveTables limits tables {} = .ok q) :
    name ∈ q.resolved ↔ name ∈ tables ∨ ∃ table ∈ tables, m.Reaches table name := by
  obtain ⟨step, complete⟩ := resolveTablesExtends ran (soundFresh m) rfl
  constructor
  · exact fun inside => (resolveTablesGather ran inside).resolve_left (by simp)
  · rintro (declared | ⟨table, declared, reaches⟩)
    · exact complete name declared
    · exact (orderedReaches step.sound.ordered (complete table declared) reaches).1

end DependencyMap

namespace Resolver

variable {tables other : List (String × Option Clause)} {r scanned fresh : Resolver}
  {limits : Limits} {fault : Fault}

def names (r : Resolver) : List String :=
  Names.ofList (Keyed.names r.tables ++ r.dependencies.names)

theorem FirstScan.stopped (first : FirstScan tables r) (ran : r.resolveAll = .error fault) :
    ∃ root ∈ Keyed.names r.tables, r.dependencies.Stopped r.limits 0 root fault := by
  rcases bindError.1 ran with refused | ⟨_, _, last⟩
  · exact DependencyMap.resolveTablesStop refused (by rw [first.idle])
  · cases last

theorem FirstScan.resolvedAcyclic {next : Resolver} (first : FirstScan tables r)
    (ran : r.resolveAll = .ok next) : ¬ r.dependencies.Cyclic := by
  obtain ⟨p, rfl, step, complete⟩ := resolveAllExtends ran first.settled
  exact DependencyMap.orderedAcyclic step.sound.ordered fun table name reads =>
    complete table (first.readerDeclared reads)

theorem cyclesRefused (first : FirstScan tables r) :
    (r.dependencies.Cyclic → ∃ fault, r.resolveAll = .error fault ∧
      (fault.isCircular = true ∨ fault.isTooDeep = true) ∧
      (r.names.length ≤ r.limits.maxDepth + 1 → fault.isCircular = true)) ∧
    ∀ fault, r.resolveAll = .error fault → fault.isCircular = true → r.dependencies.Cyclic := by
  constructor
  · intro cyclic
    cases ran : r.resolveAll with
    | ok next => exact absurd cyclic (first.resolvedAcyclic ran)
    | error fault =>
      obtain ⟨root, known, stopped⟩ := first.stopped ran
      exact ⟨fault, rfl, stopped.cause, stopped.roomy known⟩
  · intro fault ran circular
    obtain ⟨root, known, stopped⟩ := first.stopped ran
    exact stopped.cyclic circular

def looped : List (String × Option Clause) :=
  [("flow", some (.object [("FROM", .literal "routes")])),
    ("routes", some (.object [("FROM", .literal "plants"), ("JOIN#1", .literal "depots")])),
    ("depots", some (.object [("FROM", .list [.literal "routes"])]))]

def loopedScanned (limits : Limits) : Resolver where
  tables := looped
  distinct := by decide
  limits := limits
  dependencies := DependencyMap.empty.putAll
    [("flow", ["routes"]), ("routes", ["plants", "depots"]), ("depots", ["routes"])]

theorem loopedFirst (limits : Limits) : FirstScan looped (loopedScanned limits) :=
  @FirstScan.scanned looped ⟨looped, by decide, {}, .empty, {}⟩ (loopedScanned {}) {} limits rfl rfl

theorem loopedCyclic : (loopedScanned {}).dependencies.Cyclic := by
  have out : (loopedScanned {}).dependencies.Reads "routes" "depots" := by decide
  have back : (loopedScanned {}).dependencies.Reads "depots" "routes" := by decide
  exact ⟨"routes", .tail (.single out) back⟩

theorem loopedRefused :
    FirstScan looped (loopedScanned ⟨3⟩) ∧ (loopedScanned ⟨3⟩).dependencies.Cyclic ∧
      (loopedScanned ⟨3⟩).names.length ≤ 3 + 1 ∧
      (∃ fault, (loopedScanned ⟨3⟩).resolveAll = .error fault ∧ fault.isCircular = true) ∧
      (loopedScanned ⟨1⟩).resolveAll = .error (.tooDeep (.resolution "plants" 2) 1) := by
  have around : (loopedScanned ⟨3⟩).dependencies.Cyclic := loopedCyclic
  obtain ⟨fault, refused, _, circular⟩ := (cyclesRefused (loopedFirst ⟨3⟩)).1 around
  have few : (loopedScanned ⟨3⟩).names.length ≤ 3 + 1 := by decide
  exact ⟨loopedFirst ⟨3⟩, around, few, ⟨fault, refused, circular few⟩, rfl⟩

theorem acceptedInAnyOrder (built : ofTables tables = .ok fresh)
    (ran : scan { fresh with limits } = .ok scanned) (acyclic : ¬ scanned.dependencies.Cyclic)
    (shallow : scanned.dependencies.Shallow limits (Keyed.names tables))
    (reordered : tables.Perm other) :
    ∃ start next, ofTables other = .ok start ∧
      perform { start with limits } .resolve = (.ok (), next) ∧
      ∀ name, name ∈ next.order ↔ name ∈ Keyed.names tables ∨
        ∃ table ∈ Keyed.names tables, scanned.dependencies.Reaches table name := by
  obtain ⟨distinct, rfl⟩ := ofTablesExact.1 built
  obtain ⟨m, found, last⟩ := bindOk.1 ran
  cases last
  obtain ⟨again, rescanned, same⟩ := scanTablesReordered reordered distinct found
  have reads := DependencyMap.readsAlike same
  have listed : ∀ name, name ∈ Keyed.names other ↔ name ∈ Keyed.names tables :=
    fun name => (reordered.map Prod.fst).mem_iff.symm
  have otherDistinct : (Keyed.names other).Nodup := (reordered.map Prod.fst).nodup_iff.1 distinct
  obtain ⟨q, resolved⟩ : ∃ q, again.resolveTables limits (Keyed.names other) {} = .ok q := by
    refine DependencyMap.resolveTablesAccept (mt (DependencyMap.cyclicAlike same).1 acyclic) ?_
    simpa only [DependencyMap.Shallow, listed, reads] using shallow
  have scans : scan ⟨other, otherDistinct, limits, .empty, {}⟩ =
      .ok ⟨other, otherDistinct, limits, again, {}⟩ := bindOk.2 ⟨again, rescanned, rfl⟩
  refine ⟨_, ⟨other, otherDistinct, limits, again, q⟩, ofTablesExact.2 ⟨otherDistinct, rfl⟩, ?_, ?_⟩
  · rw [resolveAfterScan scans]
    simp only [perform, resolveAll, resolved]
    rfl
  · intro name
    simpa only [order, DependencyMap.Reaches, listed, reads] using
      DependencyMap.resolvedExact resolved

theorem shippingFirst (limits : Limits) : FirstScan shipping (shippingScanned limits) :=
  @FirstScan.scanned shipping ⟨shipping, by decide, {}, .empty, {}⟩ (shippingScanned {}) {} limits
    rfl rfl

theorem shippingAccepted :
    scan ⟨shipping, by decide, ⟨2⟩, .empty, {}⟩ = .ok (shippingScanned ⟨2⟩) ∧
      ¬ (shippingScanned ⟨2⟩).dependencies.Cyclic ∧
      (shippingScanned ⟨2⟩).dependencies.Shallow ⟨2⟩ (Keyed.names shipping) ∧
      ∃ start next, ofTables shipping.reverse = .ok start ∧
        perform { start with limits := ⟨2⟩ } .resolve = (.ok (), next) ∧
        ∀ name, name ∈ next.order ↔ name ∈ Keyed.names shipping ∨
          ∃ table ∈ Keyed.names shipping,
            (shippingScanned ⟨2⟩).dependencies.Reaches table name := by
  have first := shippingFirst ⟨2⟩
  obtain ⟨next, ran⟩ : ∃ next, (shippingScanned ⟨2⟩).resolveAll = .ok next := ⟨_, rfl⟩
  have acyclic := first.resolvedAcyclic ran
  have ordered : (shippingScanned ⟨2⟩).dependencies.Ordered ["routes", "capacity", "flow"] := by
    obtain ⟨p, same, step, -⟩ := resolveAllExtends ran first.settled
    have order : p.resolved = ["routes", "capacity", "flow"] := by
      rw [same] at ran
      exact congrArg Resolver.order (Except.ok.inj ran).symm
    exact order ▸ step.sound.ordered
  have shallow : (shippingScanned ⟨2⟩).dependencies.Shallow ⟨2⟩ (Keyed.names shipping) := by
    intro table known path chain
    have placed : ∀ name ∈ Keyed.names shipping, name ∈ ["routes", "capacity", "flow"] := by decide
    have low := DependencyMap.orderedChain ordered (placed table known) chain
    exact low.trans (Nat.le_of_lt_succ (List.idxOf_lt_length_of_mem (placed table known)))
  have built : ofTables shipping = .ok ⟨shipping, by decide, {}, .empty, {}⟩ := rfl
  exact ⟨rfl, acyclic, shallow,
    acceptedInAnyOrder built rfl acyclic shallow (List.reverse_perm _).symm⟩

end Resolver
end TablePlan
