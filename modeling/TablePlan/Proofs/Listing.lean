import TablePlan.Proofs.Acceptance
/-! Tables listed in one order and in another. A walk passes over what earlier tables have resolved,
so how deep it goes hangs on the order in which they are listed, and with it what the ceiling stops.
Nothing else does: what is accepted in one order is refused in another for its depth alone, and only
where no table leads back to itself and some chain of dependencies is longer than the ceiling.
Tables that lead back to themselves are accepted in no order. -/
namespace TablePlan

namespace DependencyMap

variable {m : DependencyMap} {limits : Limits} {start : Nat} {root : String} {fault : Fault}

theorem Stopped.deep (stopped : Stopped m limits start root fault) (acyclic : ¬ m.Cyclic) :
    ∃ name depth, fault = .tooDeep (.resolution name depth) limits.maxDepth := by
  have cyclic := stopped.cyclic
  cases stopped with
  | circular => exact absurd (cyclic rfl) acyclic
  | tooDeep => exact ⟨_, _, rfl⟩

end DependencyMap

namespace Resolver

variable {tables other : List (String × Option Clause)} {limits : Limits} {m : DependencyMap}
  {order : List String}

def freshOrder (limits : Limits) (tables : List (String × Option Clause)) :
    Except Fault (List String) := do
  let fresh ← ofTables tables
  match perform { fresh with limits } .resolve with
  | (.ok (), r) => return r.order
  | (.error fault, _) => throw fault

def Accepted (limits : Limits) (tables : List (String × Option Clause)) : Prop :=
  ∃ order, freshOrder limits tables = .ok order

/-- No table leads back to itself, and from some table on there is a chain of dependencies that is
longer than the ceiling. -/
def Overlong (limits : Limits) (tables : List (String × Option Clause)) : Prop :=
  ∃ m, scanTables limits .empty tables = .ok m ∧ ¬ m.Cyclic ∧
    ¬ m.Shallow limits (Keyed.names tables)

theorem freshOrderSteps (distinct : (Keyed.names tables).Nodup) (limits : Limits) :
    freshOrder limits tables = do
      let m ← scanTables limits .empty tables
      let p ← m.resolveTables limits (Keyed.names tables) {}
      return p.resolved := by
  have built : ofTables tables = .ok ⟨tables, distinct, {}, .empty, {}⟩ :=
    ofTablesExact.2 ⟨distinct, rfl⟩
  refine .trans ?_ (resolveSteps ⟨tables, distinct, limits, .empty, {}⟩)
  simp only [freshOrder, built, bind, Except.bind, perform]
  generalize resolve ⟨tables, distinct, limits, .empty, {}⟩ = ended
  obtain ⟨_ | _, _⟩ := ended <;> rfl

theorem acceptedParts (distinct : (Keyed.names tables).Nodup) : Accepted limits tables ↔
    ∃ m p, scanTables limits .empty tables = .ok m ∧
      m.resolveTables limits (Keyed.names tables) {} = .ok p := by
  rw [Accepted, freshOrderSteps distinct]
  constructor
  · rintro ⟨order, ran⟩
    obtain ⟨m, scanned, ran⟩ := bindOk.1 ran
    obtain ⟨p, resolved, _⟩ := bindOk.1 ran
    exact ⟨m, p, scanned, resolved⟩
  · rintro ⟨m, p, scanned, resolved⟩
    exact ⟨p.resolved, bindOk.2 ⟨m, scanned, bindOk.2 ⟨p, resolved, rfl⟩⟩⟩

theorem scannedFirst (distinct : (Keyed.names tables).Nodup)
    (scanned : scanTables limits .empty tables = .ok m) :
    FirstScan tables ⟨tables, distinct, limits, m, {}⟩ :=
  @FirstScan.scanned tables _ _ limits limits (ofTablesExact.2 ⟨distinct, rfl⟩)
    (bindOk.2 ⟨m, scanned, rfl⟩)

theorem resolvedTablesAcyclic {p : Progress} (distinct : (Keyed.names tables).Nodup)
    (scanned : scanTables limits .empty tables = .ok m)
    (resolved : m.resolveTables limits (Keyed.names tables) {} = .ok p) : ¬ m.Cyclic :=
  (scannedFirst distinct scanned).resolvedAcyclic (bindOk.2 ⟨p, resolved, rfl⟩)

theorem relistedAnswer (distinct : (Keyed.names tables).Nodup) (reordered : tables.Perm other)
    (accepted : Accepted limits tables) :
    Accepted limits other ∨ Overlong limits tables ∧ ∃ name depth,
      freshOrder limits other = .error (.tooDeep (.resolution name depth) limits.maxDepth) := by
  obtain ⟨m, p, scanned, resolved⟩ := (acceptedParts distinct).1 accepted
  obtain ⟨again, rescanned, same⟩ := scanTablesReordered reordered distinct scanned
  have otherDistinct : (Keyed.names other).Nodup := (reordered.map Prod.fst).nodup_iff.1 distinct
  have acyclic := resolvedTablesAcyclic distinct scanned resolved
  cases walked : again.resolveTables limits (Keyed.names other) {} with
  | ok q => exact .inl ((acceptedParts otherDistinct).2 ⟨again, q, rescanned, walked⟩)
  | error fault =>
    obtain ⟨root, known, stopped⟩ := DependencyMap.resolveTablesStop walked rfl
    obtain ⟨name, depth, rfl⟩ := stopped.deep (mt (DependencyMap.cyclicAlike same).1 acyclic)
    refine .inr ⟨⟨m, scanned, acyclic, fun shallow => ?_⟩, name, depth, ?_⟩
    · have relisted : again.Shallow limits (Keyed.names other) := fun table member =>
        DependencyMap.readsAlike same ▸
          shallow table ((reordered.map Prod.fst).mem_iff.2 member)
      cases stopped.shallow known relisted
    · rw [freshOrderSteps otherDistinct]
      exact bindError.2 (.inr ⟨again, rescanned, bindError.2 (.inl walked)⟩)

theorem overlongRelisted (distinct : (Keyed.names tables).Nodup) (reordered : tables.Perm other)
    (overlong : Overlong limits other) : Overlong limits tables := by
  obtain ⟨again, rescanned, acyclic, deep⟩ := overlong
  have otherDistinct : (Keyed.names other).Nodup := (reordered.map Prod.fst).nodup_iff.1 distinct
  obtain ⟨m, scanned, same⟩ := scanTablesReordered reordered.symm otherDistinct rescanned
  refine ⟨m, scanned, mt (DependencyMap.cyclicAlike same).1 acyclic,
    fun shallow => deep fun table member => ?_⟩
  exact DependencyMap.readsAlike same ▸ shallow table ((reordered.map Prod.fst).mem_iff.2 member)

theorem listingMattersForDepth (distinct : (Keyed.names tables).Nodup)
    (reordered : tables.Perm other) (limits : Limits) :
    (¬ Overlong limits tables → (Accepted limits tables ↔ Accepted limits other)) ∧
      (Accepted limits tables → Accepted limits other ∨ ∃ name depth,
        freshOrder limits other = .error (.tooDeep (.resolution name depth) limits.maxDepth)) := by
  have otherDistinct : (Keyed.names other).Nodup := (reordered.map Prod.fst).nodup_iff.1 distinct
  refine ⟨fun fits => ⟨fun accepted => ?_, fun accepted => ?_⟩, fun accepted => ?_⟩
  · exact (relistedAnswer distinct reordered accepted).resolve_right fun deep => fits deep.1
  · refine (relistedAnswer otherDistinct reordered.symm accepted).resolve_right fun deep => ?_
    exact fits (overlongRelisted distinct reordered deep.1)
  · exact (relistedAnswer distinct reordered accepted).imp_right And.right

theorem cyclicFits (scanned : scanTables limits .empty tables = .ok m) (cyclic : m.Cyclic) :
    ¬ Overlong limits tables := by
  rintro ⟨again, rescanned, acyclic, _⟩
  cases scanned.symm.trans rescanned
  exact acyclic cyclic

theorem fewFit (distinct : (Keyed.names tables).Nodup) (ran : freshOrder limits tables = .ok order)
    (few : order.length ≤ limits.maxDepth + 1) : ¬ Overlong limits tables := by
  rintro ⟨m, scanned, _, deep⟩
  rw [freshOrderSteps distinct, scanned] at ran
  obtain ⟨_, same, ran⟩ := bindOk.1 ran
  obtain ⟨p, resolved, last⟩ := bindOk.1 ran
  cases same
  cases last
  obtain ⟨step, complete⟩ := DependencyMap.resolveTablesExtends resolved
    (scannedFirst distinct scanned).settled.sound rfl
  refine deep fun table known path chain => ?_
  have low := DependencyMap.orderedChain step.sound.ordered (complete table known) chain
  have within := List.idxOf_lt_length_of_mem (complete table known)
  omega

def chained : List (String × Option Clause) :=
  [("flow", some (.object [("FROM", .literal "capacity")])),
    ("capacity", some (.object [("FROM", .list [.literal "routes"])])), ("routes", none)]

theorem chainedRelisted :
    (Keyed.names chained).Nodup ∧ chained.Perm chained.reverse ∧ ¬ Overlong ⟨2⟩ chained ∧
      Accepted ⟨2⟩ chained.reverse ∧ Accepted ⟨1⟩ chained.reverse ∧
      (∃ name depth, freshOrder ⟨1⟩ chained = .error (.tooDeep (.resolution name depth) 1)) ∧
      ¬ Overlong ⟨0⟩ looped ∧ (Accepted ⟨0⟩ looped ↔ Accepted ⟨0⟩ looped.reverse) := by
  have distinct : (Keyed.names chained).Nodup := by decide
  have reordered : chained.Perm chained.reverse := (List.reverse_perm _).symm
  have ordered : freshOrder ⟨2⟩ chained = .ok ["routes", "capacity", "flow"] := by decide +kernel
  have low : Accepted ⟨1⟩ chained.reverse := ⟨["routes", "capacity", "flow"], by decide +kernel⟩
  have refused : freshOrder ⟨1⟩ chained = .error (.tooDeep (.resolution "routes" 2) 1) := by
    decide +kernel
  have fits := fewFit distinct ordered (by decide)
  have high := (listingMattersForDepth distinct reordered ⟨2⟩).1 fits
  have back := (listingMattersForDepth (by decide) reordered.symm ⟨1⟩).2 low
  have void : ¬ Overlong ⟨0⟩ looped := cyclicFits rfl loopedCyclic
  refine ⟨distinct, reordered, fits, high.1 ⟨_, ordered⟩, low, back.resolve_left ?_, void, ?_⟩
  · rintro ⟨order, accepted⟩
    cases refused.symm.trans accepted
  · exact (listingMattersForDepth (by decide) (List.reverse_perm looped).symm ⟨0⟩).1 void

theorem chainedLeafFirst :
    (Keyed.names chained).Nodup ∧ chained.Perm chained.reverse ∧
      ¬ (Accepted ⟨1⟩ chained ↔ Accepted ⟨1⟩ chained.reverse) := by
  have refused : freshOrder ⟨1⟩ chained = .error (.tooDeep (.resolution "routes" 2) 1) := by
    decide +kernel
  refine ⟨by decide, (List.reverse_perm _).symm, fun alike => ?_⟩
  obtain ⟨order, accepted⟩ := alike.2 ⟨["routes", "capacity", "flow"], by decide +kernel⟩
  cases refused.symm.trans accepted

end Resolver
end TablePlan
