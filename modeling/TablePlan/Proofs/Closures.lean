import Mathlib.Data.Set.Card
import TablePlan.Proofs.Acceptance
/-! Why each name stands where it does. Tables are brought in the order in which they are listed,
and the dependencies of a table in the order in which it names them; before each of them comes all
that it leads to and has not come yet, and nothing else. The foremost of a set in an order are as
many names from the beginning of the order as there are in the set. -/
namespace TablePlan

namespace DependencyMap

variable {m : DependencyMap} {limits : Limits} {table name : String} {depth : Nat}
  {pending order front back names : List String} {p q : Progress}

def closure (m : DependencyMap) (names : List String) : Set String :=
  {name | name ∈ names ∨ ∃ table ∈ names, m.Reaches table name}

noncomputable def foremost (order : List String) (names : Set String) : List String :=
  order.take names.ncard

theorem foremostExact {names : Set String} (distinct : order.Nodup) (begins : front <+: order)
    (exact : {name | name ∈ front} = names) : foremost order names = front := by
  have counted : names.ncard = front.length := by
    rw [← exact, ← List.toFinset_card_of_nodup (distinct.sublist begins.sublist),
      ← Set.ncard_coe_finset, List.coe_toFinset]
  rw [foremost, counted, ← List.prefix_iff_eq_take.1 begins]

theorem closureCons : name ∈ m.closure (table :: front) ↔
    (name = table ∨ m.Reaches table name) ∨ name ∈ m.closure front := by
  simp only [closure, Set.mem_ofPred_eq, List.mem_cons, exists_eq_or_imp]
  tauto

theorem orderedCloses (ordered : m.Ordered order) (known : ∀ name ∈ names, name ∈ order)
    (inside : name ∈ m.closure names) : name ∈ order := by
  rcases inside with named | ⟨table, named, reaches⟩
  · exact known name named
  · exact (orderedReaches ordered (known table named) reaches).1

theorem walkCut (walk : Walk m limits table depth (front ++ back) p (.ok q)) :
    ∃ mid, Walk m limits table depth back mid (.ok q) ∧ p.resolved <+: mid.resolved ∧
      (∀ name ∈ front, name ∈ mid.resolved) ∧
      ∀ name ∈ mid.resolved, name ∈ p.resolved ∨ name ∈ m.closure front := by
  induction front generalizing p with
  | nil => exact ⟨p, walk, List.prefix_rfl, nofun, fun name => .inl⟩
  | cons next rest ih =>
    cases walk with
    | known resolved later =>
      obtain ⟨mid, walk, grown, complete, gathered⟩ := ih later
      refine ⟨mid, walk, grown, List.forall_mem_cons.2 ⟨grown.subset resolved, complete⟩, ?_⟩
      exact fun name inside => (gathered name inside).imp_right fun within =>
        closureCons.2 (.inr within)
    | @next _ _ _ _ _ between _ unresolved inactive within inner later =>
      obtain ⟨found, atNext⟩ := walkGrows inner
      obtain ⟨mid, walk, grown, complete, gathered⟩ := ih later
      have begins : p.resolved <+: between.resolved :=
        ⟨found ++ [next], by simp [atNext, Progress.enter]⟩
      have reached : next ∈ between.resolved := by simp [atNext]
      refine ⟨mid, walk, begins.trans grown,
        List.forall_mem_cons.2 ⟨grown.subset reached, complete⟩, fun name inside => ?_⟩
      rcases gathered name inside with here | within
      · rcases walkGathers inner here with old | same | ⟨due, reads, onward⟩
        · exact .inl old
        · exact .inr (closureCons.2 (.inl (.inl same)))
        · exact .inr (closureCons.2 (.inl (.inr (readsReach reads onward))))
      · exact .inr (closureCons.2 (.inr within))

theorem resolveTablesCut (ran : m.resolveTables limits (front ++ back) p = .ok q) :
    ∃ mid, m.resolveTables limits front p = .ok mid ∧ m.resolveTables limits back mid = .ok q := by
  induction front generalizing p with
  | nil => exact ⟨p, rfl, ran⟩
  | cons table rest ih =>
    rw [List.cons_append, resolveTables] at ran
    rw [resolveTables]
    split at ran
    · rename_i resolved
      rw [if_pos resolved]
      exact ih ran
    · rename_i unresolved
      obtain ⟨between, first, later⟩ := bindOk.1 ran
      obtain ⟨mid, early, late⟩ := ih later
      rw [if_neg unresolved]
      exact ⟨mid, bindOk.2 ⟨between, first, early⟩, late⟩

theorem resolveTableLast (ran : m.resolveTable limits table depth p = .ok q)
    (fresh : table ∉ p.resolved) : q.resolved.getLast? = some table := by
  cases resolveTableExact.1 ran with
  | known _ resolved => exact absurd resolved fresh
  | walk _ _ walk =>
    obtain ⟨found, grown⟩ := walkGrows walk
    simp [grown]

theorem resolvedClosure (ran : m.resolveTables limits names {} = .ok q) :
    {name | name ∈ q.resolved} = m.closure names :=
  Set.ext fun _ => resolvedExact ran

theorem foremostTables (ran : m.resolveTables limits (front ++ back) {} = .ok q) :
    ∃ mid, m.resolveTables limits front {} = .ok mid ∧
      foremost q.resolved (m.closure front) = mid.resolved := by
  obtain ⟨mid, early, late⟩ := resolveTablesCut ran
  obtain ⟨before, _⟩ := resolveTablesExtends early m.soundFresh rfl
  obtain ⟨after, _⟩ := resolveTablesExtends late before.sound before.path
  exact ⟨mid, early, foremostExact after.sound.distinct after.order (resolvedClosure early)⟩

theorem foremostLast (ran : m.resolveTables limits (front ++ table :: back) {} = .ok q)
    (fresh : table ∉ m.closure front) :
    (foremost q.resolved (m.closure (front ++ [table]))).getLast? = some table := by
  rw [← List.singleton_append, ← List.append_assoc] at ran
  obtain ⟨mid, early, begins⟩ := foremostTables ran
  obtain ⟨before, first, here⟩ := resolveTablesCut early
  have unresolved : table ∉ before.resolved := fun inside =>
    fresh (resolvedClosure first ▸ inside)
  rw [resolveTables, if_neg unresolved] at here
  obtain ⟨after, last, same⟩ := bindOk.1 here
  cases same
  rw [begins, resolveTableLast last unresolved]

/-- Name after name, what each leads to is complete before anything else comes. -/
def Unfolds (m : DependencyMap) (order names : List String) : Prop :=
  ∀ front back, names = front ++ back →
    {name | name ∈ foremost order (m.closure front)} = m.closure front

theorem tablesUnfold (ran : m.resolveTables limits names {} = .ok q) :
    m.Unfolds q.resolved names := by
  rintro front back rfl
  obtain ⟨mid, early, begins⟩ := foremostTables ran
  rw [begins, resolvedClosure early]

theorem dependenciesUnfold (ran : m.resolveTable limits table depth {} = .ok q) :
    m.Unfolds q.resolved (m.of table) := by
  intro front back cut
  have sound := (resolveTableExtends ran m.soundFresh nofun).1.sound
  cases resolveTableExact.1 ran with
  | known _ resolved => cases resolved
  | walk _ _ walk =>
    obtain ⟨mid, later, _, complete, gathered⟩ := walkCut (cut ▸ walk)
    obtain ⟨found, grown⟩ := walkGrows later
    have begins : mid.resolved <+: q.resolved := ⟨found ++ [table], by simp [grown]⟩
    have ordered := orderedFront sound.ordered begins
    have exact : {name | name ∈ mid.resolved} = m.closure front := by
      refine Set.ext fun name => ⟨fun inside => ?_, orderedCloses ordered complete⟩
      exact (gathered name inside).resolve_left nofun
    rw [foremostExact sound.distinct begins exact, exact]

theorem resolvedAlone (ran : m.resolveTable limits table depth {} = .ok q) :
    {name | name ∈ q.resolved} = m.closure [table] := by
  obtain ⟨after, known⟩ := resolveTableExtends ran m.soundFresh nofun
  refine Set.ext fun name => ⟨fun inside => ?_,
    orderedCloses after.sound.ordered (List.forall_mem_singleton.2 known)⟩
  cases resolveTableExact.1 ran with
  | known _ resolved => cases resolved
  | walk _ _ walk =>
    rcases walkGathers walk inside with old | same | ⟨due, reads, onward⟩
    · cases old
    · exact closureCons.2 (.inl (.inl same))
    · exact closureCons.2 (.inl (.inr (readsReach reads onward)))

end DependencyMap

namespace Resolver

variable {tables : List (String × Option Clause)} {limits : Limits} {fresh r next : Resolver}
  {table : String} {depth : Nat}

theorem freshResolved (built : ofTables tables = .ok fresh)
    (ran : perform { fresh with limits } .resolve = (.ok (), r)) :
    r.dependencies.resolveTables limits (Keyed.names tables) {} = .ok r.progress := by
  obtain ⟨distinct, rfl⟩ := ofTablesExact.1 built
  cases scanned : scan ⟨tables, distinct, limits, .empty, {}⟩ with
  | error fault => simp [perform, resolve, scanned] at ran
  | ok next =>
    rw [resolveAfterScan scanned] at ran
    obtain ⟨m, _, same⟩ := bindOk.1 scanned
    cases same
    obtain ⟨q, resolved, last⟩ := bindOk.1 (attemptPassed ran)
    cases last
    exact resolved

theorem FirstScan.resolved (first : FirstScan tables r)
    (ran : r.resolveFor table depth = .ok next) :
    r.dependencies.resolveTable r.limits table depth {} = .ok next.progress := by
  obtain ⟨q, resolved, same⟩ := bindOk.1 ran
  cases same
  rwa [first.idle] at resolved

theorem closuresInTurn (tables : List (String × Option Clause)) :
    (∀ limits fresh r, ofTables tables = .ok fresh →
      perform { fresh with limits } .resolve = (.ok (), r) →
      r.dependencies.Unfolds r.order (Keyed.names tables) ∧
        ∀ front table back, Keyed.names tables = front ++ table :: back →
          table ∉ r.dependencies.closure front →
          (DependencyMap.foremost r.order
            (r.dependencies.closure (front ++ [table]))).getLast? = some table) ∧
      ∀ r next table depth, FirstScan tables r → r.resolveFor table depth = .ok next →
        r.dependencies.Unfolds next.order (r.dependencies.of table) ∧
          {name | name ∈ next.order} = r.dependencies.closure [table] ∧
          next.order.getLast? = some table := by
  refine ⟨fun limits fresh r built ran => ?_, fun r next table depth first ran => ?_⟩
  · have resolved := freshResolved built ran
    refine ⟨DependencyMap.tablesUnfold resolved, fun front table back cut apart => ?_⟩
    exact DependencyMap.foremostLast (cut ▸ resolved) apart
  · have resolved := first.resolved ran
    exact ⟨DependencyMap.dependenciesUnfold resolved, DependencyMap.resolvedAlone resolved,
      DependencyMap.resolveTableLast resolved nofun⟩

def branched : List (String × Option Clause) :=
  [("capacity", some (.object [("FROM", .literal "routes")])),
    ("flow", some (.object [("FROM", .list [.literal "plants", .literal "capacity"]),
      ("JOIN", .literal "routes")])), ("routes", none)]

def branchedScanned (progress : Progress) : Resolver where
  tables := branched
  distinct := by decide
  dependencies := DependencyMap.empty.putAll
    [("capacity", ["routes"]), ("flow", ["plants", "capacity", "routes"])]
  progress := progress

theorem branchedInTurn :
    let whole := branchedScanned ⟨["routes", "capacity", "plants", "flow"], []⟩
    let single := branchedScanned ⟨["plants", "routes", "capacity", "flow"], []⟩
    ofTables branched = .ok ⟨branched, by decide, {}, .empty, {}⟩ ∧
      perform ⟨branched, by decide, {}, .empty, {}⟩ .resolve = (.ok (), whole) ∧
      whole.dependencies.Unfolds whole.order ["capacity", "flow", "routes"] ∧
      "flow" ∉ whole.dependencies.closure ["capacity"] ∧
      (DependencyMap.foremost whole.order
        (whole.dependencies.closure ["capacity", "flow"])).getLast? = some "flow" ∧
      FirstScan branched (branchedScanned {}) ∧
      (branchedScanned {}).resolveFor "flow" 3 = .ok single ∧
      (branchedScanned {}).dependencies.Unfolds single.order ["plants", "capacity", "routes"] := by
  intro whole single
  have ran : perform ⟨branched, by decide, {}, .empty, {}⟩ .resolve = (.ok (), whole) := rfl
  have first : FirstScan branched (branchedScanned {}) :=
    @FirstScan.scanned branched ⟨branched, by decide, {}, .empty, {}⟩ (branchedScanned {}) {} {}
      rfl rfl
  have alone : (branchedScanned {}).resolveFor "flow" 3 = .ok single := rfl
  have apart : "flow" ∉ whole.dependencies.closure ["capacity"] := by
    have resolved : whole.dependencies.resolveTables {} ["capacity"] {} =
      .ok ⟨["routes", "capacity"], []⟩ := rfl
    rw [← DependencyMap.resolvedClosure resolved]
    exact show "flow" ∉ ["routes", "capacity"] by decide
  obtain ⟨inOrder, one⟩ := closuresInTurn branched
  obtain ⟨unfolds, last⟩ := inOrder {} _ whole rfl ran
  exact ⟨rfl, ran, unfolds, apart, last ["capacity"] "flow" ["routes"] rfl apart, first, alone,
    (one _ single "flow" 3 first alone).1⟩

end Resolver
end TablePlan
