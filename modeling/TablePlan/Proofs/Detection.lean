import Mathlib.Data.List.Sort
import TablePlan.CommandLine.Run
import TablePlan.Proofs.Lookup
import TablePlan.Proofs.Acceptance
import TablePlan.Proofs.Components
/-! The listed cycles of a graph, and that a resolution meets a cycle only where one is listed and
succeeds only where none is. A document with a listed cycle is refused on the command line, whose
error stream holds the two reports and, as the log is turned off, nothing else. -/
namespace TablePlan

namespace Graph

variable {g : Graph} {node other : String} {component cycle : List String}

theorem insertNameExact (name : String) (names : List String) :
    insertName name names = names.orderedInsert (· ≤ ·) name := by
  induction names with
  | nil => rfl
  | cons first rest ih => rw [insertName, List.orderedInsert_cons, ih]

theorem sortNamesExact (names : List String) : sortNames names = names.insertionSort (· ≤ ·) := by
  induction names with
  | nil => rfl
  | cons name rest ih =>
    rw [List.insertionSort_cons, ← ih, ← insertNameExact]
    rfl

theorem memSortNames {names : List String} : node ∈ sortNames names ↔ node ∈ names := by
  rw [sortNamesExact, List.mem_insertionSort]

theorem cycleComponent : cycle ∈ g.cycles ↔
    ∃ component ∈ g.components, g.isCycle component = true ∧ sortNames component = cycle := by
  simp [cycles, and_assoc]

theorem hasEdgeExact : g.hasEdge node other = true ↔ g.Joins node other := by
  rw [Joins, nextExact, hasEdge, List.contains_iff_mem]

theorem componentDistinct (listed : component ∈ g.components) : component.Nodup := by
  have all := (componentsExact g).2.nodup_iff.2 g.distinct
  exact (List.nodup_flatten.1 all).1 component listed

theorem leadsAround (apart : node ≠ other) (there : g.Leads node other)
    (back : g.Leads other node) : Relation.TransGen g.Joins node node := by
  rcases Relation.reflTransGen_iff_eq_or_transGen.1 there with same | onward
  · exact absurd same.symm apart
  · exact onward.trans_left back

theorem isCycleExact (listed : component ∈ g.components) (inside : node ∈ component) :
    g.isCycle component = true ↔ Relation.TransGen g.Joins node node := by
  have exact := (componentsExact g).1.exact component listed
  have distinct := componentDistinct listed
  match component, inside with
  | [only], inside =>
    cases List.mem_singleton.1 inside
    rw [isCycle, hasEdgeExact]
    refine ⟨.single, fun back => ?_⟩
    obtain ⟨next, joins, home⟩ := Relation.TransGen.head'_iff.1 back
    have same := (exact node inside next).2 ⟨.single joins, home⟩
    exact List.mem_singleton.1 same ▸ joins
  | one :: two :: rest, inside =>
    refine ⟨fun _ => ?_, fun _ => rfl⟩
    obtain ⟨another, within, apart⟩ : ∃ another ∈ one :: two :: rest, node ≠ another := by
      by_cases same : node = one
      · refine ⟨two, by simp, ?_⟩
        rintro rfl
        exact (List.nodup_cons.1 distinct).1 (same ▸ .head _)
      · exact ⟨one, .head _, same⟩
    obtain ⟨there, back⟩ := (exact node inside another).1 within
    exact leadsAround apart there back

theorem cycleExact (listed : cycle ∈ g.cycles) (inside : node ∈ cycle) :
    other ∈ cycle ↔ g.Leads node other ∧ g.Leads other node := by
  obtain ⟨component, member, _, rfl⟩ := cycleComponent.1 listed
  rw [memSortNames] at inside ⊢
  exact (componentsExact g).1.exact component member node inside other

theorem cycleFilled (listed : cycle ∈ g.cycles) : ∃ node, node ∈ cycle := by
  obtain ⟨component, member, _, rfl⟩ := cycleComponent.1 listed
  obtain ⟨node, inside⟩ := List.exists_mem_of_ne_nil _ ((componentsExact g).1.filled _ member)
  exact ⟨node, memSortNames.2 inside⟩

theorem inCycleExact :
    (∃ cycle ∈ g.cycles, node ∈ cycle) ↔ Relation.TransGen g.Joins node node := by
  constructor
  · rintro ⟨cycle, listed, inside⟩
    obtain ⟨component, member, circular, rfl⟩ := cycleComponent.1 listed
    exact (isCycleExact member (memSortNames.1 inside)).1 circular
  · intro back
    obtain ⟨last, _, joins⟩ := Relation.TransGen.tail'_iff.1 back
    have known := (componentsExact g).2.symm.subset (nextKnown joins)
    obtain ⟨component, member, inside⟩ := List.mem_flatten.1 known
    exact ⟨sortNames component,
      cycleComponent.2 ⟨component, member, (isCycleExact member inside).2 back, rfl⟩,
      memSortNames.2 inside⟩

end Graph

namespace DependencyMap

variable {m : DependencyMap} {table name : String}

theorem graphJoins (m : DependencyMap) : (Graph.ofDependencies m).Joins = m.Reads := by
  funext table name
  refine propext ?_
  rw [Graph.Joins, Graph.nextExact, Reads, memOf]
  constructor
  · intro edge
    obtain ⟨entry, held, read⟩ := List.mem_flatMap.1 edge
    obtain ⟨other, inside, same⟩ := List.mem_map.1 read
    cases same
    exact ⟨entry.2, held, inside⟩
  · rintro ⟨names, held, inside⟩
    exact List.mem_flatMap.2 ⟨(table, names), held, List.mem_map.2 ⟨name, inside, rfl⟩⟩

theorem inCycleReaches : (∃ cycle ∈ (Graph.ofDependencies m).cycles, name ∈ cycle) ↔
    m.Reaches name name := by
  rw [Graph.inCycleExact, graphJoins, Reaches]

theorem cyclesListed : (Graph.ofDependencies m).cycles ≠ [] ↔ m.Cyclic := by
  constructor
  · intro filled
    obtain ⟨cycle, listed⟩ := List.exists_mem_of_ne_nil _ filled
    obtain ⟨name, inside⟩ := Graph.cycleFilled listed
    exact ⟨name, inCycleReaches.1 ⟨cycle, listed, inside⟩⟩
  · rintro ⟨name, back⟩
    obtain ⟨cycle, listed, _⟩ := inCycleReaches.2 back
    exact List.ne_nil_of_mem listed

end DependencyMap

namespace Resolver

variable {tables : List (String × Option Clause)} {r : Resolver} {limits : Limits} {fault : Fault}

def cycles (r : Resolver) : List (List String) := (Graph.ofDependencies r.dependencies).cycles

theorem FirstScan.cyclesRefuse (first : FirstScan tables r) (listed : r.cycles ≠ []) :
    ∃ fault, r.resolveAll = .error fault := by
  cases ran : r.resolveAll with
  | ok next => exact absurd (DependencyMap.cyclesListed.1 listed) (first.resolvedAcyclic ran)
  | error fault => exact ⟨fault, rfl⟩

theorem FirstScan.noneCircular (first : FirstScan tables r) (none : r.cycles = [])
    (ran : r.resolveAll = .error fault) : fault.isCircular = false := by
  obtain ⟨root, known, stopped⟩ := first.stopped ran
  refine Bool.eq_false_iff.2 fun circular => ?_
  exact DependencyMap.cyclesListed.2 (stopped.cyclic circular) none

theorem FirstScan.reportedListed {table name : String} {cycle : List String}
    (first : FirstScan tables r) (ran : r.resolveAll = .error (.circular table name cycle)) :
    ∃ listed ∈ r.cycles, ∀ one ∈ cycle, one ∈ listed := by
  obtain ⟨root, known, stopped⟩ := first.stopped ran
  obtain ⟨closing, round⟩ := stopped.round
  obtain ⟨listed, member, inside⟩ :=
    DependencyMap.inCycleReaches.2 (round name closing name closing)
  refine ⟨listed, member, fun one reported => (Graph.cycleExact member inside).2 ?_⟩
  rw [Graph.Leads, DependencyMap.graphJoins]
  exact ⟨(round name closing one reported).to_reflTransGen,
    (round one reported name closing).to_reflTransGen⟩

theorem FirstScan.ofDocument {d : Document} (ran : d.scanned limits = .ok r) :
    FirstScan (d.catalog.tables.map fun t => (t.name, t.query?)) r :=
  .scanned (ofTablesExact.2 ⟨(d.catalog.resolver limits).distinct, rfl⟩) ran

theorem checkRefuses (file : String) (d : Document) (listed : (d.check limits).cycles ≠ []) :
    ∃ fault : Fault, CommandLine.Command.check.answer limits file d =
      { code := 1
        stdout := ""
        stderr := cyclesReport (d.check limits).cycles ++
          ("Error: " ++ fault.message ++ "\n") } := by
  rw [CommandLine.Command.answer]
  unfold Document.check at listed ⊢
  cases ran : d.scanned limits with
  | error fault => simp [ran] at listed
  | ok r =>
    simp only [ran] at listed ⊢
    obtain ⟨fault, refused⟩ := (FirstScan.ofDocument ran).cyclesRefuse listed
    exact ⟨fault, by rw [refused]; rfl⟩

theorem detectorsAgree (first : FirstScan tables r) :
    (r.cycles ≠ [] ↔ r.dependencies.Cyclic) ∧
      (r.cycles ≠ [] → ∀ limits, ∃ fault, resolveAll { r with limits } = .error fault) ∧
      (r.cycles = [] → ∀ limits fault, resolveAll { r with limits } = .error fault →
        fault.isCircular = false) ∧
      (∀ limits table name cycle,
        resolveAll { r with limits } = .error (.circular table name cycle) →
        ∃ listed ∈ r.cycles, ∀ one ∈ cycle, one ∈ listed) ∧
      ∀ limits file (d : Document), (d.check limits).cycles ≠ [] →
        ∃ fault : Fault, CommandLine.Command.check.answer limits file d =
          { code := 1
            stdout := ""
            stderr := cyclesReport (d.check limits).cycles ++
              ("Error: " ++ fault.message ++ "\n") } := by
  refine ⟨DependencyMap.cyclesListed, fun listed limits => ?_, fun none limits fault ran => ?_,
    fun limits table name cycle ran => ?_, fun limits file d => checkRefuses file d⟩
  · exact (first.limited limits).cyclesRefuse listed
  · exact (first.limited limits).noneCircular none ran
  · exact (first.limited limits).reportedListed ran

def loopedDocument : Document where
  dialect := none
  modules := []
  catalog := .ofTables (looped.map fun (name, query?) =>
    { name, tableClass := .data, kind := "input", body := (query?.map .query).getD .empty })
    (by decide)

theorem loopedDetected :
    FirstScan looped (loopedScanned ⟨3⟩) ∧
      (loopedScanned ⟨3⟩).cycles = [["depots", "routes"]] ∧
      (loopedScanned ⟨3⟩).dependencies.Cyclic ∧
      (∀ limits, ∃ fault, (loopedScanned limits).resolveAll = .error fault) ∧
      (loopedScanned ⟨3⟩).resolveAll =
        .error (.circular "depots" "routes" ["routes", "depots", "routes"]) ∧
      (∃ listed ∈ (loopedScanned ⟨3⟩).cycles, ∀ one ∈ ["routes", "depots", "routes"],
        one ∈ listed) ∧
      (∃ fault : Fault, CommandLine.Command.check.answer ⟨1⟩ "flows.json" loopedDocument =
        { code := 1
          stdout := ""
          stderr := "Dependency cycles:\n  - depots, routes\n" ++
            ("Error: " ++ fault.message ++ "\n") }) ∧
      FirstScan shipping (shippingScanned ⟨0⟩) ∧ (shippingScanned ⟨0⟩).cycles = [] ∧
      ∃ fault, (shippingScanned ⟨0⟩).resolveAll = .error fault ∧ fault.isCircular = false := by
  obtain ⟨cyclic, refused, _, reported, checked⟩ := detectorsAgree (loopedFirst ⟨3⟩)
  have listed : (loopedScanned ⟨3⟩).cycles = [["depots", "routes"]] := by decide
  have filled : (loopedScanned ⟨3⟩).cycles ≠ [] := by simp [listed]
  have met : (loopedScanned ⟨3⟩).resolveAll =
      .error (.circular "depots" "routes" ["routes", "depots", "routes"]) := rfl
  have inDocument : (loopedDocument.check ⟨1⟩).cycles = [["depots", "routes"]] := by decide
  obtain ⟨fault, printed⟩ := checked ⟨1⟩ "flows.json" loopedDocument (by simp [inDocument])
  obtain ⟨_, _, noneCircular, _⟩ := detectorsAgree (shippingFirst ⟨0⟩)
  have clear : (shippingScanned ⟨0⟩).cycles = [] := by decide
  obtain ⟨deep, stopped⟩ : ∃ fault, (shippingScanned ⟨0⟩).resolveAll = .error fault := ⟨_, rfl⟩
  rw [inDocument] at printed
  exact ⟨loopedFirst ⟨3⟩, listed, cyclic.1 filled, refused filled, met,
    reported ⟨3⟩ "depots" "routes" _ met, ⟨fault, printed⟩, shippingFirst ⟨0⟩, clear, deep, stopped,
    noneCircular clear ⟨0⟩ deep stopped⟩

end Resolver
end TablePlan
