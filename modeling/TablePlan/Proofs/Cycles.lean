import Mathlib.Data.String.Basic
import TablePlan.Proofs.Detection
/-! The listed cycles are the classes of names that reach one another, and the list puts each class
behind all others that it reaches. -/
namespace TablePlan

namespace Graph

variable {g : Graph} {node other : String} {cycle first second : List String} {i j : Nat}
  {components before after : List (List String)}

theorem Listed.front (listed : g.Listed (before ++ after)) : g.Listed before where
  filled := fun component member => listed.filled component (List.mem_append_left _ member)
  exact := fun component member => listed.exact component (List.mem_append_left _ member)
  ordered := fun front component rest cut =>
    listed.ordered front component (rest ++ after) (by simp [cut])

theorem Listed.onward (listed : g.Listed components) (distinct : components.flatten.Nodup) :
    components.Pairwise fun earlier later =>
      ∀ node ∈ earlier, ∀ other ∈ later, ¬ g.Leads node other := by
  refine pairwiseOfCuts fun before component after cut later member => ?_
  intro node inside other within leads
  have whole : components = (before ++ [component]) ++ after := by simp [cut]
  rw [whole] at listed distinct
  have closed : other ∈ (before ++ [component]).flatten :=
    listed.front.leads (List.mem_flatten.2 ⟨component, by simp, inside⟩) leads
  rw [List.flatten_append] at distinct
  exact (List.nodup_append.1 distinct).2.2 other closed other
    (List.mem_flatten.2 ⟨later, member, within⟩) rfl

theorem cyclesOnward (g : Graph) : g.cycles.Pairwise fun earlier later =>
    ∀ node ∈ earlier, ∀ other ∈ later, ¬ g.Leads node other := by
  obtain ⟨listed, every⟩ := componentsExact g
  have ordered := listed.onward (every.nodup_iff.2 g.distinct)
  rw [cycles, List.pairwise_map]
  simpa [memSortNames] using ordered.filter g.isCycle

theorem listedBefore (here : g.cycles[i]? = some first) (there : g.cycles[j]? = some second)
    (inside : node ∈ first) (within : other ∈ second) (leads : g.Leads node other) : j ≤ i := by
  obtain ⟨low, rfl⟩ := List.getElem?_eq_some_iff.1 here
  obtain ⟨high, rfl⟩ := List.getElem?_eq_some_iff.1 there
  by_contra later
  have ordered := List.pairwise_iff_getElem.1 (cyclesOnward g) i j low high (by omega)
  exact ordered node inside other within leads

theorem codePointsLess {one two : String} (less : one < two) :
    one.toList.map Char.toNat < two.toList.map Char.toNat :=
  List.map_lt (fun _ _ below => below) (String.lt_iff.1 less)

theorem cycleSorted (listed : cycle ∈ g.cycles) : cycle.Pairwise (· < ·) := by
  obtain ⟨component, member, _, rfl⟩ := cycleComponent.1 listed
  have distinct : (sortNames component).Nodup := by
    rw [sortNamesExact]
    exact (List.perm_insertionSort _ _).nodup_iff.2 (componentDistinct member)
  have sorted : (sortNames component).Pairwise (· ≤ ·) := by
    rw [sortNamesExact]
    exact List.pairwise_insertionSort _ _
  exact (sorted.and distinct).imp fun both => lt_of_le_of_ne both.1 both.2

end Graph

namespace DependencyMap

variable {m : DependencyMap} {table name : String} {cycle : List String}

structure CycleClasses (m : DependencyMap) (cycles : List (List String)) : Prop where
  filled : ∀ cycle ∈ cycles, cycle ≠ []
  cyclic : ∀ name, (∃ cycle ∈ cycles, name ∈ cycle) ↔ m.Reaches name name
  together : ∀ table name, (∃ cycle ∈ cycles, table ∈ cycle ∧ name ∈ cycle) ↔
    m.Reaches table name ∧ m.Reaches name table
  apart : ∀ (i j : Nat) (first second : List String), cycles[i]? = some first →
    cycles[j]? = some second → ∀ name ∈ first, name ∈ second → i = j
  sorted : ∀ cycle ∈ cycles, cycle.Pairwise fun name other =>
    name.toList.map Char.toNat < other.toList.map Char.toNat
  ordered : ∀ (i j : Nat) (first second : List String), cycles[i]? = some first →
    cycles[j]? = some second → i ≠ j →
    (∃ table ∈ first, ∃ name ∈ second, m.Reaches table name) → j < i

theorem graphLeads (m : DependencyMap) :
    (Graph.ofDependencies m).Leads = Relation.ReflTransGen m.Reads := by
  funext table name
  rw [Graph.Leads, graphJoins]

theorem sameCycle : (∃ cycle ∈ (Graph.ofDependencies m).cycles, table ∈ cycle ∧ name ∈ cycle) ↔
    m.Reaches table name ∧ m.Reaches name table := by
  constructor
  · intro ⟨cycle, listed, first, second⟩
    obtain ⟨there, back⟩ := (Graph.cycleExact listed first).1 second
    rw [graphLeads] at there back
    have around : m.Reaches table table := inCycleReaches.1 ⟨cycle, listed, first⟩
    exact ⟨around.trans_left there, .trans_right back around⟩
  · intro ⟨there, back⟩
    obtain ⟨cycle, listed, first⟩ := inCycleReaches.2 (there.trans back)
    refine ⟨cycle, listed, first, (Graph.cycleExact listed first).2 ?_⟩
    rw [graphLeads]
    exact ⟨there.to_reflTransGen, back.to_reflTransGen⟩

theorem cyclesClasses (m : DependencyMap) : m.CycleClasses (Graph.ofDependencies m).cycles where
  filled := by
    intro cycle listed empty
    obtain ⟨name, inside⟩ := Graph.cycleFilled listed
    simp [empty] at inside
  cyclic _ := inCycleReaches
  together _ _ := sameCycle
  apart := by
    intro i j first second here there name inside within
    have forward := Graph.listedBefore here there inside within .refl
    have backward := Graph.listedBefore there here within inside .refl
    omega
  sorted := by
    intro cycle listed
    exact (Graph.cycleSorted listed).imp Graph.codePointsLess
  ordered := by
    intro i j first second here there other ⟨table, inside, name, within, reaches⟩
    have leads : (Graph.ofDependencies m).Leads table name := by
      rw [graphLeads]
      exact reaches.to_reflTransGen
    have before := Graph.listedBefore here there inside within leads
    omega

end DependencyMap
end TablePlan
