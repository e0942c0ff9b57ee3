import Mathlib.Data.List.Chain
import TablePlan.Proofs.Order
/-! Names that lead to one another over dependencies. In an order in which dependencies come first
every such way leads backwards, so none of them leads back to where it began. -/
namespace TablePlan.DependencyMap

variable {m : DependencyMap} {limits : Limits} {table name : String} {depth : Nat}
  {order pending tables : List String} {p q : Progress}

def Reads (m : DependencyMap) (table name : String) : Prop := name ∈ m.of table

instance : Decidable (m.Reads table name) := inferInstanceAs (Decidable (name ∈ m.of table))

def Reaches (m : DependencyMap) : String → String → Prop := Relation.TransGen m.Reads

def Cyclic (m : DependencyMap) : Prop := ∃ name, m.Reaches name name

theorem readsAlike {other : DependencyMap} (same : ∀ table, other.of table = m.of table) :
    other.Reads = m.Reads := by
  funext table name
  rw [Reads, Reads, same]

theorem cyclicAlike {other : DependencyMap} (same : ∀ table, other.of table = m.of table) :
    other.Cyclic ↔ m.Cyclic := by
  simp only [Cyclic, Reaches, readsAlike same]

theorem orderedReads (ordered : m.Ordered order) (placed : table ∈ order)
    (reads : m.Reads table name) : name ∈ order ∧ order.idxOf name < order.idxOf table := by
  obtain ⟨before, after, cut, first⟩ := List.eq_append_cons_of_mem placed
  have earlier : name ∈ before := ordered before table after cut name reads
  rw [cut]
  exact ⟨List.mem_append_left _ earlier, earlierIndex earlier first⟩

theorem orderedReaches (ordered : m.Ordered order) (placed : table ∈ order)
    (reaches : m.Reaches table name) :
    name ∈ order ∧ order.idxOf name < order.idxOf table := by
  induction reaches with
  | single reads => exact orderedReads ordered placed reads
  | tail _ reads ih =>
    obtain ⟨between, earlier⟩ := ih
    obtain ⟨last, before⟩ := orderedReads ordered between reads
    exact ⟨last, before.trans earlier⟩

theorem orderedChain {path : List String} (ordered : m.Ordered order) (placed : table ∈ order)
    (chain : (table :: path).IsChain m.Reads) : path.length ≤ order.idxOf table := by
  induction path generalizing table with
  | nil => exact Nat.zero_le _
  | cons next rest ih =>
    obtain ⟨reads, later⟩ := List.isChain_cons_cons.1 chain
    obtain ⟨between, earlier⟩ := orderedReads ordered placed reads
    exact (ih between later).trans_lt earlier

theorem orderedAcyclic (ordered : m.Ordered order)
    (complete : ∀ table name, m.Reads table name → table ∈ order) : ¬ m.Cyclic := by
  rintro ⟨name, back⟩
  obtain ⟨next, reads, _⟩ := Relation.TransGen.head'_iff.1 back
  exact lt_irrefl _ (orderedReaches ordered (complete name next reads) back).2

theorem readsReach {next : String} (reads : m.Reads table next)
    (onward : name = next ∨ m.Reaches next name) : m.Reaches table name := by
  rcases onward with rfl | reaches
  · exact .single reads
  · exact reaches.head reads

theorem walkGathers (walk : Walk m limits table depth pending p (.ok q))
    (inside : name ∈ q.resolved) :
    name ∈ p.resolved ∨ name = table ∨ ∃ due ∈ pending, name = due ∨ m.Reaches due name := by
  generalize ended : Except.ok q = outcome at walk
  induction walk generalizing q name with
  | leave =>
    cases ended
    exact (List.mem_append.1 inside).imp_right fun last => .inl (List.mem_singleton.1 last)
  | known _ _ ih =>
    rcases ih inside ended with old | same | ⟨due, later, onward⟩
    · exact .inl old
    · exact .inr (.inl same)
    · exact .inr (.inr ⟨due, .tail _ later, onward⟩)
  | cycle | tooDeep | fail => cases ended
  | @next _ _ next _ _ _ _ _ _ _ _ _ ihInner ihLater =>
    rcases ihLater inside ended with inner | same | ⟨due, later, onward⟩
    · rcases ihInner inner rfl with old | same | ⟨due, reads, onward⟩
      · exact .inl old
      · exact .inr (.inr ⟨next, .head _, .inl same⟩)
      · exact .inr (.inr ⟨next, .head _, .inr (readsReach reads onward)⟩)
    · exact .inr (.inl same)
    · exact .inr (.inr ⟨due, .tail _ later, onward⟩)

theorem resolveTablesGather (ran : m.resolveTables limits tables p = .ok q)
    (inside : name ∈ q.resolved) :
    name ∈ p.resolved ∨ name ∈ tables ∨ ∃ table ∈ tables, m.Reaches table name := by
  induction tables generalizing p with
  | nil =>
    cases ran
    exact .inl inside
  | cons table rest ih =>
    have later : name ∈ rest ∨ (∃ other ∈ rest, m.Reaches other name) →
        name ∈ table :: rest ∨ ∃ other ∈ table :: rest, m.Reaches other name := by
      rintro (member | ⟨other, member, reaches⟩)
      · exact .inl (.tail _ member)
      · exact .inr ⟨other, .tail _ member, reaches⟩
    unfold resolveTables at ran
    split at ran
    · exact (ih ran).imp_right later
    · obtain ⟨between, first, ran⟩ := bindOk.1 ran
      rcases ih ran with old | added
      · cases resolveTableExact.1 first with
        | known => exact .inl old
        | walk _ _ walk =>
          rcases walkGathers walk old with old | rfl | ⟨due, reads, onward⟩
          · exact .inl old
          · exact .inr (.inl (.head _))
          · exact .inr (.inr ⟨table, .head _, readsReach reads onward⟩)
      · exact .inr (later added)

end TablePlan.DependencyMap
