import Mathlib.Order.Bounds.Basic
import Mathlib.Order.MinMax
import TablePlan.Clause.Basic
/-! How deep a clause nests, where only an object directly under an object counts, and whether a
list is an item of a list anywhere in it. -/
namespace TablePlan.Clause

variable {key : String}

def step : Clause → Nat
  | .object _ => 1
  | .literal _ | .list _ => 0

mutual

def nest : Clause → Nat
  | .literal _ => 0
  | .list items => nestOfItems items
  | .object entries => nestOfEntries entries

def nestOfItems : List Clause → Nat
  | [] => 0
  | item :: rest => max item.nest (nestOfItems rest)

def nestOfEntries : List (String × Clause) → Nat
  | [] => 0
  | (_, predicate) :: rest => max (predicate.step + predicate.nest) (nestOfEntries rest)

end

/-- A way down to a node, with the number of its steps from an object directly to an object. -/
inductive Descent : Clause → Nat → Clause → Prop where
  | here {node : Clause} : Descent node 0 node
  | item {items : List Clause} {item node : Clause} {steps : Nat} (member : item ∈ items)
      (below : Descent item steps node) : Descent (.list items) steps node
  | entry {entries : List (String × Clause)} {key : String} {predicate node : Clause} {steps : Nat}
      (member : (key, predicate) ∈ entries) (below : Descent predicate steps node) :
      Descent (.object entries) (predicate.step + steps) node

theorem itemNests {items : List Clause} {item : Clause} (member : item ∈ items) :
    item.nest ≤ nestOfItems items := by
  induction items with
  | nil => cases member
  | cons head rest ih =>
    rw [nestOfItems]
    rcases List.mem_cons.1 member with rfl | later
    · exact le_max_left _ _
    · exact (ih later).trans (le_max_right _ _)

theorem entryNests {entries : List (String × Clause)} {predicate : Clause}
    (member : (key, predicate) ∈ entries) :
    predicate.step + predicate.nest ≤ nestOfEntries entries := by
  induction entries with
  | nil => cases member
  | cons head rest ih =>
    obtain ⟨name, first⟩ := head
    rw [nestOfEntries]
    rcases List.mem_cons.1 member with same | later
    · cases same
      exact le_max_left _ _
    · exact (ih later).trans (le_max_right _ _)

theorem descentNests {query node : Clause} {steps : Nat} (descent : Descent query steps node) :
    steps ≤ query.nest := by
  induction descent with
  | here => exact Nat.zero_le _
  | item member _ ih => exact ih.trans (itemNests member)
  | entry member _ ih => exact (Nat.add_le_add_left ih _).trans (entryNests member)

theorem Descent.laterItem {item node : Clause} {rest : List Clause} {steps : Nat}
    (below : Descent (.list rest) steps node) :
    ∃ node, Descent (.list (item :: rest)) steps node := by
  cases below with
  | here => exact ⟨_, .here⟩
  | item member below => exact ⟨node, .item (.tail _ member) below⟩

theorem Descent.laterEntry {entry : String × Clause} {node : Clause}
    {rest : List (String × Clause)} {steps : Nat} (below : Descent (.object rest) steps node) :
    ∃ node, Descent (.object (entry :: rest)) steps node := by
  cases below with
  | here => exact ⟨_, .here⟩
  | entry member below => exact ⟨node, .entry (.tail _ member) below⟩

mutual

theorem nestReached : (query : Clause) → ∃ node, Descent query query.nest node
  | .literal _ => ⟨_, .here⟩
  | .list items => nestOfItemsReached items
  | .object entries => nestOfEntriesReached entries

theorem nestOfItemsReached :
    (items : List Clause) → ∃ node, Descent (.list items) (nestOfItems items) node
  | [] => ⟨_, .here⟩
  | item :: rest => by
    rw [nestOfItems]
    rcases max_choice item.nest (nestOfItems rest) with first | later
    · obtain ⟨node, below⟩ := nestReached item
      rw [first]
      exact ⟨node, .item (.head _) below⟩
    · obtain ⟨node, below⟩ := nestOfItemsReached rest
      rw [later]
      exact below.laterItem

theorem nestOfEntriesReached : (entries : List (String × Clause)) →
    ∃ node, Descent (.object entries) (nestOfEntries entries) node
  | [] => ⟨_, .here⟩
  | (key, predicate) :: rest => by
    rw [nestOfEntries]
    rcases max_choice (predicate.step + predicate.nest) (nestOfEntries rest) with first | later
    · obtain ⟨node, below⟩ := nestReached predicate
      rw [first]
      exact ⟨node, .entry (.head _) below⟩
    · obtain ⟨node, below⟩ := nestOfEntriesReached rest
      rw [later]
      exact below.laterEntry

end

theorem nestGreatest (query : Clause) :
    IsGreatest { steps | ∃ node, Descent query steps node } query.nest :=
  ⟨nestReached query, fun _ ⟨_, descent⟩ => descentNests descent⟩

def Contains (query node : Clause) : Prop := ∃ steps, Descent query steps node

section Contains

variable {query item predicate node other : Clause} {items : List Clause}
  {entries : List (String × Clause)}

theorem Contains.refl (query : Clause) : query.Contains query := ⟨0, .here⟩

theorem Contains.ofItem (member : item ∈ items) (inside : item.Contains node) :
    (list items).Contains node := by
  obtain ⟨_, below⟩ := inside
  exact ⟨_, .item member below⟩

theorem Contains.ofEntry (member : (key, predicate) ∈ entries)
    (inside : predicate.Contains node) : (object entries).Contains node := by
  obtain ⟨_, below⟩ := inside
  exact ⟨_, .entry member below⟩

theorem Contains.trans (upper : query.Contains node) (lower : node.Contains other) :
    query.Contains other := by
  obtain ⟨_, upper⟩ := upper
  induction upper with
  | here => exact lower
  | item member _ ih => exact .ofItem member (ih lower)
  | entry member _ ih => exact .ofEntry member (ih lower)

theorem literalContains {text : String} :
    (literal text).Contains node ↔ literal text = node := by
  constructor
  · rintro ⟨_, descent⟩
    cases descent
    rfl
  · rintro rfl
    exact .refl _

theorem listContains : (list items).Contains node ↔
    list items = node ∨ ∃ item ∈ items, item.Contains node := by
  constructor
  · rintro ⟨_, descent⟩
    cases descent with
    | here => exact .inl rfl
    | item member below => exact .inr ⟨_, member, _, below⟩
  · rintro (rfl | ⟨item, member, inside⟩)
    · exact .refl _
    · exact .ofItem member inside

theorem objectContains : (object entries).Contains node ↔
    object entries = node ∨ ∃ entry ∈ entries, entry.2.Contains node := by
  constructor
  · rintro ⟨_, descent⟩
    cases descent with
    | here => exact .inl rfl
    | entry member below => exact .inr ⟨_, member, _, below⟩
  · rintro (rfl | ⟨entry, member, inside⟩)
    · exact .refl _
    · exact .ofEntry member inside

end Contains

def Crowded (query : Clause) : Prop :=
  ∃ steps items inner, Descent query steps (.list items) ∧ .list inner ∈ items

theorem literalUncrowded {text : String} : ¬ Crowded (.literal text) := by
  rintro ⟨_, _, _, descent, _⟩
  cases descent

theorem crowdedEntries {entries : List (String × Clause)} :
    Crowded (.object entries) ↔ ∃ entry ∈ entries, entry.2.Crowded := by
  constructor
  · rintro ⟨_, items, inner, descent, crowd⟩
    cases descent with
    | entry member below => exact ⟨_, member, _, items, inner, below, crowd⟩
  · rintro ⟨⟨key, predicate⟩, member, steps, items, inner, below, crowd⟩
    exact ⟨_, items, inner, .entry member below, crowd⟩

theorem crowdedItems {items : List Clause} : Crowded (.list items) ↔
    (∃ inner, .list inner ∈ items) ∨ ∃ item ∈ items, item.Crowded := by
  constructor
  · rintro ⟨_, found, inner, descent, crowd⟩
    cases descent with
    | here => exact .inl ⟨inner, crowd⟩
    | item member below => exact .inr ⟨_, member, _, found, inner, below, crowd⟩
  · rintro (⟨inner, crowd⟩ | ⟨item, member, steps, found, inner, below, crowd⟩)
    · exact ⟨_, items, inner, .here, crowd⟩
    · exact ⟨_, found, inner, .item member below, crowd⟩

theorem crowdedEntriesCons {predicate : Clause} {rest : List (String × Clause)} :
    Crowded (.object ((key, predicate) :: rest)) ↔ predicate.Crowded ∨ Crowded (.object rest) := by
  simp [crowdedEntries]

def CrowdedItem (item : Clause) : Prop := (∃ inner, item = .list inner) ∨ item.Crowded

theorem crowdedItemsCons {item : Clause} {rest : List Clause} :
    Crowded (.list (item :: rest)) ↔ item.CrowdedItem ∨ Crowded (.list rest) := by
  simp [crowdedItems, CrowdedItem, exists_or, eq_comm, or_assoc, or_left_comm]

end TablePlan.Clause
