import Mathlib.Data.List.Perm.Basic
import TablePlan.Proofs.Agreement
import TablePlan.Proofs.Fields
/-! The schema of a query, said of what the query selects: the first SELECT has to list literals
that name a field each, no two the same, and the schema has these fields in the order of the list.
In another order the list is as good, and gives a schema that agrees with the first. -/
namespace TablePlan

variable {query other predicate : Clause} {entries : List (String × Clause)} {items : List Clause}
  {texts : List String} {fields : List (String × FieldType)} {s : Schema}

namespace Clause

inductive FirstSelect : Clause → Clause → Prop where
  | intro {before after : List (String × Clause)} {key : String} {predicate : Clause}
      (named : directiveOf key = "SELECT")
      (first : ∀ entry ∈ before, directiveOf entry.1 ≠ "SELECT") :
      FirstSelect (.object (before ++ (key, predicate) :: after)) predicate

/-- The texts of the first SELECT, which is a list of literals or a literal that stands alone. -/
inductive Lists (query : Clause) : List String → Prop where
  | alone {text : String} (select : FirstSelect query (.literal text)) : Lists query [text]
  | listed {texts : List String} (select : FirstSelect query (.list (texts.map .literal))) :
      Lists query texts

inductive Reordered : Clause → Clause → Prop where
  | intro {before after : List (String × Clause)} {key : String} {items others : List Clause}
      (named : directiveOf key = "SELECT")
      (first : ∀ entry ∈ before, directiveOf entry.1 ≠ "SELECT") (same : items.Perm others) :
      Reordered (.object (before ++ (key, .list items) :: after))
        (.object (before ++ (key, .list others) :: after))

theorem Reordered.symm (reordered : Reordered query other) : Reordered other query := by
  cases reordered with
  | intro named first same => exact .intro named first same.symm

theorem selectPast {before : List (String × Clause)}
    (first : ∀ entry ∈ before, directiveOf entry.1 ≠ "SELECT") :
    select? (.object (before ++ entries)) = select? (.object entries) := by
  induction before with
  | nil => rfl
  | cons entry rest ih =>
    obtain ⟨here, later⟩ := List.forall_mem_cons.1 first
    rw [List.cons_append, ← ih later]
    exact if_neg here

theorem selectNext {key : String} : select? (.object ((key, predicate) :: entries)) =
    if directiveOf key = "SELECT" then some predicate else select? (.object entries) := rfl

theorem selectCut (found : select? (.object entries) = some predicate) :
    ∃ before key after, entries = before ++ (key, predicate) :: after ∧
      directiveOf key = "SELECT" ∧ ∀ entry ∈ before, directiveOf entry.1 ≠ "SELECT" := by
  induction entries with
  | nil => cases found
  | cons entry rest ih =>
    obtain ⟨key, value⟩ := entry
    rw [selectNext] at found
    split at found
    · rename_i named
      cases found
      exact ⟨[], key, rest, rfl, named, nofun⟩
    · rename_i other
      obtain ⟨before, select, after, rfl, named, first⟩ := ih found
      exact ⟨(key, value) :: before, select, after, rfl, named,
        List.forall_mem_cons.2 ⟨other, first⟩⟩

theorem selectExact : query.select? = some predicate ↔ FirstSelect query predicate := by
  constructor
  · intro found
    cases query with
    | literal | list => cases found
    | object entries =>
      obtain ⟨before, key, after, rfl, named, first⟩ := selectCut found
      exact .intro named first
  · rintro ⟨named, first⟩
    rw [selectPast first, selectNext, if_pos named]

theorem listsExact : query.Lists texts ↔ query.selectedItems = some (texts.map .literal) := by
  unfold selectedItems
  constructor
  · rintro (select | select)
    · rw [selectExact.2 select]
      rfl
    · rw [selectExact.2 select]
  · intro found
    split at found
    · cases found
    · cases found
    · rename_i items select
      cases found
      exact .listed (selectExact.1 select)
    · rename_i item select
      obtain ⟨text, rest, rfl, here, none⟩ := List.map_eq_cons_iff.1 (Option.some.inj found).symm
      cases List.map_eq_nil_iff.1 none
      cases here
      exact .alone (selectExact.1 select)

theorem reorderedItems (reordered : Reordered query other) : ∃ items others,
    query.selectedItems = some items ∧ other.selectedItems = some others ∧ items.Perm others := by
  cases reordered with
  | @intro before after key items others named first same =>
    have select := selectExact.2 (@FirstSelect.intro before after key (.list items) named first)
    have again := selectExact.2 (@FirstSelect.intro before after key (.list others) named first)
    refine ⟨items, others, ?_, ?_, same⟩
    · rw [selectedItems, select]
    · rw [selectedItems, again]

end Clause

namespace Schema

def Annotated (text : String) (field : String × FieldType) : Prop :=
  Annotation.read text = .ok field

instance {text : String} {field : String × FieldType} : Decidable (Annotated text field) :=
  inferInstanceAs (Decidable (_ = _))

theorem selectedTexts : List.Forall₂ Selected items fields ↔
    ∃ texts, items = texts.map .literal ∧ List.Forall₂ Annotated texts fields := by
  constructor
  · intro each
    induction each with
    | nil => exact ⟨[], rfl, .nil⟩
    | cons head _ ih =>
      obtain ⟨text, rfl, read⟩ := head
      obtain ⟨texts, rfl, later⟩ := ih
      exact ⟨text :: texts, rfl, .cons read later⟩
  · rintro ⟨texts, rfl, each⟩
    rw [List.forall₂_map_left_iff]
    exact each.imp fun text _ read => ⟨text, rfl, read⟩

theorem ofQueryLists : ofQuery query = .ok s ↔
    ∃ texts, query.Lists texts ∧ List.Forall₂ Annotated texts s.fields := by
  simp only [ofQueryExact, selectedTexts, Clause.listsExact]
  constructor
  · rintro ⟨_, listed, texts, rfl, each⟩
    exact ⟨texts, listed, each⟩
  · rintro ⟨texts, listed, each⟩
    exact ⟨_, listed, texts, rfl, each⟩

theorem reorderedSchema (reordered : query.Reordered other) (ran : ofQuery query = .ok s) :
    ∃ t, ofQuery other = .ok t ∧ s.fields.Perm t.fields := by
  obtain ⟨items, others, first, again, same⟩ := Clause.reorderedItems reordered
  obtain ⟨_, listed, each⟩ := ofQueryExact.1 ran
  cases first.symm.trans listed
  obtain ⟨fields, each, moved⟩ := List.perm_comp_forall₂ same.symm each
  have distinct : (Keyed.names fields).Nodup := ((moved.map Prod.fst).nodup_iff).2 s.distinct
  exact ⟨⟨fields, distinct⟩, ofQueryExact.2 ⟨others, again, each⟩, moved.symm⟩

theorem selectionExact (query : Clause) :
    ((∃ s, ofQuery query = .ok s) ↔ ∃ texts fields, query.Lists texts ∧
        List.Forall₂ Annotated texts fields ∧ (Keyed.names fields).Nodup) ∧
      (∀ s, ofQuery query = .ok s ↔
        ∃ texts, query.Lists texts ∧ List.Forall₂ Annotated texts s.fields) ∧
      (∀ other, query.Reordered other →
        ((∃ s, ofQuery query = .ok s) ↔ ∃ t, ofQuery other = .ok t) ∧
          ∀ s t, ofQuery query = .ok s → ofQuery other = .ok t →
            s.agrees t = true ∧ t.agrees s = true) ∧
      FailsByFormat (ofQuery query) := by
  refine ⟨⟨?_, ?_⟩, fun s => ofQueryLists, fun other reordered => ⟨⟨?_, ?_⟩, ?_⟩,
    ofQueryFails query⟩
  · rintro ⟨s, ran⟩
    obtain ⟨texts, lists, each⟩ := ofQueryLists.1 ran
    exact ⟨texts, s.fields, lists, each, s.distinct⟩
  · rintro ⟨texts, fields, lists, each, distinct⟩
    exact ⟨⟨fields, distinct⟩, ofQueryLists.2 ⟨texts, lists, each⟩⟩
  · rintro ⟨s, ran⟩
    obtain ⟨t, again, _⟩ := reorderedSchema reordered ran
    exact ⟨t, again⟩
  · rintro ⟨t, ran⟩
    obtain ⟨s, again, _⟩ := reorderedSchema reordered.symm ran
    exact ⟨s, again⟩
  · intro s t ran again
    obtain ⟨_, found, same⟩ := reorderedSchema reordered ran
    cases again.symm.trans found
    exact ⟨agreesExact.2 same, agreesExact.2 same.symm⟩

def twice (items : List String) : Clause :=
  .object [("FROM", .literal "routes"), ("SELECT#1", .list (items.map .literal)),
    ("SELECT", .list [.object []])]

theorem twiceFirst (items : List String) :
    (twice items).FirstSelect (.list (items.map .literal)) :=
  @Clause.FirstSelect.intro [("FROM", .literal "routes")] _ "SELECT#1" _ (by decide)
    (List.forall_mem_singleton.2 (by decide))

theorem twiceSelected :
    let name := "'ship' AS Name -- STRING"
    let cap := "capacity AS Cap -- DOUBLE"
    let listed : Schema := ⟨[("Name", .string), ("Cap", .double)], by decide⟩
    let turned : Schema := ⟨[("Cap", .double), ("Name", .string)], by decide⟩
    (twice [name, cap]).Reordered (twice [cap, name]) ∧
      ofQuery (twice [name, cap]) = .ok listed ∧ ofQuery (twice [cap, name]) = .ok turned ∧
      listed.agrees turned = true := by
  intro name cap listed turned
  have reordered : (twice [name, cap]).Reordered (twice [cap, name]) :=
    @Clause.Reordered.intro [("FROM", .literal "routes")] _ "SELECT#1" _ _ (by decide)
      (List.forall_mem_singleton.2 (by decide)) (.swap _ _ _)
  have named : Annotated name ("Name", .string) := by decide +kernel
  have capped : Annotated cap ("Cap", .double) := by decide +kernel
  obtain ⟨_, exact, moves, _⟩ := selectionExact (twice [name, cap])
  have ran : ofQuery (twice [name, cap]) = .ok listed :=
    (exact listed).2 ⟨_, .listed (twiceFirst [name, cap]), .cons named (.cons capped .nil)⟩
  have again : ofQuery (twice [cap, name]) = .ok turned := by decide +kernel
  exact ⟨reordered, ran, again, ((moves _ reordered).2 listed turned ran again).1⟩

end Schema
end TablePlan
