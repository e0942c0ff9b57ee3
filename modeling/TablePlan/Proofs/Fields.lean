import Mathlib.Data.List.Forall2
import Mathlib.Data.Set.List
import TablePlan.Document.Declaration
import TablePlan.Proofs.Agreement
import TablePlan.Proofs.Sequence
import TablePlan.Schema.Selection
/-! Schemas put together field by field. A declaration is taken exactly if its names and types pair
up, its types are known and its names differ; a SELECT exactly if each of its items names a field of
its own. Both keep the order that they are given in, and whatever fails, fails for its format. -/
namespace TablePlan

variable {α β : Type} {word name : String} {type : FieldType} {s t : Schema}
  {field : String × FieldType} {fields : List (String × FieldType)}

def FailsByFormat (outcome : Except Fault α) : Prop :=
  ∀ fault, outcome = .error fault → fault.isFormat = true

namespace FailsByFormat

theorem ok (value : α) : FailsByFormat (.ok value) := nofun

theorem format (cause : FormatFault) : FailsByFormat (.error (.format cause) : Except Fault α) := by
  intro fault same
  cases same
  rfl

theorem bind {first : Except Fault α} {next : α → Except Fault β} (here : FailsByFormat first)
    (later : ∀ value, FailsByFormat (next value)) : FailsByFormat (first >>= next) := by
  intro fault failed
  rcases bindError.1 failed with refused | ⟨value, _, refused⟩
  · exact here fault refused
  · exact later value fault refused

theorem foldlM {step : β → α → Except Fault β} (each : ∀ b item, FailsByFormat (step b item))
    (items : List α) (b : β) : FailsByFormat (items.foldlM step b) := by
  induction items generalizing b with
  | nil => exact .ok b
  | cons item rest ih =>
    rw [List.foldlM_cons]
    exact (each b item).bind ih

end FailsByFormat

namespace FieldType

theorem keywordInjective : Function.Injective FieldType.keyword := by
  intro one other same
  have read := keywordRead one
  rw [same, keywordRead other] at read
  exact (Option.some.inj read).symm

theorem ofKeywordExact : ofKeyword word = .ok type ↔ type.keyword = word := by
  unfold ofKeyword
  constructor
  · intro read
    split at read
    · rename_i found
      cases read
      exact keywordOf found
    · cases read
  · rintro rfl
    rw [keywordRead]

theorem ofKeywordFails (word : String) : FailsByFormat (ofKeyword word) := by
  unfold ofKeyword
  split
  · exact .ok _
  · exact .format _

end FieldType

namespace Schema

theorem sameFieldsEq (same : s.fields = t.fields) : s = t := by
  cases s
  cases t
  cases same
  rfl

theorem addExact : s.add name type = .ok t ↔
    name ∉ s.names ∧ t.fields = s.fields ++ [(name, type)] := by
  unfold add
  constructor
  · intro added
    split at added
    · rename_i found
      cases added
      exact addedFields found
    · cases added
  · rintro ⟨fresh, grown⟩
    rw [add?, dif_pos fresh]
    exact congrArg Except.ok (sameFieldsEq grown.symm)

theorem addFails (s : Schema) (name : String) (type : FieldType) :
    FailsByFormat (s.add name type) := by
  unfold add
  split
  · exact .ok _
  · exact .format _

theorem freshField {before after : List (String × FieldType)}
    (cut : t.fields = before ++ (name, type) :: after) : name ∉ Keyed.names before := by
  have distinct := t.distinct
  rw [cut, Keyed.names, List.map_append, List.map_cons] at distinct
  exact fun known => (List.nodup_append.1 distinct).2.2 name known name (.head _) rfl

theorem gatheredExact {step : Schema → α → Except Fault Schema}
    {Gives : α → String × FieldType → Prop}
    (exact : ∀ s item t, step s item = .ok t ↔
      ∃ field, Gives item field ∧ field.1 ∉ s.names ∧ t.fields = s.fields ++ [field])
    (items : List α) (s t : Schema) : items.foldlM step s = .ok t ↔
      ∃ fields, t.fields = s.fields ++ fields ∧ List.Forall₂ Gives items fields := by
  induction items generalizing s with
  | nil =>
    constructor
    · intro same
      cases same
      exact ⟨[], (List.append_nil _).symm, .nil⟩
    · rintro ⟨_, same, none⟩
      cases none
      rw [List.append_nil] at same
      exact congrArg Except.ok (sameFieldsEq same.symm)
  | cons item rest ih =>
    rw [List.foldlM_cons, bindOk]
    constructor
    · rintro ⟨between, first, later⟩
      obtain ⟨field, gives, _, added⟩ := (exact s item between).1 first
      obtain ⟨fields, grown, given⟩ := (ih between).1 later
      exact ⟨field :: fields, by simp [grown, added], .cons gives given⟩
    · rintro ⟨_, grown, given⟩
      cases given with
      | @cons _ field _ fields gives given =>
        have fresh : field.1 ∉ s.names := freshField grown
        obtain ⟨between, first⟩ : ∃ between, s.add field.1 field.2 = .ok between := by
          simp [add, add?, fresh]
        have added := (addExact.1 first).2
        refine ⟨between, (exact s item between).2 ⟨field, gives, fresh, added⟩, ?_⟩
        exact (ih between).2 ⟨fields, by simp [grown, added], given⟩

def pairs (s : Schema) : List (String × String) :=
  s.fields.map fun field => (field.1, field.2.keyword)

theorem pairInjective :
    Function.Injective fun field : String × FieldType => (field.1, field.2.keyword) := by
  rintro ⟨name, type⟩ ⟨other, kind⟩ same
  obtain ⟨names, types⟩ := Prod.mk.inj same
  exact Prod.ext names (FieldType.keywordInjective types)

theorem pairsPerm : s.pairs.Perm t.pairs ↔ s.fields.Perm t.fields :=
  List.map_perm_map_iff pairInjective

def Declared (pair : String × String) (field : String × FieldType) : Prop :=
  pair = (field.1, field.2.keyword)

theorem declareExact (s : Schema) (pair : String × String) (t : Schema) :
    s.declare pair.1 pair.2 = .ok t ↔
      ∃ field, Declared pair field ∧ field.1 ∉ s.names ∧ t.fields = s.fields ++ [field] := by
  unfold declare
  rw [bindOk]
  constructor
  · rintro ⟨type, read, added⟩
    obtain ⟨fresh, grown⟩ := addExact.1 added
    exact ⟨(pair.1, type), Prod.ext rfl (FieldType.ofKeywordExact.1 read).symm, fresh, grown⟩
  · rintro ⟨field, rfl, fresh, grown⟩
    exact ⟨field.2, FieldType.ofKeywordExact.2 rfl, addExact.2 ⟨fresh, grown⟩⟩

theorem declareAllFold (s : Schema) (pairs : List (String × String)) :
    s.declareAll pairs = pairs.foldlM (fun s pair => s.declare pair.1 pair.2) s := by
  induction pairs generalizing s with
  | nil => rfl
  | cons pair rest ih =>
    rw [List.foldlM_cons]
    exact congrArg _ (funext ih)

theorem declareFails (s : Schema) (name word : String) : FailsByFormat (s.declare name word) :=
  (FieldType.ofKeywordFails word).bind (s.addFails name)

theorem declaredPairs {pairs : List (String × String)} :
    List.Forall₂ Declared pairs fields ↔
      pairs = fields.map fun field => (field.1, field.2.keyword) := by
  rw [← List.forall₂_eq_eq_eq, List.forall₂_map_right_iff]
  rfl

end Schema

namespace SchemaDecl

variable {d : SchemaDecl}

def Declares (d : SchemaDecl) (s : Schema) : Prop :=
  s.names = d.keys ∧ s.fields.map (fun field => field.2.keyword) = d.types

structure WellFormed (d : SchemaDecl) : Prop where
  paired : d.keys.length = d.types.length
  typed : ∀ word ∈ d.types, word ∈ FieldType.all.map FieldType.keyword
  distinct : d.keys.Nodup

def pairs (d : SchemaDecl) : List (String × String) := d.keys.zip d.types

theorem pairsExact (paired : d.keys.length = d.types.length) :
    d.pairs = s.pairs ↔ d.Declares s := by
  have names : s.pairs.map Prod.fst = s.names := by simp [Schema.pairs, Schema.names, Keyed.names]
  have types : s.pairs.map Prod.snd = s.fields.map fun field => field.2.keyword := by
    simp [Schema.pairs]
  rw [Declares, ← names, ← types]
  constructor
  · intro same
    rw [← same, pairs]
    exact ⟨List.map_fst_zip (Nat.le_of_eq paired), List.map_snd_zip (Nat.le_of_eq paired.symm)⟩
  · rintro ⟨left, right⟩
    exact (List.zip_of_prod left right).symm

theorem Declares.paired (declares : d.Declares s) : d.keys.length = d.types.length := by
  simp [← declares.1, ← declares.2, Schema.names, Keyed.names]

theorem Declares.pairs (declares : d.Declares s) : d.pairs = s.pairs :=
  (pairsExact declares.paired).2 declares

theorem declaresExact : Schema.ofDeclaration d.keys d.types = .ok s ↔ d.Declares s := by
  unfold Schema.ofDeclaration
  split
  · rename_i paired
    rw [Schema.declareAllFold, Schema.gatheredExact Schema.declareExact, ← pairsExact paired]
    constructor
    · rintro ⟨fields, rfl, given⟩
      exact Schema.declaredPairs.1 given
    · exact fun same => ⟨s.fields, rfl, Schema.declaredPairs.2 same⟩
  · rename_i unpaired
    exact ⟨nofun, fun declares => absurd declares.paired unpaired⟩

theorem declarationFails (keys types : List String) :
    FailsByFormat (Schema.ofDeclaration keys types) := by
  unfold Schema.ofDeclaration
  split
  · rw [Schema.declareAllFold]
    exact .foldlM (fun s pair => s.declareFails pair.1 pair.2) _ _
  · exact .format _

theorem wellFormedExact : d.WellFormed ↔ ∃ s, Schema.ofDeclaration d.keys d.types = .ok s := by
  simp only [declaresExact]
  constructor
  · rintro ⟨paired, typed, distinct⟩
    have known : ∀ word ∈ d.types, word ∈ Set.range FieldType.keyword := by
      intro word member
      obtain ⟨type, _, read⟩ := List.mem_map.1 (typed word member)
      exact ⟨type, read⟩
    obtain ⟨types, read⟩ : d.types ∈ Set.range (List.map FieldType.keyword) := by
      rwa [Set.range_list_map]
    have lengths : d.keys.length = types.length := by rw [paired, ← read, List.length_map]
    have names : Keyed.names (d.keys.zip types) = d.keys :=
      List.map_fst_zip (Nat.le_of_eq lengths)
    refine ⟨⟨d.keys.zip types, by rwa [names]⟩, names, ?_⟩
    calc (d.keys.zip types).map (fun field => field.2.keyword)
        = ((d.keys.zip types).map Prod.snd).map FieldType.keyword := by
          rw [List.map_map]
          rfl
      _ = types.map FieldType.keyword := by rw [List.map_snd_zip (Nat.le_of_eq lengths.symm)]
      _ = d.types := read
  · rintro ⟨s, declares⟩
    refine ⟨declares.paired, ?_, declares.1 ▸ s.distinct⟩
    rw [← declares.2, List.forall_mem_map]
    exact fun field _ => List.mem_map_of_mem (FieldType.memAll field.2)

end SchemaDecl

namespace Annotation

theorem readFails (item : String) : FailsByFormat (read item) := by
  unfold read
  split
  · exact (FieldType.ofKeywordFails _).bind fun _ => .ok _
  · exact .format _

end Annotation

/-- The items of the first SELECT, where a literal that stands alone is an item of its own. -/
def Clause.selectedItems (query : Clause) : Option (List Clause) :=
  match query.select? with
  | none | some (.object _) => none
  | some (.list items) => some items
  | some (.literal item) => some [.literal item]

namespace Schema

variable {query : Clause}

def Selected (item : Clause) (field : String × FieldType) : Prop :=
  ∃ text, item = .literal text ∧ Annotation.read text = .ok field

theorem addSelectedExact (s : Schema) (item : Clause) (t : Schema) :
    s.addSelected item = .ok t ↔
      ∃ field, Selected item field ∧ field.1 ∉ s.names ∧ t.fields = s.fields ++ [field] := by
  cases item with
  | literal text =>
    unfold addSelected
    rw [bindOk]
    constructor
    · rintro ⟨field, read, added⟩
      obtain ⟨fresh, grown⟩ := addExact.1 added
      exact ⟨field, ⟨text, rfl, read⟩, fresh, grown⟩
    · rintro ⟨field, ⟨_, same, read⟩, fresh, grown⟩
      cases same
      exact ⟨field, read, addExact.2 ⟨fresh, grown⟩⟩
  | list | object =>
    constructor
    · nofun
    · rintro ⟨_, ⟨_, same, _⟩, _⟩
      cases same

theorem addSelectedFails (s : Schema) (item : Clause) : FailsByFormat (s.addSelected item) := by
  cases item with
  | literal text =>
    have reads := Annotation.readFails text
    exact reads.bind fun field => s.addFails field.1 field.2
  | list | object => exact .format _

theorem addAllSelectedFold (s : Schema) (items : List Clause) :
    s.addAllSelected items = items.foldlM addSelected s := by
  induction items generalizing s with
  | nil => rfl
  | cons item rest ih =>
    rw [List.foldlM_cons]
    exact congrArg _ (funext ih)

theorem addAllSelectedExact {items : List Clause} :
    empty.addAllSelected items = .ok s ↔ List.Forall₂ Selected items s.fields := by
  rw [addAllSelectedFold, gatheredExact addSelectedExact]
  constructor
  · rintro ⟨fields, rfl, given⟩
    exact given
  · exact fun given => ⟨s.fields, rfl, given⟩

theorem ofQueryExact : ofQuery query = .ok s ↔
    ∃ items, query.selectedItems = some items ∧ List.Forall₂ Selected items s.fields := by
  unfold ofQuery Clause.selectedItems
  generalize query.select? = select
  rcases select with _ | item | items | entries
  · simp
  · simp [addAllSelectedExact]
  · simp [addAllSelectedExact]
  · simp

theorem ofQueryFails (query : Clause) : FailsByFormat (ofQuery query) := by
  unfold ofQuery
  split
  · exact .format _
  · exact .format _
  all_goals
    rw [addAllSelectedFold]
    exact .foldlM addSelectedFails _ _

end Schema
end TablePlan
