import TablePlan.Proofs.ReadBack
/-! Clauses are made of JSON values that have no null in them. The clause is written as its value
is, but that numbers and truth values become strings of their text: lists keep their items, and
objects their keys, in the order in which they stand. -/
namespace TablePlan

namespace Json

theorem byMembers {motive : Json → Prop} (null : motive .null) (bool : ∀ b, motive (.bool b))
    (number : ∀ n, motive (.number n)) (string : ∀ text, motive (.string text))
    (array : ∀ items, (∀ item ∈ items, motive item) → motive (.array items))
    (object : ∀ members, (∀ member ∈ members, motive member.2) → motive (.object members))
    (value : Json) : motive value :=
  @Json.rec motive (fun items => ∀ item ∈ items, motive item)
    (fun members => ∀ member ∈ members, motive member.2) (fun member => motive member.2)
    null bool number string array object
    nofun (fun _ _ head tail => List.forall_mem_cons.2 ⟨head, tail⟩)
    nofun (fun _ _ head tail => List.forall_mem_cons.2 ⟨head, tail⟩)
    (fun _ _ below => below) value

inductive Within (part : Json) : Json → Prop where
  | here : Within part part
  | item {item : Json} {items : List Json} (inside : item ∈ items) (below : Within part item) :
      Within part (.array items)
  | member {member : String × Json} {members : List (String × Json)} (inside : member ∈ members)
      (below : Within part member.2) : Within part (.object members)

section Nulls

variable {items : List Json} {members : List (String × Json)}

theorem nullInArray : Within .null (.array items) ↔ ∃ item ∈ items, Within .null item := by
  constructor
  · rintro ⟨⟩
    exact ⟨_, ‹_›, ‹_›⟩
  · rintro ⟨item, inside, below⟩
    exact .item inside below

theorem nullInObject :
    Within .null (.object members) ↔ ∃ member ∈ members, Within .null member.2 := by
  constructor
  · rintro ⟨⟩
    exact ⟨_, ‹_›, ‹_›⟩
  · rintro ⟨member, inside, below⟩
    exact .member inside below

end Nulls

mutual

def spelled : Json → Json
  | .null => .null
  | .bool b => .string (Json.bool b).toText
  | .number n => .string (Json.number n).toText
  | .string text => .string text
  | .array items => .array (spelledItems items)
  | .object members => .object (spelledMembers members)

def spelledItems : List Json → List Json
  | [] => []
  | item :: rest => item.spelled :: spelledItems rest

def spelledMembers : List (String × Json) → List (String × Json)
  | [] => []
  | (key, value) :: rest => (key, value.spelled) :: spelledMembers rest

end

theorem spelledArray (items : List Json) : spelled (.array items) = .array (items.map spelled) := by
  rw [spelled]
  induction items with
  | nil => rfl
  | cons item rest ih => rw [spelledItems, List.map_cons, Json.array.inj ih]

theorem spelledObject (members : List (String × Json)) : spelled (.object members) =
    .object (members.map fun member => (member.1, member.2.spelled)) := by
  rw [spelled]
  induction members with
  | nil => rfl
  | cons member rest ih => rw [spelledMembers, List.map_cons, Json.object.inj ih]

end Json

namespace Clause

variable {value : Json} {clause : Clause}

theorem refusesNull : ofJson? value = none ↔ Json.Within .null value := by
  induction value using Json.byMembers with
  | null => exact ⟨fun _ => .here, fun _ => rfl⟩
  | bool | number | string => exact ⟨nofun, nofun⟩
  | array items ih =>
    rw [ofJson?, Option.map_eq_none_iff, itemsMapped, mapMNone, Json.nullInArray]
    exact exists_congr fun item => and_congr_right (ih item)
  | object members ih =>
    rw [ofJson?, Option.map_eq_none_iff, membersMapped, mapMNone, Json.nullInObject]
    simp only [Option.map_eq_none_iff]
    exact exists_congr fun member => and_congr_right (ih member)

theorem keepsShape (read : ofJson? value = some clause) : clause.toJson = value.spelled := by
  induction value using Json.byMembers generalizing clause with
  | null => cases read
  | bool | number | string =>
    cases read
    rfl
  | array items ih =>
    obtain ⟨clauses, made, rfl⟩ := Option.map_eq_some_iff.1 read
    rw [itemsMapped, mapMExact] at made
    rw [toJson, itemsJson, Json.spelledArray]
    exact congrArg Json.array (relatedMap made fun item inside _ same => ih item inside same)
  | object members ih =>
    obtain ⟨entries, made, rfl⟩ := Option.map_eq_some_iff.1 read
    rw [membersMapped, mapMExact] at made
    rw [toJson, entriesJson, Json.spelledObject]
    refine congrArg Json.object (relatedMap made fun member inside _ same => ?_)
    obtain ⟨predicate, here, rfl⟩ := Option.map_eq_some_iff.1 same
    exact congrArg (member.1, ·) (ih member inside here)

theorem ofJsonOk : ofJson value = .ok clause ↔ ofJson? value = some clause := by
  unfold ofJson
  split <;> simp [*]

theorem ofJsonError {fault : Fault} :
    ofJson value = .error fault ↔ ofJson? value = none ∧ fault = .format .nullClause := by
  unfold ofJson
  split <;> simp [*, eq_comm]

end Clause

theorem conversionExact :
    (∀ value : Json, ((∃ clause, Clause.ofJson value = .ok clause) ↔ ¬ Json.Within .null value) ∧
      (∀ fault, Clause.ofJson value = .error fault → fault = .format .nullClause) ∧
      ∀ clause, Clause.ofJson value = .ok clause → clause.toJson = value.spelled) ∧
      ∀ clause : Clause, Clause.ofJson clause.toJson = .ok clause := by
  refine ⟨fun value => ⟨?_, fun fault refused => (Clause.ofJsonError.1 refused).2,
    fun clause read => Clause.keepsShape (Clause.ofJsonOk.1 read)⟩,
    fun clause => Clause.ofJsonOk.2 (Clause.clauseOfJson clause)⟩
  simp only [Clause.ofJsonOk]
  rw [← Clause.refusesNull, ← Option.isSome_iff_exists, ← Option.not_isSome_iff_eq_none, not_not]

def mixed (deepest : Json) : Json :=
  .object [("SELECT", .array [.bool true, .array [], .number (.int (-7)), .object []]),
    ("FROM", .object [("x", .array [.number (.real ⟨false, 6755399441055744, -52⟩), deepest])])]

theorem mixedConverted :
    let clause : Clause :=
      .object [("SELECT", .list [.literal "true", .list [], .literal "-7", .object []]),
        ("FROM", .object [("x", .list [.literal "1.5", .literal "false"])])]
    Clause.ofJson (mixed (.bool false)) = .ok clause ∧
      clause.toJson = (mixed (.bool false)).spelled ∧
      ∀ clause, Clause.ofJson (mixed .null) ≠ .ok clause := by
  intro clause
  have read : Clause.ofJson (mixed (.bool false)) = .ok clause := by decide +kernel
  have deep : Json.Within .null (mixed .null) :=
    .member (.tail _ (.head _)) (.member (.head _) (.item (.tail _ (.head _)) .here))
  exact ⟨read, (conversionExact.1 _).2.2 clause read,
    fun clause made => (conversionExact.1 _).1.1 ⟨clause, made⟩ deep⟩

end TablePlan
