import TablePlan.Proofs.Keyed
import TablePlan.Proofs.Sequence
import TablePlan.Table.Json
/-! What can be read from JSON text at all. Whatever the text is, no value of it nests deeper than
there is room for, and no object of it has a key twice; so it is with the clauses made of them. -/
namespace TablePlan

namespace Json

variable {α : Type} {care : Care} {one : List Char → Except JsonFault (α × List Char)}
  {good : α → Prop} {bound room : Nat} {first : Bool} {s rest : List Char} {value : Json}

/-- No more arrays and objects stand in one another than there is room for, and no object has a key
twice. -/
inductive Fits : Nat → Json → Prop where
  | null {room : Nat} : Fits room .null
  | bool {room : Nat} {b : Bool} : Fits room (.bool b)
  | number {room : Nat} {n : Number} : Fits room (.number n)
  | string {room : Nat} {text : String} : Fits room (.string text)
  | array {room : Nat} {values : List Json} (each : ∀ value ∈ values, Fits room value) :
      Fits (room + 1) (.array values)
  | object {room : Nat} {entries : List (String × Json)} (distinct : (Keyed.names entries).Nodup)
      (each : ∀ entry ∈ entries, Fits room entry.2) : Fits (room + 1) (.object entries)

structure Holds (good : α → Prop) (entries : List (String × α)) : Prop where
  distinct : (Keyed.names entries).Nodup
  each : ∀ entry ∈ entries, good entry.2

section Members

variable {σ : Type} {step : String → σ → List Char → Except JsonFault (σ × List Char)}
  {holds : σ → Prop} {state found : σ}
  (keeps : ∀ key state s found rest, holds state → step key state s = .ok (found, rest) →
    holds found)
include keeps

theorem membersKeep (before : holds state)
    (ran : members care step bound first state s = .ok (found, rest)) : holds found := by
  induction bound generalizing first s state with
  | zero => cases ran
  | succ bound ih =>
    obtain ⟨next, _, ran⟩ := bindOk.1 ran
    cases next with
    | none =>
      cases ran
      exact before
    | some s =>
      obtain ⟨⟨key, s⟩, _, ran⟩ := bindOk.1 ran
      obtain ⟨⟨more, s⟩, here, later⟩ := bindOk.1 ran
      exact ih (keeps _ _ _ _ _ before here) later

theorem objectKeeps (before : holds state)
    (ran : objectOf care step state s = .ok (found, rest)) : holds found := by
  obtain ⟨⟨found, s⟩, here, ran⟩ := bindOk.1 ran
  obtain ⟨_, _, last⟩ := bindOk.1 ran
  cases last
  exact membersKeep keeps before here

end Members

section Kept

variable (kept : ∀ s value rest, one s = .ok (value, rest) → good value) {values : List α}
  {held found : List (String × α)} {key : String}
include kept

theorem itemsGood (ran : items one bound first s = .ok (values, rest)) :
    ∀ value ∈ values, good value := by
  induction bound generalizing first s values with
  | zero => cases ran
  | succ bound ih =>
    obtain ⟨next, _, ran⟩ := bindOk.1 ran
    cases next with
    | none =>
      cases ran
      exact nofun
    | some s =>
      obtain ⟨⟨value, s⟩, here, ran⟩ := bindOk.1 ran
      obtain ⟨⟨others, s⟩, later, last⟩ := bindOk.1 ran
      cases last
      exact List.forall_mem_cons.2 ⟨kept _ _ _ here, ih later⟩

theorem listGood (ran : listOf one s = .ok (values, rest)) : ∀ value ∈ values, good value := by
  obtain ⟨⟨found, s⟩, here, ran⟩ := bindOk.1 ran
  obtain ⟨_, _, last⟩ := bindOk.1 ran
  cases last
  exact itemsGood kept here

theorem memberHolds (before : Holds good held) (ran : member one key held s = .ok (found, rest)) :
    Holds good found := by
  obtain ⟨s, _, ran⟩ := bindOk.1 ran
  obtain ⟨⟨value, s⟩, here, last⟩ := bindOk.1 ran
  cases last
  refine ⟨Keyed.putDistinct before.distinct, fun entry inside => ?_⟩
  rcases Keyed.memPut inside with same | old
  · exact same ▸ kept _ _ _ here
  · exact before.each entry old

theorem objectHolds (ran : objectOf care (member one) [] s = .ok (found, rest)) :
    Holds good found := by
  have none : Holds good [] := ⟨List.nodup_nil, nofun⟩
  exact objectKeeps (fun _ _ _ _ _ => memberHolds kept) none ran

end Kept

theorem valueFits (ran : readValue care room s = .ok (value, rest)) : value.Fits room := by
  induction room using Nat.strongRecOn generalizing s value rest with
  | _ room ih =>
    unfold readValue at ran
    split at ran
    · cases ran
    · obtain ⟨_, _, last⟩ := bindOk.1 ran
      cases last
      exact .null
    · obtain ⟨_, _, last⟩ := bindOk.1 ran
      cases last
      exact .bool
    · obtain ⟨_, _, last⟩ := bindOk.1 ran
      cases last
      exact .bool
    · obtain ⟨_, _, last⟩ := bindOk.1 ran
      cases last
      exact .string
    · split at ran
      · cases ran
      · obtain ⟨_, listed, last⟩ := bindOk.1 ran
        cases last
        exact .array (listGood (fun _ _ _ => ih _ (Nat.lt_succ_self _)) listed)
    · split at ran
      · cases ran
      · obtain ⟨_, held, last⟩ := bindOk.1 ran
        cases last
        have holds := objectHolds (fun _ _ _ => ih _ (Nat.lt_succ_self _)) held
        exact .object holds.distinct holds.each
    · split at ran
      · obtain ⟨_, _, last⟩ := bindOk.1 ran
        cases last
        exact .number
      · cases ran

theorem wholeParts {α : Type} {one : List Char → Except JsonFault (α × List Char)} {value : α}
    {source : String} (read : readWhole one source = .ok value) :
    ∃ rest, one source.toList = .ok (value, rest) := by
  obtain ⟨⟨found, rest⟩, here, read⟩ := bindOk.1 read
  obtain ⟨_, _, last⟩ := bindOk.1 read
  cases last
  exact ⟨rest, here⟩

end Json

namespace Clause

inductive Fits : Nat → Clause → Prop where
  | literal {room : Nat} {text : String} : Fits room (.literal text)
  | list {room : Nat} {items : List Clause} (each : ∀ item ∈ items, Fits room item) :
      Fits (room + 1) (.list items)
  | object {room : Nat} {entries : List (String × Clause)} (distinct : (Keyed.names entries).Nodup)
      (each : ∀ entry ∈ entries, Fits room entry.2) : Fits (room + 1) (.object entries)

variable {clause : Clause} {room : Nat}

theorem itemsMapped (values : List Json) : ofItems? values = values.mapM ofJson? := by
  induction values with
  | nil => rfl
  | cons value rest ih => rw [ofItems?, List.mapM_cons, ih]

theorem membersMapped (members : List (String × Json)) : ofMembers? members =
    members.mapM fun member => (ofJson? member.2).map (member.1, ·) := by
  induction members with
  | nil => rfl
  | cons member rest ih =>
    rw [ofMembers?, List.mapM_cons, ih]
    cases ofJson? member.2 <;> rfl

theorem fitsOfJson {value : Json} (fits : value.Fits room) (read : ofJson? value = some clause) :
    clause.Fits room := by
  induction fits generalizing clause with
  | null => cases read
  | bool | number | string =>
    cases read
    exact .literal
  | array _ ih =>
    obtain ⟨clauses, items, rfl⟩ := Option.map_eq_some_iff.1 read
    rw [itemsMapped, mapMExact] at items
    refine .list fun clause member => ?_
    obtain ⟨value, inside, same⟩ := relatedRight items member
    exact ih value inside same
  | @object _ members distinct _ ih =>
    obtain ⟨entries, made, rfl⟩ := Option.map_eq_some_iff.1 read
    rw [membersMapped, mapMExact] at made
    have names : Keyed.names entries = Keyed.names members :=
      relatedMap made fun member _ entry same => by
        obtain ⟨_, _, rfl⟩ := Option.map_eq_some_iff.1 same
        rfl
    refine .object (names ▸ distinct) fun entry inside => ?_
    obtain ⟨member, within, same⟩ := relatedRight made inside
    obtain ⟨predicate, here, rfl⟩ := Option.map_eq_some_iff.1 same
    exact ih member within here

theorem readJsonFits {s rest : List Char} (ran : readJson room s = .ok (clause, rest)) :
    clause.Fits room := by
  obtain ⟨⟨value, s⟩, read, ran⟩ := bindOk.1 ran
  cases made : ofJson? value with
  | none =>
    simp only [made] at ran
    cases ran
  | some found =>
    simp only [made] at ran
    cases ran
    exact fitsOfJson (Json.valueFits read) made

theorem ofTextFits {source : String} (ran : ofText source = .ok clause) :
    clause.Fits Json.nestingRoom := by
  unfold ofText at ran
  split at ran
  · rename_i value read
    obtain ⟨_, here⟩ := Json.wholeParts read
    unfold ofJson at ran
    split at ran
    · rename_i found made
      cases ran
      exact fitsOfJson (Json.valueFits here) made
    · cases ran
  · cases ran

end Clause

end TablePlan
