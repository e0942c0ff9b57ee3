import TablePlan.Clause.Sql
import TablePlan.Dependency.Scan
import TablePlan.Proofs.Nesting
import TablePlan.Proofs.Sequence
/-! The scan for references and the translation to SQL hold a clause to the ceiling alike: an object
directly under an object is one level deeper, and an object in a list is at the level of the object
that holds the list, which has been checked before. Work on a clause succeeds unless something is
wrong with it. -/
namespace TablePlan.Clause

variable {limits : Limits}

inductive Judged (malformed deep : Prop) {α : Type} : Except Fault α → Prop where
  | passes {value : α} (whole : ¬ malformed) (within : ¬ deep) : Judged malformed deep (.ok value)
  | format {cause : FormatFault} (wrong : malformed) :
      Judged malformed deep (.error (.format cause))
  | tooDeep {place : Place} {limit : Nat} (wrong : deep) :
      Judged malformed deep (.error (.tooDeep place limit))

namespace Judged

variable {α β : Type} {malformed deep malformed' deep' : Prop}

theorem bind {first : Except Fault α} {next : α → Except Fault β}
    (here : Judged malformed deep first)
    (later : ∀ value, first = .ok value → Judged malformed' deep' (next value)) :
    Judged (malformed ∨ malformed') (deep ∨ deep') (first >>= next) := by
  cases here with
  | @passes value whole within =>
    have after := later value rfl
    change Judged _ _ (next value)
    generalize next value = outcome at after ⊢
    cases after with
    | passes whole' within' => exact .passes (not_or.2 ⟨whole, whole'⟩) (not_or.2 ⟨within, within'⟩)
    | format wrong => exact .format (.inr wrong)
    | tooDeep wrong => exact .tooDeep (.inr wrong)
  | format wrong => exact .format (.inl wrong)
  | tooDeep wrong => exact .tooDeep (.inl wrong)

theorem congr {outcome : Except Fault α} (judged : Judged malformed deep outcome)
    (formed : malformed ↔ malformed') (depths : deep ↔ deep') :
    Judged malformed' deep' outcome :=
  propext formed ▸ propext depths ▸ judged

theorem map {outcome : Except Fault α} (judged : Judged malformed deep outcome) (f : α → β) :
    Judged malformed deep (do return f (← outcome)) := by
  cases judged with
  | passes whole within => exact .passes whole within
  | format wrong => exact .format wrong
  | tooDeep wrong => exact .tooDeep wrong

theorem both {γ : Type} {first : Except Fault α} {second : Except Fault β}
    (here : Judged malformed deep first) (later : Judged malformed' deep' second)
    (join : α → β → γ) : Judged (malformed ∨ malformed') (deep ∨ deep') (do
      let one ← first
      let other ← second
      return join one other) :=
  here.bind fun one _ => later.map (join one)

theorem succeeds {outcome : Except Fault α} (judged : Judged malformed deep outcome) :
    (∃ value, outcome = .ok value) ↔ ¬ malformed ∧ ¬ deep := by
  cases judged with
  | passes whole within => exact ⟨fun _ => ⟨whole, within⟩, fun _ => ⟨_, rfl⟩⟩
  | format wrong => exact ⟨nofun, fun sound => absurd wrong sound.1⟩
  | tooDeep wrong => exact ⟨nofun, fun sound => absurd wrong sound.2⟩

theorem fault {fault : Fault} {outcome : Except Fault α} (judged : Judged malformed deep outcome)
    (failed : outcome = .error fault) :
    (fault.isTooDeep = true ∨ fault.isFormat = true) ∧ (fault.isFormat = true → malformed) ∧
      (fault.isTooDeep = true → deep) := by
  cases judged with
  | passes => cases failed
  | format wrong =>
    cases failed
    exact ⟨.inr rfl, fun _ => wrong, nofun⟩
  | tooDeep wrong =>
    cases failed
    exact ⟨.inl rfl, nofun, fun _ => wrong⟩

end Judged

theorem checkJudged (limits : Limits) (depth : Nat) (place : Place) :
    Judged False (limits.maxDepth < depth) (limits.check depth place) := by
  unfold Limits.check
  split
  · exact .tooDeep ‹_›
  · exact .passes id ‹_›

theorem deepEntries {depth : Nat} {key : String} {predicate : Clause}
    {rest : List (String × Clause)} :
    (limits.maxDepth < depth + (predicate.step + predicate.nest) ∨
        limits.maxDepth < depth + nestOfEntries rest) ↔
      limits.maxDepth < depth + nestOfEntries ((key, predicate) :: rest) := by
  rw [nestOfEntries]
  omega

theorem deepItems {depth : Nat} {item : Clause} {rest : List Clause} :
    (limits.maxDepth < depth + item.nest ∨ limits.maxDepth < depth + nestOfItems rest) ↔
      limits.maxDepth < depth + nestOfItems (item :: rest) := by
  rw [nestOfItems]
  omega

theorem deepPredicate (limits : Limits) (depth : Nat) (predicate : Clause) :
    limits.maxDepth < predicateDepth depth predicate + predicate.nest ↔
      limits.maxDepth < depth + (predicate.step + predicate.nest) := by
  cases predicate <;> simp only [predicateDepth, step] <;> omega

def Misplaced (query : Clause) : Prop := query.kind ≠ .object ∨ query.Crowded

theorem misplacedObject {entries : List (String × Clause)} :
    Misplaced (.object entries) ↔ Crowded (.object entries) := by
  simp [Misplaced, kind]

theorem misplacedItem {entries : List (String × Clause)} :
    Misplaced (.object entries) ↔ CrowdedItem (.object entries) := by
  simp [misplacedObject, CrowdedItem]

mutual

theorem scanJudged {depth : Nat} : (query : Clause) →
    Judged query.Misplaced (limits.maxDepth < depth + query.nest) (query.scan limits depth)
  | .object entries => by
    unfold scan
    refine ((checkJudged limits depth _).bind fun _ passed =>
      scanEntriesJudged (Limits.checkPasses.1 passed) entries).congr ?_ ?_
    · rw [misplacedObject, false_or]
    · rw [nest]
      omega
  | .literal _ | .list _ => by
    unfold scan Limits.check
    split
    · exact .tooDeep (by omega)
    · exact .format (.inl nofun)

theorem scanEntriesJudged {depth : Nat} (within : depth ≤ limits.maxDepth) :
    (entries : List (String × Clause)) →
    Judged (Crowded (.object entries)) (limits.maxDepth < depth + nestOfEntries entries)
      (scanEntries limits depth entries)
  | [] => .passes (by simp [crowdedEntries]) (Nat.not_lt.2 within)
  | (key, predicate) :: rest => by
    have later := scanEntriesJudged within rest
    unfold scanEntries
    refine Judged.congr ?_ crowdedEntriesCons.symm deepEntries
    cases predicate with
    | literal text =>
      have here : Judged (Crowded (.literal text)) (limits.maxDepth < depth)
          (.ok (references (directiveOf key) text)) :=
        .passes literalUncrowded (Nat.not_lt.2 within)
      exact here.both later _
    | object entries =>
      have here : Judged _ _ (scan limits (depth + 1) (.object entries)) :=
        scanJudged (.object entries)
      exact (here.congr misplacedObject (deepPredicate limits depth (.object entries))).both later _
    | list items =>
      have here : Judged _ _ (scanItems limits depth key items) := scanItemsJudged within items
      exact (here.congr Iff.rfl (deepPredicate limits depth (.list items))).both later _

theorem scanItemsJudged {depth : Nat} {key : String} (within : depth ≤ limits.maxDepth) :
    (items : List Clause) →
    Judged (Crowded (.list items)) (limits.maxDepth < depth + nestOfItems items)
      (scanItems limits depth key items)
  | [] => .passes (by simp [crowdedItems]) (Nat.not_lt.2 within)
  | item :: rest => by
    have later : Judged _ _ (scanItems limits depth key rest) := scanItemsJudged within rest
    unfold scanItems
    refine Judged.congr ?_ crowdedItemsCons.symm deepItems
    cases item with
    | literal text =>
      have here : Judged (CrowdedItem (.literal text)) (limits.maxDepth < depth)
          (.ok (references (directiveOf key) text)) :=
        .passes (by simp [CrowdedItem, literalUncrowded]) (Nat.not_lt.2 within)
      exact here.both later _
    | object entries =>
      have here : Judged _ _ (scan limits depth (.object entries)) := scanJudged (.object entries)
      exact (here.congr misplacedItem Iff.rfl).both later _
    | list items => exact .format (.inl (.inl ⟨items, rfl⟩))

end

theorem predicateDepthOther {depth : Nat} {predicate : Clause} (other : predicate.kind ≠ .object) :
    predicateDepth depth predicate = depth := by
  cases predicate with
  | object => exact absurd rfl other
  | literal | list => rfl

mutual

theorem renderJudged {depth : Nat} : (node : Clause) →
    (node.kind ≠ .object → depth ≤ limits.maxDepth) →
    Judged False (limits.maxDepth < depth + node.nest) (render limits depth node)
  | .literal text, within => .passes id (Nat.not_lt.2 (within nofun))
  | .list items, within => (renderItemsJudged (within nofun) items).map _
  | .object entries, _ => by
    unfold render
    refine ((checkJudged limits depth _).bind fun _ passed =>
      (renderEntriesJudged (Limits.checkPasses.1 passed) entries).map _).congr ?_ ?_
    · rw [or_false]
    · rw [nest]
      omega

theorem renderItemsJudged {depth : Nat} (within : depth ≤ limits.maxDepth) :
    (items : List Clause) →
    Judged False (limits.maxDepth < depth + nestOfItems items) (renderItems limits depth items)
  | [] => .passes id (Nat.not_lt.2 within)
  | item :: rest =>
    ((renderJudged item fun _ => within).both (renderItemsJudged within rest) _).congr
      or_self_iff deepItems

theorem renderEntriesJudged {depth : Nat} (within : depth ≤ limits.maxDepth) :
    (entries : List (String × Clause)) →
    Judged False (limits.maxDepth < depth + nestOfEntries entries)
      (renderEntries limits depth entries)
  | [] => .passes id (Nat.not_lt.2 within)
  | (key, predicate) :: rest => by
    have later := renderEntriesJudged within rest
    have here : Judged False _ (render limits (predicateDepth depth predicate) predicate) :=
      renderJudged predicate fun other => (predicateDepthOther other).trans_le within
    unfold renderEntries
    refine Judged.congr ?_ or_self_iff deepEntries
    exact (here.congr Iff.rfl (deepPredicate limits depth predicate)).both later _

end

theorem dependenciesJudged (query : Clause) (limits : Limits) (depth : Nat) :
    Judged query.Misplaced (limits.maxDepth < depth + query.nest)
      (query.dependencies limits depth) :=
  (scanJudged query).map Names.ofList

theorem sqlJudged (query : Clause) (limits : Limits) :
    Judged False (limits.maxDepth < query.nest) (query.sql limits) := by
  have judged : Judged False _ (query.render limits 0) := renderJudged query fun _ => Nat.zero_le _
  rw [Nat.zero_add] at judged
  exact judged.map _

theorem ceilingShared (query : Clause) (limits : Limits) (depth : Nat) :
    IsGreatest { steps | ∃ node, Descent query steps node } query.nest ∧
    ((∃ found, query.dependencies limits depth = .ok found) ↔
      query.kind = .object ∧ ¬ query.Crowded ∧ depth + query.nest ≤ limits.maxDepth) ∧
    (∀ fault, query.dependencies limits depth = .error fault →
      (fault.isTooDeep = true ∨ fault.isFormat = true) ∧
      (fault.isFormat = true → query.kind ≠ .object ∨ query.Crowded) ∧
      (fault.isTooDeep = true → limits.maxDepth < depth + query.nest)) ∧
    ((∃ text, query.sql limits = .ok text) ↔ query.nest ≤ limits.maxDepth) ∧
    (∀ fault, query.sql limits = .error fault → fault.isTooDeep = true) ∧
    ∀ found, query.dependencies limits 0 = .ok found → ∃ text, query.sql limits = .ok text := by
  have scanned := fun depth => dependenciesJudged query limits depth
  have translated := sqlJudged query limits
  have accepted : ∀ depth, (∃ found, query.dependencies limits depth = .ok found) ↔
      query.kind = .object ∧ ¬ query.Crowded ∧ depth + query.nest ≤ limits.maxDepth := by
    intro depth
    rw [(scanned depth).succeeds, Misplaced, not_or, not_not, Nat.not_lt, and_assoc]
  have rendered : (∃ text, query.sql limits = .ok text) ↔ query.nest ≤ limits.maxDepth := by
    rw [translated.succeeds, not_false_iff, true_and, Nat.not_lt]
  refine ⟨nestGreatest query, accepted depth, fun fault failed => (scanned depth).fault failed,
    rendered, fun fault failed => ?_, fun found ran => ?_⟩
  · obtain ⟨cause, formed, -⟩ := translated.fault failed
    exact cause.resolve_right formed
  · have within := ((accepted 0).1 ⟨found, ran⟩).2.2
    rw [Nat.zero_add] at within
    exact rendered.2 within

end TablePlan.Clause
