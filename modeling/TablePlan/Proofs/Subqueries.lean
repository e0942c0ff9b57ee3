import TablePlan.Proofs.Parts
/-! The text of a query as a subquery: what it is alone, in parentheses, and under as much of the
ceiling as is left where the subquery stands. -/
namespace TablePlan

variable {ceiling depth levels : Nat}

def Fault.lowered (levels : Nat) : Fault → Fault
  | .tooDeep (.translation depth) limit => .tooDeep (.translation (depth + levels)) (limit + levels)
  | fault => fault

theorem checkLowered :
    Limits.check ⟨ceiling + levels⟩ (depth + levels) (.translation (depth + levels)) =
    (Limits.check ⟨ceiling⟩ depth (.translation depth)).mapError (Fault.lowered levels) := by
  simp only [Limits.check, Nat.add_lt_add_iff_right]
  split <;> rfl

namespace Clause

theorem predicateDepthLowered (predicate : Clause) :
    predicateDepth (depth + levels) predicate = predicateDepth depth predicate + levels := by
  cases predicate <;> simp [predicateDepth, Nat.add_right_comm]

mutual

theorem renderLowered (depth : Nat) : (node : Clause) →
    render ⟨ceiling + levels⟩ (depth + levels) node =
      (render ⟨ceiling⟩ depth node).mapError (Fault.lowered levels)
  | .literal _ => rfl
  | .list items => by
    rw [render, render, renderItemsLowered depth items, mapErrorBind]
    rfl
  | .object entries => by
    rw [render, render, checkLowered, renderEntriesLowered depth entries, mapErrorBind]
    simp only [mapErrorBind]
    rfl

theorem renderItemsLowered (depth : Nat) : (items : List Clause) →
    renderItems ⟨ceiling + levels⟩ (depth + levels) items =
      (renderItems ⟨ceiling⟩ depth items).mapError (Fault.lowered levels)
  | [] => rfl
  | item :: rest => by
    rw [renderItems, renderItems, renderLowered depth item, renderItemsLowered depth rest]
    simp only [mapErrorBind]
    rfl

theorem renderEntriesLowered (depth : Nat) : (entries : List (String × Clause)) →
    renderEntries ⟨ceiling + levels⟩ (depth + levels) entries =
      (renderEntries ⟨ceiling⟩ depth entries).mapError (Fault.lowered levels)
  | [] => rfl
  | (key, predicate) :: rest => by
    rw [renderEntries, renderEntries, predicateDepthLowered, renderLowered _ predicate,
      renderEntriesLowered depth rest]
    simp only [mapErrorBind]
    rfl

end

variable {limits : Limits} {entries : List (String × Clause)} {text : List Char} {source : String}

def enclosed (source : String) : List Char := '(' :: source.toList ++ [')', '\n']

theorem textAlone : ItemText limits 0 (.object entries) text ↔
    ∃ source, sql limits (.object entries) = .ok source ∧ text = enclosed source := by
  rw [objectText]
  simp only [sqlOfObject]
  constructor
  · intro ⟨_, lines, each, same⟩
    exact ⟨_, ⟨lines, each, rfl⟩, by simp [enclosed, ← same]⟩
  · intro ⟨source, ⟨lines, each, spelled⟩, same⟩
    exact ⟨Nat.zero_le _, lines, each, by simp [same, enclosed, ← spelled]⟩

theorem objectLowered (within : depth ≤ limits.maxDepth) : render limits depth (.object entries) =
    (render ⟨limits.maxDepth - depth⟩ 0 (.object entries)).mapError (Fault.lowered depth) := by
  have lowered := @renderLowered (limits.maxDepth - depth) depth 0 (.object entries)
  rwa [Nat.sub_add_cancel within, Nat.zero_add] at lowered

theorem textBelow (within : depth ≤ limits.maxDepth) :
    ItemText limits depth (.object entries) text ↔
      ∃ source, sql ⟨limits.maxDepth - depth⟩ (.object entries) = .ok source ∧
        text = enclosed source := by
  rw [ItemText, objectLowered within, mapErrorOk]
  exact textAlone

theorem faultBelow {fault : Fault} (within : depth ≤ limits.maxDepth)
    (failed : sql ⟨limits.maxDepth - depth⟩ (.object entries) = .error fault) :
    render limits depth (.object entries) = .error (fault.lowered depth) := by
  rw [sql, bindError] at failed
  rw [objectLowered within]
  rcases failed with failed | ⟨_, _, passed⟩
  · rw [failed]
    rfl
  · cases passed

theorem subqueriesCompose (entries : List (String × Clause)) (within : depth ≤ limits.maxDepth) :
    ((∃ text, ItemText limits depth (.object entries) text) ↔
      ∃ source, sql ⟨limits.maxDepth - depth⟩ (.object entries) = .ok source) ∧
    (∀ text source, ItemText limits depth (.object entries) text →
      sql ⟨limits.maxDepth - depth⟩ (.object entries) = .ok source → text = enclosed source) ∧
    (∀ fault, sql ⟨limits.maxDepth - depth⟩ (.object entries) = .error fault →
      render limits depth (.object entries) = .error (fault.lowered depth)) ∧
    ∀ text, ItemText limits 0 (.object entries) text → ∃ lines,
      List.Forall₂ (EntryText limits 0) entries lines ∧
      text = '(' :: joinLines lines ++ [')', '\n'] ∧
      sql limits (.object entries) = .ok (String.ofList (joinLines lines)) := by
  refine ⟨⟨?_, ?_⟩, ?_, fun fault failed => faultBelow within failed, ?_⟩
  · intro ⟨text, ran⟩
    obtain ⟨source, alone, _⟩ := (textBelow within).1 ran
    exact ⟨source, alone⟩
  · intro ⟨source, alone⟩
    exact ⟨_, (textBelow within).2 ⟨source, alone, rfl⟩⟩
  · intro text source ran alone
    obtain ⟨other, again, same⟩ := (textBelow within).1 ran
    cases alone.symm.trans again
    exact same
  · intro text ran
    obtain ⟨_, lines, each, same⟩ := objectText.1 ran
    exact ⟨lines, each, same.symm, sqlOfObject.2 ⟨lines, each, rfl⟩⟩

def bracketed : List (String × Clause) :=
  [("(SELECT", .literal "(X)\n"), ("FROM", .list [.object [], .literal "routes)"]),
    ("JOIN#1", .object [("FROM", .literal "(plants)\n)")])]

theorem bracketedComposes :
    let source := "(SELECT (X)\nFROM ()\n, routes)\nJOIN (FROM (plants)\n))\n"
    1 ≤ 2 ∧ sql ⟨1⟩ (.object bracketed) = .ok source ∧
      ItemText ⟨2⟩ 1 (.object bracketed) (enclosed source) ∧
      sql ⟨0⟩ (.object bracketed) = .error (.tooDeep (.translation 1) 0) ∧
      render ⟨1⟩ 1 (.object bracketed) = .error (.tooDeep (.translation 2) 1) := by
  intro source
  have alone : sql ⟨1⟩ (.object bracketed) = .ok source := by decide +kernel
  have failed : sql ⟨0⟩ (.object bracketed) = .error (.tooDeep (.translation 1) 0) := by
    decide +kernel
  obtain ⟨succeeds, same, _, _⟩ := @subqueriesCompose 1 ⟨2⟩ bracketed (by decide)
  obtain ⟨_, _, fails, _⟩ := @subqueriesCompose 1 ⟨1⟩ bracketed (by decide)
  obtain ⟨text, ran⟩ := succeeds.2 ⟨source, alone⟩
  cases same text source ran alone
  exact ⟨by decide, alone, ran, failed, fails _ failed⟩

end Clause
end TablePlan
