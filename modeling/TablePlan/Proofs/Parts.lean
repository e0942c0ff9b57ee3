import TablePlan.Clause.Sql
import TablePlan.Proofs.Nesting
import TablePlan.Proofs.Sequence
/-! The parts that the SQL text of a clause is put together from: the text of each item of a list,
and for each entry of an object its directive and the text of its predicate. The text of a node
stands, as it is, in the text of every node above it. -/
namespace TablePlan.Clause

theorem byMembers {motive : Clause → Prop} (literal : ∀ text, motive (.literal text))
    (list : ∀ items, (∀ item ∈ items, motive item) → motive (.list items))
    (object : ∀ entries, (∀ entry ∈ entries, motive entry.2) → motive (.object entries))
    (query : Clause) : motive query :=
  @Clause.rec motive (fun items => ∀ item ∈ items, motive item)
    (fun entries => ∀ entry ∈ entries, motive entry.2) (fun entry => motive entry.2)
    literal list object
    nofun (fun _ _ head tail => List.forall_mem_cons.2 ⟨head, tail⟩)
    nofun (fun _ _ head tail => List.forall_mem_cons.2 ⟨head, tail⟩)
    (fun _ _ below => below) query

variable {limits : Limits} {depth steps : Nat} {query node : Clause} {items : List Clause}
  {entries : List (String × Clause)} {text sofar : List Char} {texts lines : List (List Char)}

def ItemText (limits : Limits) (depth : Nat) (item : Clause) (text : List Char) : Prop :=
  item.render limits depth = .ok text

def EntryText (limits : Limits) (depth : Nat) (entry : String × Clause) (line : List Char) :
    Prop :=
  ∃ text, ItemText limits (predicateDepth depth entry.2) entry.2 text ∧
    line = (directiveOf entry.1).toList ++ ' ' :: text

theorem renderItemsExact : renderItems limits depth items = .ok texts ↔
    List.Forall₂ (ItemText limits depth) items texts := by
  induction items generalizing texts with
  | nil =>
    rw [List.forall₂_nil_left_iff]
    exact ⟨fun ran => by cases ran; rfl, fun same => by rw [same]; rfl⟩
  | cons item rest ih =>
    rw [renderItems, List.forall₂_cons_left_iff]
    constructor
    · intro ran
      obtain ⟨text, here, ran⟩ := bindOk.1 ran
      obtain ⟨others, later, last⟩ := bindOk.1 ran
      cases last
      exact ⟨text, others, here, ih.1 later, rfl⟩
    · rintro ⟨text, others, here, later, rfl⟩
      exact bindOk.2 ⟨text, here, bindOk.2 ⟨others, ih.2 later, rfl⟩⟩

theorem renderEntriesExact : renderEntries limits depth entries = .ok lines ↔
    List.Forall₂ (EntryText limits depth) entries lines := by
  induction entries generalizing lines with
  | nil =>
    rw [List.forall₂_nil_left_iff]
    exact ⟨fun ran => by cases ran; rfl, fun same => by rw [same]; rfl⟩
  | cons entry rest ih =>
    rw [renderEntries, List.forall₂_cons_left_iff]
    constructor
    · intro ran
      obtain ⟨text, here, ran⟩ := bindOk.1 ran
      obtain ⟨others, later, last⟩ := bindOk.1 ran
      cases last
      exact ⟨_, others, ⟨text, here, rfl⟩, ih.1 later, rfl⟩
    · rintro ⟨line, others, ⟨text, here, same⟩, later, rfl⟩
      rw [same]
      exact bindOk.2 ⟨text, here, bindOk.2 ⟨others, ih.2 later, rfl⟩⟩

theorem literalText {source : String} :
    ItemText limits depth (.literal source) text ↔ literalSql source.toList = text := by
  rw [ItemText, render, Except.ok.injEq]

theorem listText : ItemText limits depth (.list items) text ↔
    ∃ texts, List.Forall₂ (ItemText limits depth) items texts ∧
      joinItems [] texts ++ ['\n'] = text := by
  rw [ItemText, render, bindOk]
  simp only [renderItemsExact, pure, Except.pure, Except.ok.injEq]

theorem objectText : ItemText limits depth (.object entries) text ↔
    depth ≤ limits.maxDepth ∧ ∃ lines, List.Forall₂ (EntryText limits depth) entries lines ∧
      '(' :: joinLines lines ++ [')', '\n'] = text := by
  rw [ItemText, render, bindOk]
  simp only [bindOk, renderEntriesExact, pure, Except.pure, Except.ok.injEq]
  constructor
  · rintro ⟨_, passed, rest⟩
    exact ⟨Limits.checkPasses.1 passed, rest⟩
  · rintro ⟨low, rest⟩
    exact ⟨(), Limits.checkPasses.2 low, rest⟩

theorem outerDropped (text : List Char) :
    inner (dropLast '\n' ('(' :: text ++ [')', '\n'])) = text := by
  have closed : '(' :: text ++ [')', '\n'] = ('(' :: text ++ [')']) ++ ['\n'] := by simp
  rw [dropLast, closed, if_pos List.getLast?_concat, List.dropLast_concat, List.cons_append]
  simp only [inner, List.getLast?_concat, List.dropLast_concat, if_true]

theorem sqlOfObject {source : String} : sql limits (.object entries) = .ok source ↔
    ∃ lines, List.Forall₂ (EntryText limits 0) entries lines ∧
      String.ofList (joinLines lines) = source := by
  rw [sql, bindOk]
  constructor
  · rintro ⟨text, ran, last⟩
    obtain ⟨_, lines, each, rfl⟩ := objectText.1 ran
    refine ⟨lines, each, ?_⟩
    simp only [kind, if_true, outerDropped] at last
    exact Except.ok.inj last
  · rintro ⟨lines, each, rfl⟩
    refine ⟨_, objectText.2 ⟨Nat.zero_le _, lines, each, rfl⟩, ?_⟩
    simp only [kind, if_true, outerDropped]
    rfl

theorem joinItemsCons {second : List Char} {rest : List (List Char)} :
    joinItems sofar (text :: second :: rest) =
      joinItems (sofar ++ text ++ gap (sofar ++ text)) (second :: rest) := rfl

theorem joinItemsExtends : sofar <+: joinItems sofar texts := by
  induction texts generalizing sofar with
  | nil => exact List.prefix_rfl
  | cons text rest ih =>
    cases rest with
    | nil => exact List.prefix_append _ _
    | cons second rest =>
      rw [joinItemsCons, List.append_assoc]
      exact (List.prefix_append _ _).trans ih

theorem itemWithin (member : text ∈ texts) : text <:+: joinItems sofar texts := by
  induction texts generalizing sofar with
  | nil => cases member
  | cons head rest ih =>
    cases rest with
    | nil =>
      rw [List.mem_singleton.1 member]
      exact (List.suffix_append _ _).isInfix
    | cons second rest =>
      rw [joinItemsCons]
      rcases List.mem_cons.1 member with rfl | later
      · exact (List.infix_append _ _ _).trans joinItemsExtends.isInfix
      · exact ih later

theorem joinLinesCons {line second : List Char} {rest : List (List Char)} :
    joinLines (line :: second :: rest) =
      line ++ (if endsLine line then [] else ['\n']) ++ joinLines (second :: rest) := rfl

theorem lineWithin {line : List Char} (member : line ∈ lines) : line <:+: joinLines lines := by
  induction lines with
  | nil => cases member
  | cons head rest ih =>
    cases rest with
    | nil => exact List.mem_singleton.1 member ▸ List.infix_rfl
    | cons second rest =>
      rw [joinLinesCons]
      rcases List.mem_cons.1 member with rfl | later
      · rw [List.append_assoc]
        exact (List.prefix_append _ _).isInfix
      · exact (ih later).trans (List.suffix_append _ _).isInfix

theorem lastLineEnds {line : List Char} (last : lines.getLast? = some line) :
    line <:+ joinLines lines := by
  induction lines with
  | nil => cases last
  | cons head rest ih =>
    cases rest with
    | nil =>
      cases last
      exact List.suffix_rfl
    | cons second rest => exact (ih last).trans (List.suffix_append _ _)

theorem entryWithin {entry : String × Clause}
    (each : List.Forall₂ (EntryText limits depth) entries lines) (member : entry ∈ entries) :
    ∃ text, ItemText limits (predicateDepth depth entry.2) entry.2 text ∧
      text <:+: joinLines lines := by
  obtain ⟨_, inside, text, here, same⟩ := relatedRight each.flip member
  refine ⟨text, here, .trans ?_ (lineWithin inside)⟩
  rw [same]
  exact (List.suffix_append_of_suffix (List.suffix_cons _ _)).isInfix

theorem renderedWithin (descent : Descent query steps node)
    (ran : ItemText limits depth query text) :
    ∃ below part, ItemText limits below node part ∧ part <:+: text := by
  induction descent generalizing depth text with
  | here => exact ⟨depth, text, ran, List.infix_rfl⟩
  | item member _ ih =>
    obtain ⟨texts, each, rfl⟩ := listText.1 ran
    obtain ⟨text, inside, here⟩ := relatedRight each.flip member
    obtain ⟨below, part, found, within⟩ := ih here
    exact ⟨below, part, found,
      (within.trans (itemWithin inside)).trans (List.prefix_append _ _).isInfix⟩
  | entry member _ ih =>
    obtain ⟨_, lines, each, rfl⟩ := objectText.1 ran
    obtain ⟨text, here, inside⟩ := entryWithin each member
    obtain ⟨below, part, found, within⟩ := ih here
    exact ⟨below, part, found, (within.trans inside).trans ⟨['('], [')', '\n'], rfl⟩⟩

end TablePlan.Clause
