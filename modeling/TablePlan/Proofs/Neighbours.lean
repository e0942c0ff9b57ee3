import Mathlib.Data.List.Induction
import TablePlan.Proofs.Comments
/-! What parts the neighbours in a list of tables and subqueries. It is a comma as long as nothing
in the list has a comma before a comment; from there on it is the end of a line alone, for the comma
that this relies on belongs to the selection of a subquery, and ends inside of its parentheses. -/
namespace TablePlan

namespace Text

variable {text front back : List Char}

/-- The text ends in a comment, whose line is not at its end. -/
def Commented (text : List Char) : Prop :=
  ∃ front back, text = front ++ '-' :: '-' :: back ∧ '\n' ∉ back

theorem bareUncommented (bare : Bare text) : ¬ Commented text := by
  rintro ⟨front, back, rfl, _⟩
  exact bare ⟨front, back, List.append_assoc _ _ _⟩

theorem commentedAppend (apart : Apart front back) (commented : Commented (front ++ back)) :
    Commented front ∨ Commented back := by
  obtain ⟨before, after, cut, running⟩ := commented
  rcases dashesAppend apart cut with ⟨rest, same, rfl⟩ | ⟨rest, _, same⟩
  · exact .inl ⟨before, rest, same, fun inside => running (List.mem_append_left _ inside)⟩
  · exact .inr ⟨rest, after, same, running⟩

theorem endedUncommented : ¬ Commented (text ++ ['\n']) := by
  rintro ⟨front, back, cut, running⟩
  rcases dashesAppend (fun _ => by decide) cut with ⟨rest, _, rfl⟩ | ⟨rest, _, same⟩
  · exact running (List.mem_append_right _ (.head _))
  · exact absurd ⟨rest, back, (same.trans (List.append_assoc rest ['-', '-'] back).symm).symm⟩
      (by decide : Bare ['\n'])

end Text

namespace Clause

open Text

variable {limits : Limits} {depth : Nat} {query item : Clause} {items : List Clause}
  {text front next whole sofar : List Char} {texts : List (List Char)}

theorem joinItemsConcat (filled : texts ≠ []) : joinItems sofar (texts ++ [next]) =
    joinItems sofar texts ++ gap (joinItems sofar texts) ++ next := by
  induction texts generalizing sofar with
  | nil => exact absurd rfl filled
  | cons text rest ih =>
    cases rest with
    | nil => rfl
    | cons second rest => exact ih (List.cons_ne_nil _ _)

theorem joinItemsPrefix {more : List (List Char)} :
    joinItems sofar texts <+: joinItems sofar (texts ++ more) := by
  induction texts generalizing sofar with
  | nil => exact joinItemsExtends
  | cons text rest ih =>
    cases rest with
    | cons second rest => exact ih
    | nil =>
      cases more with
      | nil => exact List.prefix_rfl
      | cons second more =>
        rw [List.singleton_append, joinItemsCons]
        exact (List.prefix_append _ _).trans joinItemsExtends

structure Enclosed (text : List Char) : Prop where
  starts : ¬ ['-', '-'] <+: text
  ends : ¬ Commented text

def Source (item : Clause) : Prop :=
  (∃ name, item = .literal name ∧ Bare name.toList) ∨ ∃ entries, item = .object entries

theorem sourceEnclosed (source : item.Source) (ran : ItemText limits depth item text) :
    Enclosed text := by
  rcases source with ⟨name, rfl, bare⟩ | ⟨entries, rfl⟩
  · rw [← literalText.1 ran, bareSql bare]
    exact ⟨fun starts => bare starts.isInfix, bareUncommented bare⟩
  · obtain ⟨_, lines, _, rfl⟩ := objectText.1 ran
    refine ⟨fun starts => by simp at starts, ?_⟩
    have ended : '(' :: joinLines lines ++ [')', '\n'] =
        '(' :: joinLines lines ++ [')'] ++ ['\n'] := by simp
    rw [ended]
    exact endedUncommented

theorem gapExact (front : List Char) : gap front = ['\n'] ∨ gap front = [',', ' '] := by
  unfold gap
  split
  · exact .inl rfl
  · exact .inr rfl

theorem gapBare (front : List Char) : Bare (gap front) ∧ Apart front (gap front) := by
  rcases gapExact front with same | same <;> rw [same] <;> exact ⟨by decide, fun _ => by decide⟩

-- What is chosen for a gap depends on all texts before it, so the last text is taken off.
theorem joinItemsUncommented (each : ∀ text ∈ texts, Enclosed text) :
    ¬ Commented (joinItems [] texts) := by
  induction texts using List.reverseRecOn with
  | nil => exact bareUncommented (by decide)
  | append_singleton rest text ih =>
    obtain ⟨earlier, last⟩ := List.forall_mem_append.1 each
    have ends := (last text (.head _)).ends
    by_cases filled : rest = []
    · rwa [filled, List.nil_append, joinItems, List.nil_append]
    · obtain ⟨bare, apart⟩ := gapBare (joinItems [] rest)
      rw [joinItemsConcat filled]
      intro commented
      rcases commentedAppend (fun dash => absurd dash (gapEnds _)) commented with before | inside
      · exact (commentedAppend apart before).elim (ih earlier) (bareUncommented bare)
      · exact ends inside

theorem separatedCut {left right : List Char} (filled : left ≠ []) (more : right ≠ [])
    (cut : separatedComment = left ++ right) :
    (left = [','] ∧ right = comment) ∨ (left = [',', ' '] ∧ right = ['-', '-']) ∨
      (left = [',', ' ', '-'] ∧ right = ['-']) := by
  match left, cut with
  | [_], cut => cases cut; exact .inl ⟨rfl, rfl⟩
  | [_, _], cut => cases cut; exact .inr (.inl ⟨rfl, rfl⟩)
  | [_, _, _], cut => cases cut; exact .inr (.inr ⟨rfl, rfl⟩)
  | [_, _, _, _], cut => cases cut; exact absurd rfl more

theorem separatedJoined (starts : ¬ ['-', '-'] <+: next) :
    separatedComment <:+: front ++ gap front ++ next ↔
      separatedComment <:+: front ∨ separatedComment <:+: next := by
  rw [List.infix_append_iff_ne_nil, List.infix_append_iff_ne_nil]
  constructor
  · rintro ((held | within | ⟨left, right, filled, more, cut, _, begins⟩) | held |
      ⟨left, right, filled, more, cut, ⟨before, same⟩, begins⟩)
    · exact .inl held
    · rcases gapExact front with same | same <;> exact absurd (same ▸ within) (by decide)
    · rcases separatedCut filled more cut with ⟨_, rfl⟩ | ⟨_, rfl⟩ | ⟨_, rfl⟩ <;>
        rcases gapExact front with same | same <;> exact absurd (same ▸ begins) (by decide)
    · exact .inr held
    · have last := congrArg List.getLast? same
      rcases separatedCut filled more cut with ⟨rfl, _⟩ | ⟨_, rfl⟩ | ⟨rfl, _⟩
      · rcases gapExact front with gapped | gapped <;> simp [gapped] at last
      · exact absurd begins starts
      · exact absurd (last.symm.trans (by simp)) (gapEnds front)
  · rintro (held | held)
    · exact .inl (.inl held)
    · exact .inr (.inl held)

theorem joinItemsSeparated (each : ∀ text ∈ texts, Enclosed text) :
    separatedComment <:+: joinItems [] texts ↔ ∃ text ∈ texts, separatedComment <:+: text := by
  induction texts using List.reverseRecOn with
  | nil => exact ⟨fun held => absurd held (by decide), fun ⟨_, member, _⟩ => nomatch member⟩
  | append_singleton rest text ih =>
    obtain ⟨earlier, last⟩ := List.forall_mem_append.1 each
    by_cases filled : rest = []
    · simp [filled, joinItems]
    · rw [joinItemsConcat filled, separatedJoined (last text (.head _)).starts, ih earlier]
      simp [or_and_right, exists_or]

/-- Between a text and the next one stands a comma that is in no comment. -/
def Parted (front next whole : List Char) : Prop :=
  ∃ before after, whole = front ++ (before ++ ',' :: after) ++ next ∧ ¬ Commented (front ++ before)

theorem commaParts (comma : gap front = [',', ' ']) (ends : ¬ Commented front) :
    Parted front next (front ++ gap front ++ next) := by
  refine ⟨[], [' '], by rw [comma]; rfl, ?_⟩
  rwa [List.append_nil]

theorem partedExact (filled : texts ≠ []) (each : ∀ text ∈ texts, Enclosed text) :
    Parted (joinItems [] texts) next (joinItems [] (texts ++ [next])) ↔
      ∀ text ∈ texts, ¬ separatedComment <:+: text := by
  have held := joinItemsSeparated each
  rw [← partExact] at held
  rw [joinItemsConcat filled]
  constructor
  · rintro ⟨before, after, same, _⟩ text member annotated
    have line : gap (joinItems [] texts) = ['\n'] := if_pos (held.2 ⟨text, member, annotated⟩)
    have gapped := List.append_cancel_left (List.append_cancel_right same)
    have comma : ',' ∈ gap (joinItems [] texts) := gapped ▸ List.mem_append_right _ (.head _)
    rw [line] at comma
    exact absurd comma (by decide)
  · intro none
    have comma : gap (joinItems [] texts) = [',', ' '] := by
      refine if_neg fun annotated => ?_
      obtain ⟨text, member, annotated⟩ := held.1 annotated
      exact none text member annotated
    exact commaParts comma (joinItemsUncommented each)

section Annotated

variable {source : String}

theorem commentsSeparated (marked : comment <:+: text) :
    separatedComment <:+: separateComments text := by
  induction text using separateComments.induct with
  | case1 rest => exact List.infix_append [] separatedComment (separateComments rest)
  | case2 c rest other ih =>
    rw [separateComments.eq_2 c rest other]
    rcases List.infix_cons_iff.1 marked with ⟨later, same⟩ | inside
    · cases same
      exact absurd rfl (other later rfl)
    · exact List.infix_cons (ih inside)
  | case3 => exact absurd marked (by decide)

theorem literalSeparated (marked : comment <:+: text) : separatedComment <:+: literalSql text := by
  unfold literalSql
  split
  · rename_i parted
    exact partExact.1 parted
  · exact commentsSeparated marked

def Annotated (query : Clause) : Prop :=
  ∃ source, query.Contains (.literal source) ∧ comment <:+: source.toList

structure Unmarked (query : Clause) : Prop where
  literals : ∀ source, query.Contains (.literal source) → Bare source.toList
  directives : ∀ entries, query.Contains (.object entries) →
    ∀ entry ∈ entries, Bare (directiveOf entry.1).toList

theorem annotatedSeparated (annotated : query.Annotated) (ran : ItemText limits depth query text) :
    separatedComment <:+: text := by
  obtain ⟨source, ⟨_, below⟩, marked⟩ := annotated
  obtain ⟨_, part, found, within⟩ := renderedWithin below ran
  rw [← literalText.1 found] at within
  exact (literalSeparated marked).trans within

theorem Unmarked.within {node : Clause} (unmarked : query.Unmarked)
    (inside : query.Contains node) : node.Unmarked :=
  ⟨fun _ below => unmarked.literals _ (inside.trans below),
    fun _ below => unmarked.directives _ (inside.trans below)⟩

theorem bareExact : Bare text ↔ Terminated (fun _ => False) text := by
  refine ⟨terminatedBare, ?_⟩
  rintro whole ⟨before, after, rfl⟩
  obtain ⟨_, _, held, _⟩ := whole before after (List.append_assoc _ _ _)
  exact held

theorem unmarkedBare (unmarked : query.Unmarked) (ran : ItemText limits depth query text) :
    Bare text := by
  rw [bareExact]
  induction query using byMembers generalizing depth text with
  | literal source =>
    have bare := unmarked.literals source (.refl _)
    rw [← literalText.1 ran, bareSql bare]
    exact terminatedBare bare
  | list items ih =>
    obtain ⟨texts, each, rfl⟩ := listText.1 ran
    refine joinItemsTerminated (terminatedBare (by decide)) (by decide) fun text member => ?_
    obtain ⟨item, inside, ran⟩ := relatedRight each member
    exact .inl (ih item inside (unmarked.within (.ofItem inside (.refl _))) ran)
  | object entries ih =>
    obtain ⟨_, lines, each, rfl⟩ := objectText.1 ran
    have closed : ∀ line ∈ lines, Terminated (fun _ => False) line := by
      intro line member
      obtain ⟨entry, inside, text, ran, rfl⟩ := relatedRight each member
      have directive := unmarked.directives entries (.refl _) entry inside
      have named : Bare ((directiveOf entry.1).toList ++ [' ']) :=
        bareAppend directive (by decide) fun _ => by decide
      rw [← List.singleton_append, ← List.append_assoc]
      refine (terminatedBare named).append ?_ fun dash => by simp at dash
      exact ih entry inside (unmarked.within (.ofEntry inside (.refl _))) ran
    have tail : Terminated (fun _ => False) [')', '\n'] := terminatedBare (by decide)
    refine @Terminated.append _ ['('] _ (terminatedBare (by decide)) ?_ (by simp [Apart])
    refine joinLinesTerminated tail (fun line member => .inl (closed line member)) ?_
    intro line last
    exact (closed line (List.mem_of_getLast? last)).append tail fun _ => by decide

end Annotated

theorem textsUnseparated (each : List.Forall₂ (ItemText limits depth) items texts) :
    (∀ text ∈ texts, ¬ separatedComment <:+: text) ↔ ∀ item ∈ items, ∀ text,
      ItemText limits depth item text → ¬ separatedComment <:+: text := by
  constructor
  · intro none item inside text ran
    obtain ⟨other, member, same⟩ := relatedRight each.flip inside
    cases ran.symm.trans same
    exact none text member
  · intro none text member
    obtain ⟨item, inside, ran⟩ := relatedRight each member
    exact none item inside text ran

theorem neighboursParted {out : List Char} {before after : List Clause}
    (sources : ∀ item ∈ items, item.Source) (ran : ItemText limits depth (.list items) out)
    (cut : items = before ++ item :: after) (filled : before ≠ []) :
    ∃ front next whole, ItemText limits depth (.list before) (front ++ ['\n']) ∧
      ItemText limits depth item next ∧
      ItemText limits depth (.list (before ++ [item])) (whole ++ ['\n']) ∧ whole <+: out ∧
      (Parted front next whole ↔ ∀ other ∈ before, ∀ text, ItemText limits depth other text →
        ¬ separatedComment <:+: text) ∧
      (¬ Parted front next whole → whole = front ++ '\n' :: next) ∧
      ((∃ other ∈ before, other.Annotated) → ¬ Parted front next whole) ∧
      ((∀ other ∈ before, other.Unmarked) → Parted front next whole) := by
  obtain ⟨texts, each, rfl⟩ := listText.1 ran
  obtain ⟨first, later, rfl, early, late⟩ := relatedCut (cut ▸ each)
  obtain ⟨next, others, here, _, rfl⟩ := List.forall₂_cons_left_iff.1 late
  have some : first ≠ [] := fun empty => filled (List.forall₂_nil_right_iff.1 (empty ▸ early))
  have enclosed : ∀ text ∈ first, Enclosed text := by
    intro text member
    obtain ⟨other, inside, ran⟩ := relatedRight early member
    exact sourceEnclosed (sources other (cut ▸ List.mem_append_left _ inside)) ran
  have parted := (@partedExact next first some enclosed).trans (textsUnseparated early)
  refine ⟨joinItems [] first, next, joinItems [] (first ++ [next]), listText.2 ⟨first, early, rfl⟩,
    here, listText.2 ⟨first ++ [next], List.rel_append early (.cons here .nil), rfl⟩, ?_, parted,
    ?_, ?_, ?_⟩
  · rw [List.append_cons first next others]
    exact joinItemsPrefix.trans (List.prefix_append _ _)
  · rw [joinItemsConcat some]
    intro unparted
    rcases gapExact (joinItems [] first) with line | comma
    · rw [line, List.append_assoc, List.singleton_append]
    · exact absurd (commaParts comma (joinItemsUncommented enclosed)) unparted
  · rintro ⟨other, inside, annotated⟩ apart
    obtain ⟨text, _, ran⟩ := relatedRight early.flip inside
    exact parted.1 apart other inside text ran (annotatedSeparated annotated ran)
  · intro unmarked
    refine parted.2 fun other inside text ran separated => ?_
    exact unmarkedBare (unmarked other inside) ran (.trans ⟨[',', ' '], [], rfl⟩ separated)

def plantsOf (column : String) : Clause := .object [("SELECT", .list [.literal column])]

theorem plantsOfSource (column : String) : (plantsOf column).Source := .inr ⟨_, rfl⟩

def mixedSources : List Clause :=
  [.literal "plants", plantsOf "X -- STRING", .literal "routes"]

theorem mixedParted :
    let out := "plants, (SELECT X, -- STRING\n)\n\nroutes\n".toList
    (∀ item ∈ mixedSources, item.Source) ∧ ItemText {} 0 (.list mixedSources) out ∧
      (∃ front next whole, ItemText {} 0 (.list [.literal "plants"]) (front ++ ['\n']) ∧
        ItemText {} 0 (plantsOf "X -- STRING") next ∧ whole <+: out ∧ Parted front next whole) ∧
      ∃ front next whole,
        ItemText {} 0 (.list [.literal "plants", plantsOf "X -- STRING"]) (front ++ ['\n']) ∧
        ItemText {} 0 (.literal "routes") next ∧ whole <+: out ∧ ¬ Parted front next whole := by
  intro out
  have sources : ∀ item ∈ mixedSources, item.Source := by
    simp only [mixedSources, List.forall_mem_cons]
    exact ⟨.inl ⟨_, rfl, by decide +kernel⟩, plantsOfSource _,
      .inl ⟨_, rfl, by decide +kernel⟩, nofun⟩
  have ran : ItemText {} 0 (.list mixedSources) out := by
    unfold ItemText
    decide +kernel
  have unmarked : ∀ other ∈ [literal "plants"], other.Unmarked := by
    rw [List.forall_mem_singleton]
    refine ⟨fun source inside => ?_, fun entries inside => ?_⟩
    · cases literalContains.1 inside
      decide +kernel
    · cases literalContains.1 inside
  have annotated : (plantsOf "X -- STRING").Annotated :=
    ⟨"X -- STRING", .ofEntry (.head _) (.ofItem (.head _) (.refl _)), by decide +kernel⟩
  obtain ⟨front, next, whole, before, here, _, inside, _, _, _, parted⟩ :=
    @neighboursParted _ _ (plantsOf "X -- STRING") _ out [.literal "plants"] [.literal "routes"]
      sources ran rfl (by simp)
  obtain ⟨first, last, both, early, late, _, within, _, _, unparted, _⟩ :=
    @neighboursParted _ _ (.literal "routes") _ out [.literal "plants", plantsOf "X -- STRING"] []
      sources ran rfl (by simp)
  exact ⟨sources, ran, ⟨front, next, whole, before, here, inside, parted unmarked⟩,
    first, last, both, early, late, within, unparted ⟨_, .tail _ (.head _), annotated⟩⟩

theorem annotatedUnparted :
    (∀ item ∈ [plantsOf "X -- STRING", .literal "routes"], item.Source) ∧
      sql {} (.object [("FROM", .list [plantsOf "X", .literal "routes"])]) =
        .ok "FROM (SELECT X\n)\n, routes\n" ∧
      sql {} (.object [("FROM", .list [plantsOf "X -- STRING", .literal "routes"])]) =
        .ok "FROM (SELECT X, -- STRING\n)\n\nroutes\n" ∧
      ItemText {} 0 (.list [plantsOf "X -- STRING"])
        ("(SELECT X, -- STRING\n)\n".toList ++ ['\n']) ∧
      ItemText {} 0 (.literal "routes") "routes".toList ∧
      ItemText {} 0 (.list [plantsOf "X -- STRING", .literal "routes"])
        ("(SELECT X, -- STRING\n)\n\nroutes".toList ++ ['\n']) ∧
      ¬ Parted "(SELECT X, -- STRING\n)\n".toList "routes".toList
        "(SELECT X, -- STRING\n)\n\nroutes".toList := by
  refine ⟨?_, by decide +kernel, by decide +kernel, ?_, ?_, ?_, ?_⟩
  · simp only [List.forall_mem_cons]
    exact ⟨plantsOfSource _, .inl ⟨_, rfl, by decide +kernel⟩, nofun⟩
  · unfold ItemText
    decide +kernel
  · exact literalText.2 (by decide +kernel)
  · unfold ItemText
    decide +kernel
  · rintro ⟨before, after, same, _⟩
    have line : "(SELECT X, -- STRING\n)\n\nroutes".toList =
        "(SELECT X, -- STRING\n)\n".toList ++ ['\n'] ++ "routes".toList := by decide +kernel
    have gap := List.append_cancel_left (List.append_cancel_right (line.symm.trans same))
    have comma : ',' ∈ ['\n'] := gap ▸ List.mem_append_right before (.head after)
    exact absurd comma (by decide)

end Clause
end TablePlan
