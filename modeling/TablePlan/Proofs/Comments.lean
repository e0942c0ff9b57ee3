import TablePlan.Proofs.Dashes
import TablePlan.Proofs.Parts
/-! Type comments in the SQL text of a query. Each of them ends its line, and no line has two, save
where a subquery ends in a literal that has one: its closing parenthesis comes behind the comment,
since only a list ends the line of its last item. -/
namespace TablePlan.Clause

open Text

variable {limits : Limits} {depth : Nat} {query node item : Clause} {known : List Char → Prop}
  {key : String} {items : List Clause} {entries : List (String × Clause)}
  {text front type part sofar line : List Char} {texts lines : List (List Char)}

structure Labelled (front type text : List Char) : Prop where
  plain : Plain front
  named : Annotation.IsName type
  cut : text = front ++ (comment ++ ' ' :: type)

structure Tidy (query : Clause) : Prop where
  directives : ∀ entries, query.Contains (.object entries) →
    ∀ entry ∈ entries, Plain (directiveOf entry.1).toList
  literals : ∀ text, query.Contains (.literal text) →
    Plain text.toList ∨ ∃ front type, Labelled front type text.toList

def Annotates (query : Clause) (type : List Char) : Prop :=
  ∃ text front, query.Contains (.literal text) ∧ Labelled front type text.toList

/-- The last entry of an object is a literal with a comment. -/
def LeavesOpen (entries : List (String × Clause)) : Prop :=
  ∃ key text, entries.getLast? = some (key, .literal text) ∧ ¬ Bare text.toList

theorem Tidy.within (tidy : query.Tidy) (inside : query.Contains node) : node.Tidy :=
  ⟨fun _ below => tidy.directives _ (inside.trans below),
    fun _ below => tidy.literals _ (inside.trans below)⟩

theorem Annotates.within (inside : query.Contains node) (annotated : node.Annotates type) :
    query.Annotates type := by
  obtain ⟨text, front, below, labelled⟩ := annotated
  exact ⟨text, front, inside.trans below, labelled⟩

theorem tidyLiteral {source : String} : (literal source).Tidy ↔
    Plain source.toList ∨ ∃ front type, Labelled front type source.toList := by
  refine ⟨fun tidy => tidy.literals source (.refl _), fun neat => ⟨?_, ?_⟩⟩
  · intro entries inside
    cases literalContains.1 inside
  · intro text inside
    cases literalContains.1 inside
    exact neat

theorem tidyList : (list items).Tidy ↔ ∀ item ∈ items, item.Tidy := by
  refine ⟨fun tidy item member => tidy.within (.ofItem member (.refl _)), fun each => ⟨?_, ?_⟩⟩
  · intro entries inside
    obtain same | ⟨item, member, below⟩ := listContains.1 inside
    · cases same
    · exact (each item member).directives entries below
  · intro text inside
    obtain same | ⟨item, member, below⟩ := listContains.1 inside
    · cases same
    · exact (each item member).literals text below

theorem tidyObject : (object entries).Tidy ↔
    ∀ entry ∈ entries, Plain (directiveOf entry.1).toList ∧ entry.2.Tidy := by
  refine ⟨fun tidy entry member => ⟨tidy.directives entries (.refl _) entry member,
    tidy.within (.ofEntry member (.refl _))⟩, fun each => ⟨?_, ?_⟩⟩
  · intro inner inside
    obtain same | ⟨entry, member, below⟩ := objectContains.1 inside
    · cases same
      exact fun entry member => (each entry member).1
    · exact (each entry member).2.directives inner below
  · intro text inside
    obtain same | ⟨entry, member, below⟩ := objectContains.1 inside
    · cases same
    · exact (each entry member).2.literals text below

theorem annotatesName (annotated : query.Annotates type) : Annotation.IsName type := by
  obtain ⟨_, _, _, labelled⟩ := annotated
  exact labelled.named

section Literal

theorem partExact : hasPart part text = true ↔ part <:+: text := by
  induction text with
  | nil => simp [hasPart]
  | cons c rest ih =>
    rw [hasPart, Bool.or_eq_true, List.isPrefixOf_iff_prefix, ih, List.infix_cons_iff]

theorem separatedBare (bare : Bare text) : separateComments text = text := by
  induction text using separateComments.induct with
  | case1 rest => exact absurd ⟨[' '], rest, rfl⟩ bare
  | case2 c rest other ih =>
    rw [separateComments.eq_2 c rest other, ih fun inside => bare (List.infix_cons inside)]
  | case3 => rfl

theorem separatedFront (bare : Bare front) (rest : List Char) :
    separateComments (front ++ (comment ++ rest)) =
      front ++ (separatedComment ++ separateComments rest) := by
  induction front with
  | nil => rfl
  | cons c front ih =>
    have other : ∀ later, c = ' ' → front ++ (comment ++ rest) = '-' :: '-' :: later → False := by
      intro later _ same
      match front, same with
      | _ :: _ :: front, same =>
        cases same
        exact bare ⟨[c], front, rfl⟩
    rw [List.cons_append, separateComments.eq_2 c _ other,
      ih fun inside => bare (List.infix_cons inside), List.cons_append]

theorem bareSql (bare : Bare text) : literalSql text = text := by
  unfold literalSql
  split
  · rfl
  · exact separatedBare bare

theorem Labelled.sql (labelled : Labelled front type text) : ∃ before, Plain before ∧
    literalSql text = before ++ (separatedComment ++ ' ' :: type) := by
  have dashless : '-' ∉ ' ' :: type := typeWithout labelled.named (by decide) (by decide)
  unfold literalSql
  split
  · rename_i parted
    obtain ⟨before, after, same⟩ := partExact.1 parted
    have bare : Bare (front ++ [' ']) :=
      bareAppend labelled.plain.2 (by decide) fun _ => by decide
    have cut : (front ++ [' ']) ++ '-' :: '-' :: ' ' :: type =
        (before ++ [',', ' ']) ++ '-' :: '-' :: after := by
      simpa [labelled.cut, comment, separatedComment] using same.symm
    have ends : (before ++ [',']) ++ [' '] = front ++ [' '] := by
      simpa using (onlyDashes bare (by simp) dashless cut).1
    obtain rfl := List.append_cancel_right ends
    exact ⟨before, labelled.plain.left, by simp [labelled.cut, separatedComment]⟩
  · refine ⟨front, labelled.plain, ?_⟩
    have bare : Bare (' ' :: type) := fun inside => dashless (inside.subset (.head _))
    rw [labelled.cut, separatedFront labelled.plain.2, separatedBare bare]

end Literal

/-- A text whose last comment has yet to be given the end of its line. -/
structure Hangs (known : List Char → Prop) (text : List Char) : Prop where
  ended : Terminated known (text ++ ['\n'])
  parted : hasPart separatedComment text = true
  running : endsLine text = false

def Joins (known : List Char → Prop) (text : List Char) : Prop :=
  Terminated known text ∨ Hangs known text

theorem Joins.ended (joins : Joins known text) : Terminated known (text ++ ['\n']) :=
  joins.elim Terminated.ended Hangs.ended

theorem partWithin (parted : hasPart part text = true) (front : List Char) :
    hasPart part (front ++ text) = true :=
  partExact.2 ((partExact.1 parted).trans (List.suffix_append _ _).isInfix)

theorem Joins.behind (joins : Joins known text) (before : Terminated known front)
    (ends : front.getLast? ≠ some '-') : Joins known (front ++ text) := by
  have apart {back : List Char} : Apart front back := fun last => absurd last ends
  refine joins.imp (before.append · apart) fun hangs => ⟨?_, partWithin hangs.parted front, ?_⟩
  · rw [List.append_assoc]
    exact before.append hangs.ended apart
  · have filled : text ≠ [] := fun empty => by
      have parted := hangs.parted
      rw [empty] at parted
      exact absurd parted (by decide)
    have running := hangs.running
    rwa [endsLine, List.getLast?_append_of_ne_nil _ filled]

theorem Joins.gapped (joins : Joins known text) : Terminated known (text ++ gap text) := by
  unfold gap
  split
  · exact joins.ended
  · rename_i whole
    rcases joins with closed | hangs
    · exact closed.append (terminatedBare (by decide)) fun _ => by decide
    · exact absurd hangs.parted whole

theorem gapEnds (text : List Char) : (text ++ gap text).getLast? ≠ some '-' := by
  unfold gap
  split <;> simp

theorem joinItemsTerminated (start : Terminated known sofar) (ends : sofar.getLast? ≠ some '-')
    (each : ∀ text ∈ texts, Joins known text) :
    Terminated known (joinItems sofar texts ++ ['\n']) := by
  induction texts generalizing sofar with
  | nil => exact start.ended
  | cons text rest ih =>
    have first := (each text (.head _)).behind start ends
    cases rest with
    | nil => exact first.ended
    | cons second rest =>
      exact ih first.gapped (gapEnds _) fun text member => each text (.tail _ member)

theorem Joins.lined (joins : Joins known line) :
    Terminated known (line ++ if endsLine line then [] else ['\n']) := by
  split
  · rename_i last
    rcases joins with closed | hangs
    · rwa [List.append_nil]
    · exact absurd last (by simp [hangs.running])
  · exact joins.ended

theorem lineEnds (line : List Char) :
    (line ++ if endsLine line then [] else ['\n']).getLast? = some '\n' := by
  split
  · rename_i last
    rw [List.append_nil]
    exact of_decide_eq_true last
  · exact List.getLast?_concat

theorem joinLinesTerminated {tail : List Char} (closing : Terminated known tail)
    (each : ∀ line ∈ lines, Joins known line)
    (last : ∀ line, lines.getLast? = some line → Terminated known (line ++ tail)) :
    Terminated known (joinLines lines ++ tail) := by
  induction lines with
  | nil => exact closing
  | cons line rest ih =>
    cases rest with
    | nil => exact last line rfl
    | cons second rest =>
      rw [joinLinesCons, List.append_assoc]
      refine (each line (.head _)).lined.append ?_ fun dash =>
        absurd ((lineEnds line).symm.trans dash) (by decide)
      exact ih (fun line member => each line (.tail _ member)) last

theorem literalJoins {source : List Char}
    (neat : Plain source ∨ ∃ front type, Labelled front type source)
    (types : ∀ front type, Labelled front type source → known type) :
    Joins known (literalSql source) := by
  rcases neat with plain | ⟨front, type, labelled⟩
  · rw [bareSql plain.2]
    exact .inl (terminatedBare plain.2)
  · obtain ⟨before, plain, same⟩ := labelled.sql
    have bare : Bare (before ++ [',', ' ']) := bareAppend plain.2 (by decide) fun _ => by decide
    have ended : Terminated known (before ++ [',', ' '] ++ '-' :: '-' :: ' ' :: (type ++ ['\n'])) :=
      terminatedComment bare (by simp) (nameWithout labelled.named (by decide))
        (types front type labelled)
    rw [same]
    refine .inr ⟨by simpa [separatedComment, comment] using ended, ?_, ?_⟩
    · exact partExact.2 ⟨before, ' ' :: type, List.append_assoc _ _ _⟩
    · have newline : '\n' ∉ separatedComment ++ ' ' :: type := by
        simp [separatedComment, comment, nameWithout labelled.named (c := '\n') (by decide)]
      rw [endsLine, List.getLast?_append_of_ne_nil _ (by simp)]
      exact decide_eq_false fun last => newline (List.mem_of_getLast? last)

theorem hangingLiteral (hangs : Hangs known text) (ran : ItemText limits depth node text) :
    ∃ source, node = .literal source ∧ ¬ Bare source.toList := by
  have running := hangs.running
  cases node with
  | literal source =>
    refine ⟨source, rfl, fun bare => ?_⟩
    have whole := partExact.1 hangs.parted
    rw [← literalText.1 ran, bareSql bare] at whole
    exact bare (.trans ⟨[',', ' '], [], rfl⟩ whole)
  | list items =>
    obtain ⟨texts, _, rfl⟩ := listText.1 ran
    rw [endsLine, List.getLast?_append_of_ne_nil _ (by simp)] at running
    exact absurd running (by decide)
  | object entries =>
    obtain ⟨_, lines, _, rfl⟩ := objectText.1 ran
    rw [endsLine, List.getLast?_append_of_ne_nil _ (by simp)] at running
    exact absurd running (by decide)

section Lines

variable {entry : String × Clause} (tidy : (object entries).Tidy)
  (joins : ∀ entry ∈ entries, ∀ depth text, ItemText limits depth entry.2 text → Joins known text)
  (each : List.Forall₂ (EntryText limits depth) entries lines)
include tidy

theorem directiveTerminated (member : entry ∈ entries) :
    Terminated known ((directiveOf entry.1).toList ++ [' ']) :=
  have plain := tidy.directives entries (.refl _) entry member
  terminatedBare (bareAppend plain.2 (by decide) fun _ => by decide)

include joins each

theorem linesJoin : ∀ line ∈ lines, Joins known line := by
  intro line member
  obtain ⟨entry, inside, text, ran, same⟩ := relatedRight each member
  rw [same, ← List.singleton_append, ← List.append_assoc]
  exact (joins entry inside _ text ran).behind (directiveTerminated tidy inside) (by simp)

theorem lastLineTerminated (closed : ¬ LeavesOpen entries) (last : lines.getLast? = some line) :
    Terminated known line := by
  obtain ⟨⟨key, predicate⟩, lastEntry, text, ran, same⟩ := relatedLast each.flip last
  have inside := List.mem_of_getLast? lastEntry
  rw [same, ← List.singleton_append, ← List.append_assoc]
  rcases joins _ inside _ text ran with terminated | hangs
  · exact (directiveTerminated tidy inside).append terminated fun dash => by simp at dash
  · obtain ⟨source, rfl, marked⟩ := hangingLiteral hangs ran
    exact absurd ⟨key, source, lastEntry, marked⟩ closed

end Lines

theorem renderJoins (tidy : query.Tidy) (types : ∀ type, query.Annotates type → known type)
    (closed : ∀ inner, query.Contains (.object inner) → ¬ LeavesOpen inner) (node : Clause) :
    query.Contains node → ∀ depth text, ItemText limits depth node text → Joins known text := by
  induction node using byMembers with
  | literal source =>
    intro inside depth text ran
    rw [← literalText.1 ran]
    exact literalJoins (tidy.literals source inside) fun front type labelled =>
      types type ⟨source, front, inside, labelled⟩
  | list items ih =>
    intro inside depth text ran
    obtain ⟨texts, each, rfl⟩ := listText.1 ran
    refine .inl (joinItemsTerminated (terminatedBare (by decide)) (by decide) ?_)
    intro text member
    obtain ⟨item, below, ran⟩ := relatedRight each member
    exact ih item below (inside.trans (.ofItem below (.refl _))) depth text ran
  | object entries ih =>
    intro inside depth text ran
    obtain ⟨_, lines, each, rfl⟩ := objectText.1 ran
    have joins := fun entry below => ih entry below (inside.trans (.ofEntry below (.refl _)))
    have within := tidy.within inside
    refine .inl (@Terminated.append known ['('] _ (terminatedBare (by decide)) ?_ (by simp [Apart]))
    refine joinLinesTerminated (terminatedBare (by decide)) (linesJoin within joins each) ?_
    intro line last
    have terminated := lastLineTerminated within joins each (closed _ inside) last
    exact terminated.append (terminatedBare (by decide)) fun _ => by decide

theorem openUnclosed (tidy : (object entries).Tidy) (opened : LeavesOpen entries)
    (ran : ItemText limits depth (.object entries) text) :
    ∃ type, Annotation.IsName type ∧ '-' :: '-' :: ' ' :: (type ++ [')']) <:+: text := by
  obtain ⟨key, source, last, marked⟩ := opened
  obtain ⟨_, lines, each, rfl⟩ := objectText.1 ran
  obtain ⟨line, lastLine, text, ran, spelled⟩ := relatedLast each last
  rcases tidy.literals source (.ofEntry (List.mem_of_getLast? last) (.refl _)) with
    plain | ⟨front, type, labelled⟩
  · exact absurd plain.2 marked
  obtain ⟨before, _, same⟩ := labelled.sql
  obtain ⟨first, whole⟩ := lastLineEnds lastLine
  rw [spelled, ← literalText.1 ran, same] at whole
  refine ⟨type, labelled.named,
    '(' :: first ++ (directiveOf key).toList ++ ' ' :: before ++ [',', ' '], ['\n'], ?_⟩
  rw [← whole]
  simp [separatedComment, comment]

theorem commentsEndLines {source : String} (tidy : (object entries).Tidy)
    (ran : sql limits (.object entries) = .ok source) :
    (∀ line ∈ source.toList.splitOn '\n', OneComment (object entries).Annotates line) ↔
      ∀ entry ∈ entries, ∀ inner, entry.2.Contains (.object inner) → ¬ LeavesOpen inner := by
  obtain ⟨lines, each, rfl⟩ := sqlOfObject.1 ran
  rw [String.toList_ofList, linesExact fun _ => annotatesName]
  constructor
  · intro whole entry member inner inside opened
    obtain ⟨text, rendered, within⟩ := entryWithin each member
    obtain ⟨_, below⟩ := inside
    obtain ⟨_, part, found, inText⟩ := renderedWithin below rendered
    obtain ⟨type, named, unclosed⟩ :=
      openUnclosed (tidy.within (.ofEntry member ⟨_, below⟩)) opened found
    refine whole.unclosed (fun _ => annotatesName) named (unclosed.trans ?_)
    exact (inText.trans within).trans (List.prefix_append _ _).isInfix
  · intro closed
    have joins : ∀ entry ∈ entries, ∀ depth text, ItemText limits depth entry.2 text →
        Joins (object entries).Annotates text := by
      intro entry member
      have inside := Contains.ofEntry member (.refl entry.2)
      exact renderJoins (tidy.within inside) (fun _ => Annotates.within inside)
        (closed entry member) entry.2 (.refl _)
    refine joinLinesTerminated (terminatedBare (by decide)) (linesJoin tidy joins each) ?_
    exact fun line last => (linesJoin tidy joins each line (List.mem_of_getLast? last)).ended

def annotatedLists : List (String × Clause) :=
  [("FROM", .object [("SELECT", .list [.literal "X -- STRING"])]), ("SELECT", .literal "Y -- TIME")]

theorem labelledX : Labelled ['X'] "STRING".toList "X -- STRING".toList :=
  ⟨by decide, by decide, by decide⟩

theorem annotatedListsEnd : (object annotatedLists).Tidy ∧
    sql {} (.object annotatedLists) = .ok "FROM (SELECT X, -- STRING\n)\nSELECT Y, -- TIME" ∧
    ∀ line ∈ "FROM (SELECT X, -- STRING\n)\nSELECT Y, -- TIME".toList.splitOn '\n',
      OneComment (object annotatedLists).Annotates line := by
  have tidy : (object annotatedLists).Tidy := by
    simp only [annotatedLists, tidyObject, tidyList, tidyLiteral, List.forall_mem_cons,
      List.not_mem_nil, false_implies, implies_true, and_true]
    exact ⟨⟨by decide +kernel, by decide +kernel, .inr ⟨_, _, labelledX⟩⟩, by decide +kernel,
      .inr ⟨['Y'], "TIME".toList, by decide, by decide, by decide⟩⟩
  have ran : sql {} (.object annotatedLists) =
      .ok "FROM (SELECT X, -- STRING\n)\nSELECT Y, -- TIME" := by decide +kernel
  refine ⟨tidy, ran, (commentsEndLines tidy ran).2 ?_⟩
  simp [annotatedLists, objectContains, listContains, literalContains, LeavesOpen]

def annotatedEnd : List (String × Clause) :=
  [("FROM", .object [("SELECT", .literal "X -- STRING")])]

theorem annotatedEndSwallows : (object annotatedEnd).Tidy ∧
    sql {} (.object annotatedEnd) = .ok "FROM (SELECT X, -- STRING)\n" ∧
    ¬ ∀ line ∈ "FROM (SELECT X, -- STRING)\n".toList.splitOn '\n',
      OneComment (object annotatedEnd).Annotates line := by
  refine ⟨?_, by decide +kernel, fun each => ?_⟩
  · simp only [annotatedEnd, tidyObject, tidyLiteral, List.forall_mem_cons, List.not_mem_nil,
      false_implies, implies_true, and_true]
    exact ⟨by decide +kernel, by decide +kernel, .inr ⟨_, _, labelledX⟩⟩
  · have one := each "FROM (SELECT X, -- STRING)".toList (by decide)
    obtain ⟨type, held, same⟩ :=
      one.type "FROM (SELECT X, ".toList " STRING)".toList (by decide)
    have closing : ')' ∈ ' ' :: type := same ▸ (by decide)
    exact typeWithout (annotatesName held) (by decide) (by decide) closing

end TablePlan.Clause
