import TablePlan.Proofs.Parts
/-! What the text of a query says: but for separators it is the directives and the literals of the
query, each once and in order. Whatever is put between the parts of a node, or around them, is a
separator. -/
namespace TablePlan

namespace Clause

variable {limits : Limits} {depth : Nat} {query : Clause} {items : List Clause}
  {entries : List (String × Clause)} {text sofar : List Char} {texts lines : List (List Char)}
  {source : String} {c : Char}

mutual

def words : Clause → List String
  | .literal text => [text]
  | .list items => wordsOfItems items
  | .object entries => wordsOfEntries entries

def wordsOfItems : List Clause → List String
  | [] => []
  | item :: rest => item.words ++ wordsOfItems rest

def wordsOfEntries : List (String × Clause) → List String
  | [] => []
  | (key, predicate) :: rest => directiveOf key :: (predicate.words ++ wordsOfEntries rest)

end

theorem wordsList : words (.list items) = items.flatMap words := by
  rw [words]
  induction items with
  | nil => rfl
  | cons item rest ih => rw [wordsOfItems, ih, List.flatMap_cons]

theorem wordsObject : words (.object entries) =
    entries.flatMap fun entry => directiveOf entry.1 :: entry.2.words := by
  rw [words]
  induction entries with
  | nil => rfl
  | cons entry rest ih => rw [wordsOfEntries, ih, List.flatMap_cons, List.cons_append]

def separators : List Char := [' ', '\n', ',', '(', ')']

def content (text : List Char) : List Char := text.filter fun c => c ∉ separators

def wording (query : Clause) : List Char := query.words.flatMap fun word => content word.toList

theorem wordingList : wording (.list items) = items.flatMap wording := by
  rw [wording, wordsList, List.flatMap_assoc]
  rfl

theorem wordingObject : wording (.object entries) =
    entries.flatMap fun entry => content (directiveOf entry.1).toList ++ entry.2.wording := by
  rw [wording, wordsObject, List.flatMap_assoc]
  rfl

theorem contentAppend (front back : List Char) :
    content (front ++ back) = content front ++ content back :=
  List.filter_append ..

theorem contentSeparator (separates : c ∈ separators) : content (c :: text) = content text := by
  simp [content, separates]

theorem contentLast (separates : c ∈ separators) : content (text ++ [c]) = content text := by
  simp [content, separates]

theorem separatedContent (text : List Char) : content (separateComments text) = content text := by
  induction text using separateComments.induct with
  | case1 rest ih => exact congrArg (content comment ++ ·) ih
  | case2 c rest other ih =>
    rw [separateComments.eq_2 c rest other]
    simp only [content, List.filter_cons] at ih ⊢
    rw [ih]
  | case3 => rfl

theorem literalContent (text : List Char) : content (literalSql text) = content text := by
  unfold literalSql
  split
  · rfl
  · exact separatedContent text

theorem gapContent (sofar : List Char) : content (gap sofar) = [] := by
  unfold gap
  split <;> rfl

theorem joinItemsContent : content (joinItems sofar texts) =
    content sofar ++ texts.flatMap content := by
  induction texts generalizing sofar with
  | nil => simp [joinItems]
  | cons text rest ih =>
    cases rest with
    | nil => simp [joinItems, contentAppend]
    | cons second rest =>
      rw [joinItemsCons, ih]
      simp [contentAppend, gapContent]

theorem joinLinesContent : content (joinLines lines) = lines.flatMap content := by
  induction lines with
  | nil => rfl
  | cons line rest ih =>
    cases rest with
    | nil => simp [joinLines]
    | cons second rest =>
      have ending : content (if endsLine line then [] else ['\n']) = [] := by split <;> rfl
      rw [joinLinesCons, contentAppend, contentAppend, ih, ending, List.append_nil]
      rfl

theorem renderContent (ran : ItemText limits depth query text) : content text = query.wording := by
  induction query using byMembers generalizing depth text with
  | literal source =>
    rw [← literalText.1 ran, literalContent]
    simp [wording, words]
  | list items ih =>
    obtain ⟨texts, each, rfl⟩ := listText.1 ran
    have same := relatedFlat each fun item member text ran => ih item member ran
    rw [contentLast (by decide), joinItemsContent, wordingList, ← same]
    rfl
  | object entries ih =>
    obtain ⟨_, lines, each, rfl⟩ := objectText.1 ran
    have spelled : ∀ entry ∈ entries, ∀ line, EntryText limits depth entry line →
        content line = content (directiveOf entry.1).toList ++ entry.2.wording := by
      intro entry member line ⟨text, ran, same⟩
      rw [same, contentAppend, contentSeparator (by decide), ih entry member ran]
    rw [List.append_cons, contentLast (by decide), contentLast (by decide),
      contentSeparator (by decide), joinLinesContent, wordingObject, relatedFlat each spelled]

theorem dropLastContent (separates : c ∈ separators) :
    content (dropLast c text) = content text := by
  unfold dropLast
  split
  · rename_i last
    obtain ⟨front, rfl⟩ := List.getLast?_eq_some_iff.1 last
    rw [List.dropLast_concat, contentLast separates]
  · rfl

theorem innerContent (text : List Char) : content (inner text) = content text := by
  unfold inner
  split
  · rename_i rest
    split
    · rename_i last
      obtain ⟨front, rfl⟩ := List.getLast?_eq_some_iff.1 last
      rw [List.dropLast_concat, contentSeparator (by decide), contentLast (by decide)]
    · rfl
  · rfl

theorem sqlContent (ran : query.sql limits = .ok source) :
    content source.toList = content (query.words.flatMap String.toList) := by
  obtain ⟨text, rendered, last⟩ := bindOk.1 ran
  have whole : content (dropLast '\n' text) = query.wording :=
    (dropLastContent (by decide)).trans (renderContent rendered)
  have words : content (query.words.flatMap String.toList) = query.wording :=
    List.filter_flatMap ..
  cases last
  rw [String.toList_ofList, words, ← whole]
  split
  · exact innerContent _
  · rfl

def spelledOut : Clause :=
  .object [("SELECT#1", .list [.literal "(X) -- STRING", .literal "Y, Z -- DOUBLE"]),
    ("FROM", .list [.object [("FROM#", .literal "routes")], .literal "stock"])]

theorem spelledOutContent :
    let source := "SELECT (X), -- STRING\nY, Z, -- DOUBLE\nFROM (FROM routes)\n, stock\n"
    spelledOut.sql {} = .ok source ∧
      content source.toList =
        content "SELECT(X) -- STRINGY, Z -- DOUBLEFROMFROMroutesstock".toList := by
  intro source
  have ran : spelledOut.sql {} = .ok source := by decide +kernel
  exact ⟨ran, sqlContent ran⟩

end Clause
end TablePlan
