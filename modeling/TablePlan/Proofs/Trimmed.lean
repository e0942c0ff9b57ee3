import TablePlan.Proofs.Sequence
import TablePlan.Text.Blank
/-! Trimmed text, said without the way in which it is found: a text is cut in three, the outer parts
are blank, and the part between them neither starts nor ends with a blank. -/
namespace TablePlan.Text

variable {text name front back : List Char}

structure Trimmed (text name : List Char) : Prop where
  cut : ∃ front back, text = front ++ (name ++ back) ∧ (∀ c ∈ front, isBlank c = true) ∧
    ∀ c ∈ back, isBlank c = true
  starts : ∀ c, name.head? = some c → isBlank c = false
  ends : ∀ c, name.getLast? = some c → isBlank c = false

theorem trimStartPast (blank : ∀ c ∈ front, isBlank c = true)
    (starts : ∀ c, name.head? = some c → isBlank c = false) : trimStart (front ++ name) = name :=
  Run.drop ⟨blank, starts⟩

theorem trimEndPast (blank : ∀ c ∈ back, isBlank c = true)
    (ends : ∀ c, name.getLast? = some c → isBlank c = false) : trimEnd (name ++ back) = name := by
  have turned : trimStart (back.reverse ++ name.reverse) = name.reverse :=
    trimStartPast (by simpa using blank) (by simpa using ends)
  rw [trimEnd, List.reverse_append, turned, List.reverse_reverse]

theorem trimStartCut (text : List Char) : ∃ front, text = front ++ trimStart text ∧
    (∀ c ∈ front, isBlank c = true) ∧
    ∀ c, (trimStart text).head? = some c → isBlank c = false := by
  obtain ⟨blank, starts⟩ := Run.longest isBlank text
  exact ⟨_, List.takeWhile_append_dropWhile.symm, blank, starts⟩

theorem trimTrimmed (text : List Char) : Trimmed text (trim text) := by
  obtain ⟨front, cut, blank, starts⟩ := trimStartCut text
  obtain ⟨back, turned, blankBack, ends⟩ := trimStartCut (trimStart text).reverse
  have whole : trimStart text = trim text ++ back.reverse := by
    rw [trim, trimEnd, ← List.reverse_append, ← turned, List.reverse_reverse]
  refine ⟨⟨front, back.reverse, whole ▸ cut, blank, by simpa using blankBack⟩, ?_, ?_⟩
  · intro c first
    refine starts c ?_
    rw [whole, List.head?_append, first, Option.some_or]
  · intro c last
    rw [trim, trimEnd, List.getLast?_reverse] at last
    exact ends c last

theorem trimExact : trim text = name ↔ Trimmed text name := by
  constructor
  · intro same
    exact same ▸ trimTrimmed text
  · intro trimmed
    obtain ⟨front, back, cut, blank, blankBack⟩ := trimmed.cut
    cases name with
    | nil =>
      have blanks : trimStart (front ++ back ++ []) = [] :=
        trimStartPast (by simpa [or_imp, forall_and] using ⟨blank, blankBack⟩) (by simp)
      rw [List.append_nil] at blanks
      rw [trim, cut, List.nil_append, blanks]
      rfl
    | cons c rest =>
      have starts := trimmed.starts c rfl
      rw [trim, cut, trimStartPast blank (by simpa using starts)]
      exact trimEndPast blankBack trimmed.ends

end TablePlan.Text
