import TablePlan.Proofs.Sequence
import TablePlan.Schema.Annotation
/-! Line comments in a text. A comment runs from its two dashes to the end of its line, so a text
whose lines hold nothing behind a comment but a type is one in which every comment is a type that
the end of a line follows, and such texts can be put together wherever no dash meets a dash. -/
namespace TablePlan

def Annotation.IsName (word : List Char) : Prop :=
  word.head?.any startsName = true ∧ ∀ c ∈ word, continuesName c = true

instance {word : List Char} : Decidable ( Annotation.IsName word) :=
  @instDecidableAnd _ _ inferInstance (List.decidableBAll _ word)

namespace Text

variable {known : List Char → Prop} {text front back before after line rest type : List Char}

theorem nameWithout {c : Char} (named : Annotation.IsName type)
    (other : Annotation.continuesName c = false) : c ∉ type :=
  fun inside => Bool.false_ne_true (other.symm.trans (named.2 c inside))

theorem typeWithout {c : Char} (named : Annotation.IsName type)
    (other : Annotation.continuesName c = false) (shown : c ≠ ' ') : c ∉ ' ' :: type :=
  List.not_mem_cons_of_ne_of_not_mem shown (nameWithout named other)

def Bare (text : List Char) : Prop := ¬ ['-', '-'] <:+: text

instance : Decidable (Bare text) := inferInstanceAs (Decidable (¬ _))

def Plain (text : List Char) : Prop := '\n' ∉ text ∧ Bare text

instance : Decidable (Plain text) := inferInstanceAs (Decidable (_ ∧ _))

theorem Plain.left (plain : Plain (front ++ back)) : Plain front :=
  ⟨fun inside => plain.1 (List.mem_append_left _ inside),
    fun inside => plain.2 (List.infix_append_of_infix_left inside)⟩

def Apart (front back : List Char) : Prop := front.getLast? = some '-' → back.head? ≠ some '-'

theorem dashesAppend (apart : Apart front back)
    (cut : front ++ back = before ++ '-' :: '-' :: after) :
    (∃ rest, front = before ++ '-' :: '-' :: rest ∧ after = rest ++ back) ∨
      ∃ rest, before = front ++ rest ∧ back = rest ++ '-' :: '-' :: after := by
  rcases cutAppend cut with ⟨rest, rfl, same⟩ | right
  · cases rest with
    | nil =>
      rw [List.nil_append] at same
      exact absurd (congrArg List.head? same.symm) (apart List.getLast?_concat)
    | cons c rest =>
      cases same
      exact .inl ⟨rest, rfl, rfl⟩
  · exact .inr right

theorem bareAppend (left : Bare front) (right : Bare back) (apart : Apart front back) :
    Bare (front ++ back) := by
  rintro ⟨before, after, same⟩
  rw [List.append_assoc] at same
  rcases dashesAppend apart same.symm with ⟨rest, rfl, _⟩ | ⟨rest, _, rfl⟩
  · exact left ⟨before, rest, List.append_assoc _ _ _⟩
  · exact right ⟨rest, after, List.append_assoc _ _ _⟩

theorem lastDashes (clean : '-' ∉ back) (cut : '-' :: '-' :: back = before ++ '-' :: '-' :: after) :
    before = [] ∧ after = back := by
  match before, cut with
  | [], cut =>
    cases cut
    exact ⟨rfl, rfl⟩
  | [_], cut =>
    cases cut
    exact absurd (.head _) clean
  | _ :: _ :: before, cut =>
    cases cut
    exact absurd (List.mem_append_right _ (.head _)) clean

theorem onlyDashes (bare : Bare front) (ends : front.getLast? ≠ some '-')
    (clean : '-' ∉ back) (cut : front ++ '-' :: '-' :: back = before ++ '-' :: '-' :: after) :
    before = front ∧ after = back := by
  rcases dashesAppend (fun last => absurd last ends) cut with ⟨rest, rfl, _⟩ | ⟨rest, rfl, later⟩
  · exact absurd ⟨before, rest, List.append_assoc _ _ _⟩ bare
  · obtain ⟨rfl, rfl⟩ := lastDashes clean later
    exact ⟨List.append_nil _, rfl⟩

/-- Every comment is a known type, and its line ends with it. -/
def Terminated (known : List Char → Prop) (text : List Char) : Prop :=
  ∀ before after, text = before ++ '-' :: '-' :: after →
    ∃ type rest, known type ∧ after = ' ' :: (type ++ '\n' :: rest)

theorem terminatedBare (bare : Bare text) : Terminated known text := by
  rintro before after rfl
  exact absurd ⟨before, after, List.append_assoc _ _ _⟩ bare

theorem terminatedComment (bare : Bare front) (ends : front.getLast? ≠ some '-')
    (clean : '-' ∉ type) (held : known type) :
    Terminated known (front ++ '-' :: '-' :: ' ' :: (type ++ ['\n'])) := by
  intro before after cut
  obtain ⟨_, rfl⟩ := onlyDashes bare ends (by simp [clean]) cut
  exact ⟨type, [], held, rfl⟩

theorem Terminated.append (left : Terminated known front) (right : Terminated known back)
    (apart : Apart front back) : Terminated known (front ++ back) := by
  intro before after cut
  rcases dashesAppend apart cut with ⟨rest, same, rfl⟩ | ⟨rest, rfl, same⟩
  · obtain ⟨type, tail, held, rfl⟩ := left before rest same
    exact ⟨type, tail ++ back, held, by simp⟩
  · exact right rest after same

theorem Terminated.later (whole : Terminated known (front ++ back)) : Terminated known back := by
  rintro before after rfl
  exact whole (front ++ before) after (List.append_assoc _ _ _).symm

theorem Terminated.ended (whole : Terminated known text) : Terminated known (text ++ ['\n']) :=
  whole.append (terminatedBare (by decide)) fun _ => by decide

theorem Terminated.typed (named : ∀ type, known type → Annotation.IsName type)
    (whole : Terminated known (line ++ '\n' :: rest)) (clean : '\n' ∉ line)
    (cut : line = before ++ '-' :: '-' :: after) : ∃ type, known type ∧ after = ' ' :: type := by
  have later : '\n' ∉ after := fun inside => clean (by simp [cut, inside])
  obtain ⟨type, tail, held, same⟩ := whole before (after ++ '\n' :: rest) (by simp [cut])
  have other : '\n' ∉ ' ' :: type := typeWithout (named type held) (by decide) (by decide)
  exact ⟨type, held, (cutFirst later other same).1⟩

theorem lineTypes (named : ∀ type, known type → Annotation.IsName type) (clean : '\n' ∉ line) :
    Terminated known (line ++ ['\n']) ↔ ∀ before after, line = before ++ '-' :: '-' :: after →
      ∃ type, known type ∧ after = ' ' :: type := by
  constructor
  · exact fun whole _ _ => whole.typed named clean
  · intro types before after same
    rcases dashesAppend (fun _ => by decide) same with ⟨tail, here, rfl⟩ | ⟨tail, _, later⟩
    · obtain ⟨type, held, rfl⟩ := types before tail here
      exact ⟨type, [], held, rfl⟩
    · have long := congrArg List.length later
      simp only [List.length_append, List.length_cons, List.length_nil] at long
      omega

theorem terminatedLines (named : ∀ type, known type → Annotation.IsName type)
    (clean : '\n' ∉ line) : Terminated known (line ++ '\n' :: rest) ↔
      Terminated known (line ++ ['\n']) ∧ Terminated known rest := by
  have cut : line ++ '\n' :: rest = (line ++ ['\n']) ++ rest := by simp
  constructor
  · exact fun whole =>
      ⟨(lineTypes named clean).2 fun _ _ => whole.typed named clean, (cut ▸ whole).later⟩
  · rintro ⟨first, later⟩
    rw [cut]
    exact first.append later fun last => by simp at last

structure OneComment (known : List Char → Prop) (line : List Char) : Prop where
  once : ∀ before after front back, line = before ++ '-' :: '-' :: after →
    line = front ++ '-' :: '-' :: back → before = front
  type : ∀ before after, line = before ++ '-' :: '-' :: after →
    ∃ type, known type ∧ after = ' ' :: type

theorem oneCommentExact (named : ∀ type, known type → Annotation.IsName type)
    (clean : '\n' ∉ line) : OneComment known line ↔ Terminated known (line ++ ['\n']) := by
  rw [lineTypes named clean]
  refine ⟨OneComment.type, fun types => ⟨?_, types⟩⟩
  intro before after front back here also
  have bare : ∀ type, known type → '-' ∉ ' ' :: type := fun type held =>
    typeWithout (named type held) (by decide) (by decide)
  obtain ⟨one, held, rfl⟩ := types before after here
  obtain ⟨other, alike, rfl⟩ := types front back also
  rcases List.append_eq_append_iff.1 (here.symm.trans also) with ⟨_, rfl, later⟩ | ⟨_, rfl, later⟩
  · rw [(lastDashes (bare one held) later).1, List.append_nil]
  · rw [(lastDashes (bare other alike) later).1, List.append_nil]

theorem linesExact (named : ∀ type, known type → Annotation.IsName type) (text : List Char) :
    (∀ line ∈ text.splitOn '\n', OneComment known line) ↔ Terminated known (text ++ ['\n']) := by
  by_cases inside : '\n' ∈ text
  · obtain ⟨line, rest, same, clean⟩ := List.eq_append_cons_of_mem inside
    have shorter : rest.length < text.length := by simp [same]; omega
    have cut := @terminatedLines known line (rest ++ ['\n']) named clean
    rw [same, List.splitOn_append_cons_self_of_not_mem clean, List.forall_mem_cons,
      linesExact named rest, oneCommentExact named clean, List.append_assoc, List.cons_append, cut]
  · rw [List.splitOn_eq_singleton inside, List.forall_mem_singleton, oneCommentExact named inside]
termination_by text.length

theorem Terminated.unclosed (named : ∀ type, known type → Annotation.IsName type)
    (whole : Terminated known text) (name : Annotation.IsName type) :
    ¬ '-' :: '-' :: ' ' :: (type ++ [')']) <:+: text := by
  rintro ⟨before, after, rfl⟩
  obtain ⟨other, rest, held, same⟩ := whole before (' ' :: (type ++ ')' :: after)) (by simp)
  have ends := cutOnce name.2 (named other held).2 (by decide) (by decide) (List.cons.inj same).2
  exact absurd ends.2.1 (by decide)

end Text
end TablePlan
