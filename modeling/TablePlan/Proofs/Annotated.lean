import TablePlan.Proofs.Dashes
import TablePlan.Proofs.Fields
import TablePlan.Proofs.Trimmed
/-! What an annotation is, said without the way in which it is found. A text ends in a name, blanks,
two dashes, blanks, the keyword of a type and blanks again, and of all names that end there the name
is the longest. A text can be cut like that in one way at most, and the name is the longest exactly
if no match of the pattern starts before it, so that a search from the left stops at it. -/
namespace TablePlan.Annotation

variable {c : Char} {text word name keyword front gap rest : List Char} {item : String}
  {field kind : String × FieldType}

theorem letterWithin (letter : c.isAlpha = true) :
    'A'.toNat ≤ c.toNat ∧ c.toNat ≤ 'z'.toNat := by
  rcases Bool.or_eq_true_iff.1 letter with upper | lower
  · obtain ⟨low, high⟩ : 'A'.val ≤ c.val ∧ c.val ≤ 'Z'.val := of_decide_eq_true upper
    rw [UInt32.le_iff_toNat_le] at low high
    exact ⟨low, Nat.le_trans high (by decide)⟩
  · obtain ⟨low, high⟩ := Bool.and_eq_true_iff.1 lower
    rw [decide_eq_true_iff, UInt32.le_iff_toNat_le] at high
    exact ⟨Nat.le_trans (by decide) (UInt32.le_iff_toNat_le.1 (of_decide_eq_true low)), high⟩

theorem digitExact : c.isDigit = true ↔ '0'.toNat ≤ c.toNat ∧ c.toNat ≤ '9'.toNat := by
  simp [Char.isDigit, UInt32.le_iff_toNat_le]

theorem startsWithin (starts : startsName c = true) :
    '$'.toNat ≤ c.toNat ∧ c.toNat ≤ 'z'.toNat ∧ c.isDigit = false := by
  simp only [startsName, Bool.or_eq_true, decide_eq_true_eq] at starts
  rcases starts with (letter | rfl) | rfl
  · obtain ⟨low, high⟩ := letterWithin letter
    have above : '9'.toNat < c.toNat := Nat.lt_of_lt_of_le (by decide) low
    have other : ¬ c.isDigit = true := fun digit => absurd (digitExact.1 digit).2 (by omega)
    exact ⟨Nat.le_trans (by decide) low, high, Bool.eq_false_iff.2 other⟩
  · decide
  · decide

theorem startsExact : startsName c = true ↔ continuesName c = true ∧ c.isDigit = false := by
  constructor
  · intro starts
    exact ⟨Bool.or_eq_true_iff.2 (.inl starts), (startsWithin starts).2.2⟩
  · rintro ⟨continues, other⟩
    exact (Bool.or_eq_true_iff.1 continues).resolve_right (by simp [other])

theorem continuesWithin (continues : continuesName c = true) :
    '$'.toNat ≤ c.toNat ∧ c.toNat ≤ 'z'.toNat := by
  rcases Bool.or_eq_true_iff.1 continues with starts | digit
  · exact ⟨(startsWithin starts).1, (startsWithin starts).2.1⟩
  · obtain ⟨low, high⟩ := digitExact.1 digit
    exact ⟨Nat.le_trans (by decide) low, Nat.le_trans high (by decide)⟩

theorem nameShown (continues : continuesName c = true) : Text.isBlank c = false := by
  have within := continuesWithin continues
  simp [Text.isBlank, Text.blankRanges] at within ⊢
  omega

theorem blankStops (blank : Text.isBlank c = true) : continuesName c = false := by
  cases continues : continuesName c with
  | false => rfl
  | true => exact absurd (blank.symm.trans (nameShown continues)) (by decide)

theorem nameStarts (named : IsName name) : ∃ c rest, name = c :: rest ∧ startsName c = true := by
  cases name with
  | nil => exact absurd named.1 (by decide)
  | cons c rest => exact ⟨c, rest, rfl, named.1⟩

theorem nameNonempty (named : IsName name) : name ≠ [] := by
  obtain ⟨c, rest, rfl, _⟩ := nameStarts named
  exact List.cons_ne_nil c rest

theorem nameOf (inside : ∀ c ∈ word, continuesName c = true)
    (starts : ∀ c, word.head? = some c → c.isDigit = false) (nonempty : word ≠ []) :
    IsName word := by
  refine ⟨?_, inside⟩
  cases word with
  | nil => exact absurd rfl nonempty
  | cons c rest => exact startsExact.2 ⟨inside c (.head _), starts c rfl⟩

theorem keywordNamed (type : FieldType) : IsName type.keyword.toList := by
  cases type <;> decide

/-- The name at the end of a text: its last word without the digits that this starts with. -/
def lastName (text : List Char) : List Char :=
  (text.reverse.takeWhile continuesName).reverse.dropWhile Char.isDigit

theorem lastNameWithin (text : List Char) : lastName text <:+ text := by
  have word : (text.reverse.takeWhile continuesName).reverse <:+ text :=
    List.reverse_prefix.1 (by simpa using List.takeWhile_prefix _)
  exact (List.dropWhile_suffix _).trans word

theorem lastNameIs (found : lastName text ≠ []) : IsName (lastName text) := by
  have digits := Run.longest Char.isDigit (text.reverse.takeWhile continuesName).reverse
  refine nameOf (fun c inside => ?_) digits.stops found
  have word := (List.dropWhile_sublist _).mem inside
  exact List.mem_takeWhile_imp (List.mem_reverse.1 word)

theorem lastNameLongest (ends : word <:+ text) (named : IsName word) : word <:+ lastName text := by
  obtain ⟨front, rfl⟩ := ends
  have whole : ∀ c ∈ word.reverse, continuesName c = true := by simpa using named.2
  rw [lastName, List.reverse_append, List.takeWhile_append_of_pos whole, List.reverse_append,
    List.reverse_reverse, List.dropWhile_append]
  split
  · obtain ⟨c, rest, rfl, starts⟩ := nameStarts named
    exact ⟨[], (List.dropWhile_cons_of_neg (by simp [(startsExact.1 starts).2])).symm⟩
  · exact List.suffix_append _ _

theorem lastNameExact : lastName text = name ∧ name ≠ [] ↔ name <:+ text ∧ IsName name ∧
    ∀ word, word <:+ text → IsName word → word.length ≤ name.length := by
  constructor
  · rintro ⟨rfl, found⟩
    exact ⟨lastNameWithin text, lastNameIs found,
      fun word ends named => (lastNameLongest ends named).length_le⟩
  · rintro ⟨ends, named, longest⟩
    have within := lastNameLongest ends named
    have found : lastName text ≠ [] := fun none =>
      nameNonempty named (List.suffix_nil.1 (none ▸ within))
    have short := longest _ (lastNameWithin text) (lastNameIs found)
    exact ⟨(within.eq_of_length_le short).symm, nameNonempty named⟩

structure IsGap (gap : List Char) : Prop where
  nonempty : gap ≠ []
  blank : ∀ c ∈ gap, Text.isBlank c = true

theorem someBlanksExact : someBlanks text = some rest ↔
    ∃ gap, IsGap gap ∧ Run Text.isBlank gap rest ∧ text = gap ++ rest := by
  cases text with
  | nil =>
    constructor
    · nofun
    · rintro ⟨gap, held, _, same⟩
      exact absurd (List.append_eq_nil_iff.1 same.symm).1 held.nonempty
  | cons c tail =>
    rw [someBlanks]
    constructor
    · intro found
      split at found
      · rename_i blank
        cases found
        have run := Run.longest Text.isBlank tail
        have inside : ∀ d ∈ c :: tail.takeWhile Text.isBlank, Text.isBlank d = true :=
          List.forall_mem_cons.2 ⟨blank, run.inside⟩
        refine ⟨_, ⟨List.cons_ne_nil _ _, inside⟩, ⟨inside, run.stops⟩, ?_⟩
        rw [List.cons_append, Text.trimStart, List.takeWhile_append_dropWhile]
      · cases found
    · rintro ⟨gap, held, run, same⟩
      cases gap with
      | nil => exact absurd rfl held.nonempty
      | cons d gap =>
        cases same
        obtain ⟨first, later⟩ := List.forall_mem_cons.1 run.inside
        rw [if_pos first]
        exact congrArg some (Text.trimStartPast later run.stops)

theorem findSteps : find? text = some (name, keyword) ↔ ∃ dashes rest,
    someBlanks ((Text.trimStart text.reverse).dropWhile continuesName) =
        some ('-' :: '-' :: dashes) ∧
      someBlanks dashes = some rest ∧
      ((Text.trimStart text.reverse).takeWhile continuesName).reverse = keyword ∧
      keyword.head?.any startsName = true ∧ lastName rest.reverse = name ∧ name ≠ [] := by
  unfold find?
  constructor
  · intro found
    obtain ⟨behind, parted, found⟩ := Option.bind_eq_some_iff.1 found
    split at found
    · rename_i dashes
      obtain ⟨rest, further, found⟩ := Option.bind_eq_some_iff.1 found
      dsimp only at found
      split at found
      · rename_i named
        cases found
        obtain ⟨word, shown⟩ := Bool.and_eq_true_iff.1 named
        refine ⟨dashes, rest, parted, further, rfl, word, ?_, by simpa using shown⟩
        rw [lastName, List.reverse_reverse]
      · cases found
    · cases found
  · rintro ⟨dashes, rest, parted, further, rfl, word, rfl, shown⟩
    rw [lastName, List.reverse_reverse] at shown ⊢
    simp only [parted, further, Option.bind_eq_bind, Option.bind_some, word, Bool.true_and]
    exact if_pos (by simpa using shown)

theorem blanksBehindName (named : IsName name) (blank : ∀ c ∈ gap, Text.isBlank c = true) :
    Run Text.isBlank gap.reverse (name.reverse ++ rest) := by
  refine ⟨by simpa using blank, fun c first => ?_⟩
  obtain ⟨d, tail, rfl, _⟩ := nameStarts named
  rw [List.head?_append_of_ne_nil _ (by simp)] at first
  exact nameShown (named.2 c (List.mem_reverse.1 (List.mem_of_head? first)))

theorem nameBehindGap (named : IsName name) (held : IsGap gap) :
    Run continuesName name.reverse (gap.reverse ++ rest) := by
  refine ⟨by simpa using named.2, fun c first => ?_⟩
  rw [List.head?_append_of_ne_nil _ (by simpa using held.nonempty)] at first
  exact blankStops (held.blank c (List.mem_reverse.1 (List.mem_of_head? first)))

theorem gapBehindDash (held : IsGap gap) : Run Text.isBlank gap.reverse ('-' :: rest) :=
  ⟨by simpa using held.blank, by simp +decide⟩

theorem IsGap.turned (held : IsGap gap) : IsGap gap.reverse :=
  ⟨by simpa using held.nonempty, by simpa using held.blank⟩

@[ext]
structure Cut where
  front : List Char
  name : List Char
  before : List Char
  after : List Char
  keyword : List Char
  back : List Char
  deriving DecidableEq, Repr

namespace Cut

variable {cut other : Cut}

def joined (cut : Cut) : List Char :=
  cut.front ++ cut.name ++ cut.before ++ ['-', '-'] ++ cut.after ++ cut.keyword ++ cut.back

structure Matches (cut : Cut) : Prop where
  name : IsName cut.name
  before : IsGap cut.before
  after : IsGap cut.after
  keyword : IsName cut.keyword
  back : ∀ c ∈ cut.back, Text.isBlank c = true

def Longest (cut : Cut) : Prop :=
  ∀ word, word <:+ cut.front ++ cut.name → IsName word → word.length ≤ cut.name.length

def Leftmost (cut : Cut) : Prop :=
  ∀ other : Cut, other.Matches → other.joined = cut.joined →
    cut.front.length ≤ other.front.length

/-- The text, cut like this, is an annotation of the field. -/
structure Spells (cut : Cut) (item : String) (field : String × FieldType) : Prop where
  whole : cut.joined = item.toList
  named : cut.name = field.1.toList
  name : IsName cut.name
  before : IsGap cut.before
  after : IsGap cut.after
  keyword : cut.keyword = field.2.keyword.toList
  back : ∀ c ∈ cut.back, Text.isBlank c = true
  longest : cut.Longest

theorem turned (cut : Cut) : cut.joined.reverse = cut.back.reverse ++ (cut.keyword.reverse ++
    (cut.after.reverse ++ '-' :: '-' :: (cut.before.reverse ++
      (cut.name.reverse ++ cut.front.reverse)))) := by
  simp [joined]

structure SameEnd (cut other : Cut) : Prop where
  named : cut.front ++ cut.name = other.front ++ other.name
  before : cut.before = other.before
  after : cut.after = other.after
  keyword : cut.keyword = other.keyword
  back : cut.back = other.back

theorem Matches.sameEnd (one : cut.Matches) (also : other.Matches)
    (same : cut.joined = other.joined) : SameEnd cut other := by
  have turned := congrArg List.reverse same
  rw [cut.turned, other.turned] at turned
  obtain ⟨back, turned⟩ := (blanksBehindName one.keyword one.back).once
    (blanksBehindName also.keyword also.back) turned
  obtain ⟨keyword, turned⟩ := (nameBehindGap one.keyword one.after).once
    (nameBehindGap also.keyword also.after) turned
  obtain ⟨after, turned⟩ := (gapBehindDash one.after).once (gapBehindDash also.after) turned
  obtain ⟨before, turned⟩ := (blanksBehindName one.name one.before.blank).once
    (blanksBehindName also.name also.before.blank) (List.cons.inj (List.cons.inj turned).2).2
  rw [← List.reverse_append, ← List.reverse_append] at turned
  exact ⟨List.reverse_injective turned, List.reverse_injective before,
    List.reverse_injective after, List.reverse_injective keyword, List.reverse_injective back⟩

theorem Matches.once (one : cut.Matches) (also : other.Matches) (same : cut.joined = other.joined)
    (longest : cut.Longest) (longer : other.Longest) : cut = other := by
  obtain ⟨named, before, after, keyword, back⟩ := one.sameEnd also same
  have lengths : cut.name.length = other.name.length := by
    refine Nat.le_antisymm (longer _ ?_ one.name) (longest _ ?_ also.name)
    · exact named ▸ List.suffix_append _ _
    · exact named ▸ List.suffix_append _ _
  obtain ⟨front, name⟩ := List.append_inj' named lengths
  exact Cut.ext front name before after keyword back

theorem leftmostExact (matched : cut.Matches) : cut.Leftmost ↔ cut.Longest := by
  constructor
  · rintro leftmost word ⟨front, same⟩ named
    have also : Matches { cut with front := front, name := word } := { matched with name := named }
    have starts := leftmost _ also (by simp [joined, same])
    have lengths := congrArg List.length same
    simp only [List.length_append] at lengths starts
    omega
  · intro longest other also same
    have named := (also.sameEnd matched same).named
    have ends : other.name <:+ cut.front ++ cut.name := named ▸ List.suffix_append _ _
    have short := longest _ ends also.name
    have lengths := congrArg List.length named
    simp only [List.length_append] at lengths
    omega

theorem longestExact (named : IsName cut.name) :
    cut.Longest ↔ lastName (cut.front ++ cut.name) = cut.name := by
  constructor
  · intro longest
    exact (lastNameExact.2 ⟨List.suffix_append _ _, named, longest⟩).1
  · intro last
    exact (lastNameExact.1 ⟨last, nameNonempty named⟩).2.2

theorem Matches.found (matched : cut.Matches) (longest : cut.Longest) :
    find? cut.joined = some (cut.name, cut.keyword) := by
  refine findSteps.2 ⟨cut.before.reverse ++ (cut.name.reverse ++ cut.front.reverse),
    cut.name.reverse ++ cut.front.reverse, ?_, ?_, ?_, matched.keyword.1, ?_,
    nameNonempty matched.name⟩
  · rw [turned, Text.trimStart, (blanksBehindName matched.keyword matched.back).drop,
      (nameBehindGap matched.keyword matched.after).drop]
    exact someBlanksExact.2 ⟨_, matched.after.turned, gapBehindDash matched.after, rfl⟩
  · exact someBlanksExact.2
      ⟨_, matched.before.turned, blanksBehindName matched.name matched.before.blank, rfl⟩
  · rw [turned, Text.trimStart, (blanksBehindName matched.keyword matched.back).drop,
      (nameBehindGap matched.keyword matched.after).take, List.reverse_reverse]
  · rw [← List.reverse_append, List.reverse_reverse]
    exact (longestExact matched.name).1 longest

end Cut

theorem foundCut (found : find? text = some (name, keyword)) : ∃ cut : Cut, cut.joined = text ∧
    cut.Matches ∧ cut.Longest ∧ cut.name = name ∧ cut.keyword = keyword := by
  obtain ⟨dashes, rest, parted, further, word, starts, last, shown⟩ := findSteps.1 found
  obtain ⟨blanks, turned, blank, _⟩ := Text.trimStartCut text.reverse
  generalize Text.trimStart text.reverse = behind at parted word turned
  obtain ⟨after, held, _, later⟩ := someBlanksExact.1 parted
  obtain ⟨before, also, _, rfl⟩ := someBlanksExact.1 further
  obtain ⟨⟨front, whole⟩, named, longest⟩ := lastNameExact.1 ⟨last, shown⟩
  have inside : ∀ c ∈ keyword, continuesName c = true := fun c inside =>
    List.mem_takeWhile_imp (List.mem_reverse.1 (word ▸ inside))
  refine ⟨⟨front, name, before.reverse, after.reverse, keyword, blanks.reverse⟩, ?_,
    ⟨named, also.turned, held.turned, ⟨starts, inside⟩, by simpa using blank⟩,
    fun word ends => longest word (whole ▸ ends), rfl, rfl⟩
  have cut := @List.takeWhile_append_dropWhile _ continuesName behind
  rw [later] at cut
  refine List.reverse_injective ?_
  rw [Cut.turned, turned, ← cut]
  simp only [← word, List.reverse_reverse, ← List.reverse_append, whole]

theorem findExact : find? text = some (name, keyword) ↔ ∃ cut : Cut, cut.joined = text ∧
    cut.Matches ∧ cut.Longest ∧ cut.name = name ∧ cut.keyword = keyword := by
  constructor
  · exact foundCut
  · rintro ⟨cut, rfl, matched, longest, rfl, rfl⟩
    exact matched.found longest

theorem readExact : read item = .ok field ↔
    find? item.toList = some (field.1.toList, field.2.keyword.toList) := by
  unfold read
  constructor
  · intro ran
    split at ran
    · rename_i name keyword found
      obtain ⟨type, known, last⟩ := bindOk.1 ran
      cases last
      rw [found, FieldType.ofKeywordExact.1 known, String.toList_ofList, String.toList_ofList]
    · cases ran
  · intro found
    simp only [found]
    refine bindOk.2 ⟨field.2, ?_, ?_⟩
    · rw [String.ofList_toList]
      exact FieldType.ofKeywordExact.2 rfl
    · rw [String.ofList_toList]
      rfl

namespace Cut

theorem Spells.matched (spells : Spells cut item field) : cut.Matches where
  name := spells.name
  before := spells.before
  after := spells.after
  keyword := spells.keyword ▸ keywordNamed field.2
  back := spells.back

end Cut

theorem readSpells : read item = .ok field ↔ ∃ cut : Cut, cut.Spells item field := by
  rw [readExact, findExact]
  constructor
  · rintro ⟨cut, whole, matched, longest, named, keyword⟩
    exact ⟨cut, whole, named, matched.name, matched.before, matched.after, keyword, matched.back,
      longest⟩
  · rintro ⟨cut, spells⟩
    exact ⟨cut, spells.whole, spells.matched, spells.longest, spells.named, spells.keyword⟩

theorem spelledOnce {cut other : Cut} (one : cut.Spells item field)
    (also : other.Spells item kind) : cut = other ∧ field = kind := by
  have same := one.matched.once also.matched (one.whole.trans also.whole.symm) one.longest
    also.longest
  refine ⟨same, Prod.ext (String.toList_inj.1 ?_)
    (FieldType.keywordInjective (String.toList_inj.1 ?_))⟩
  · rw [← one.named, same, also.named]
  · rw [← one.keyword, same, also.keyword]

theorem annotationsExact (item : String) :
    (∀ field, read item = .ok field ↔ ∃ cut : Cut, cut.Spells item field) ∧
      (∀ cut other : Cut, ∀ field kind, cut.Spells item field → other.Spells item kind →
        cut = other ∧ field = kind) ∧
      FailsByFormat (read item) ∧
      ∀ name keyword, find? item.toList = some (name, keyword) ↔ ∃ cut : Cut,
        cut.joined = item.toList ∧ cut.Matches ∧ cut.Leftmost ∧ cut.name = name ∧
          cut.keyword = keyword := by
  refine ⟨fun _ => readSpells, fun _ _ _ _ => spelledOnce, readFails item, fun name keyword => ?_⟩
  rw [findExact]
  refine exists_congr fun cut => and_congr_right fun _ => and_congr_right fun matched => ?_
  exact and_congr_left fun _ => (Cut.leftmostExact matched).symm

def crowdedCut : Cut where
  front := "x -- y é1".toList
  name := "Cap".toList
  before := "\u00a0\t".toList
  after := "\u3000".toList
  keyword := "DOUBLE".toList
  back := " \n".toList

theorem crowdedSpells :
    let item := "x -- y é1Cap\u00a0\t--\u3000DOUBLE \n"
    crowdedCut.Spells item ("Cap", .double) ∧ read item = .ok ("Cap", .double) ∧
      ∀ other : Cut, ∀ kind, other.Spells item kind →
        crowdedCut = other ∧ ("Cap", .double) = kind := by
  intro item
  have spells : crowdedCut.Spells item ("Cap", .double) :=
    { whole := by decide
      named := rfl
      name := by decide
      before := ⟨by decide, List.all_eq_true.1 (by decide)⟩
      after := ⟨by decide, List.all_eq_true.1 (by decide)⟩
      keyword := rfl
      back := List.all_eq_true.1 (by decide)
      longest := (Cut.longestExact (by decide)).2 (by decide) }
  obtain ⟨reads, once, _, _⟩ := annotationsExact item
  exact ⟨spells, (reads _).2 ⟨_, spells⟩, fun other kind also => once _ _ _ _ spells also⟩

end TablePlan.Annotation
