import Mathlib.Data.List.Forall2
import Mathlib.Data.List.TakeWhile
/-! Steps in a row, the first of which to fail is the end, lists that are cut at an element, and
lists whose elements are related one by one. -/
namespace TablePlan

variable {ε α β : Type}

theorem bindOk {first : Except ε α} {next : α → Except ε β} {value : β} :
    first >>= next = .ok value ↔ ∃ a, first = .ok a ∧ next a = .ok value := by
  cases first with
  | error fault => exact ⟨nofun, nofun⟩
  | ok a => exact ⟨fun later => ⟨a, rfl, later⟩, fun ⟨_, same, later⟩ => by cases same; exact later⟩

theorem bindError {first : Except ε α} {next : α → Except ε β} {fault : ε} :
    first >>= next = .error fault ↔
      first = .error fault ∨ ∃ a, first = .ok a ∧ next a = .error fault := by
  cases first with
  | error cause =>
    refine ⟨fun same => .inl (by cases same; rfl), ?_⟩
    rintro (same | ⟨_, absurd, _⟩)
    · cases same
      rfl
    · cases absurd
  | ok a =>
    refine ⟨fun later => .inr ⟨a, rfl, later⟩, ?_⟩
    rintro (absurd | ⟨_, same, later⟩)
    · cases absurd
    · cases same
      exact later

section Mapped

variable {ζ : Type} {f : ε → ζ}

theorem mapErrorBind (f : ε → ζ) (first : Except ε α) (next : α → Except ε β) :
    (first >>= next).mapError f = first.mapError f >>= fun a => (next a).mapError f := by
  cases first <;> rfl

theorem mapErrorOk {outcome : Except ε α} {value : α} :
    outcome.mapError f = .ok value ↔ outcome = .ok value := by
  cases outcome <;> simp [Except.mapError]

end Mapped

theorem pairwiseOfCuts {R : α → α → Prop} {list : List α}
    (cuts : ∀ before x after, list = before ++ x :: after → ∀ y ∈ after, R x y) :
    list.Pairwise R := by
  induction list with
  | nil => exact .nil
  | cons x rest ih =>
    refine List.pairwise_cons.2 ⟨cuts [] x rest rfl, ih fun before y after same => ?_⟩
    exact cuts (x :: before) y after (by rw [same, List.cons_append])

theorem cutAppend {front back before after : List α} {x : α}
    (cut : front ++ back = before ++ x :: after) :
    (∃ rest, front = before ++ x :: rest ∧ after = rest ++ back) ∨
      ∃ rest, before = front ++ rest ∧ back = rest ++ x :: after := by
  rcases List.append_eq_append_iff.1 cut with ⟨rest, left, right⟩ | ⟨rest, left, right⟩
  · exact .inr ⟨rest, left, right⟩
  · cases rest with
    | nil => exact .inr ⟨[], by simpa using left.symm, right.symm⟩
    | cons head rest =>
      cases right
      exact .inl ⟨rest, left, rfl⟩

structure Run (p : α → Bool) (run rest : List α) : Prop where
  inside : ∀ a ∈ run, p a = true
  stops : ∀ a, rest.head? = some a → p a = false

namespace Run

variable {p : α → Bool} {run rest again later : List α}

theorem take (cut : Run p run rest) : (run ++ rest).takeWhile p = run := by
  rw [List.takeWhile_append_of_pos cut.inside]
  cases rest with
  | nil => exact List.append_nil run
  | cons a rest => simp [cut.stops a rfl]

theorem drop (cut : Run p run rest) : (run ++ rest).dropWhile p = rest := by
  rw [List.dropWhile_append_of_pos cut.inside]
  cases rest with
  | nil => rfl
  | cons a rest => simp [cut.stops a rfl]

theorem once (one : Run p run rest) (other : Run p again later)
    (same : run ++ rest = again ++ later) : run = again ∧ rest = later := by
  constructor
  · rw [← one.take, same, other.take]
  · rw [← one.drop, same, other.drop]

theorem longest (p : α → Bool) (list : List α) :
    Run p (list.takeWhile p) (list.dropWhile p) := by
  refine ⟨fun a inside => List.mem_takeWhile_imp inside, fun a first => ?_⟩
  have stops := List.head?_dropWhile_not p list
  simpa [first] using stops

end Run

theorem cutOnce {p : α → Bool} {front back before after : List α} {x y : α}
    (left : ∀ a ∈ front, p a = true) (right : ∀ a ∈ before, p a = true) (stops : p x = false)
    (also : p y = false) (cut : front ++ x :: back = before ++ y :: after) :
    front = before ∧ x = y ∧ back = after := by
  have one : Run p front (x :: back) := ⟨left, by simpa using stops⟩
  have other : Run p before (y :: after) := ⟨right, by simpa using also⟩
  obtain ⟨fronts, backs⟩ := one.once other cut
  exact ⟨fronts, List.cons.inj backs⟩

theorem cutFirst [DecidableEq α] {front back before after : List α} {x : α} (left : x ∉ front)
    (right : x ∉ before) (cut : front ++ x :: back = before ++ x :: after) :
    front = before ∧ back = after := by
  have differs {list : List α} (fresh : x ∉ list) : ∀ a ∈ list, decide (a ≠ x) = true :=
    fun a inside => decide_eq_true fun same => fresh (same ▸ inside)
  obtain ⟨same, _, rest⟩ := cutOnce (differs left) (differs right) (by simp) (by simp) cut
  exact ⟨same, rest⟩

theorem earlierIndex [DecidableEq α] {before after : List α} {x y : α} (early : x ∈ before)
    (first : y ∉ before) : (before ++ y :: after).idxOf x < (before ++ y :: after).idxOf y := by
  rw [List.idxOf_append_of_mem early, List.idxOf_append_of_notMem first, List.idxOf_cons_self,
    Nat.add_zero]
  exact List.idxOf_lt_length_of_mem early

section Related

variable {R : α → β → Prop} {left : List α} {right : List β} {x : α} {y : β}

theorem relatedRight (related : List.Forall₂ R left right) (member : y ∈ right) :
    ∃ x ∈ left, R x y := by
  induction related with
  | nil => cases member
  | cons head _ ih =>
    rcases List.mem_cons.1 member with rfl | later
    · exact ⟨_, .head _, head⟩
    · obtain ⟨x, inside, held⟩ := ih later
      exact ⟨x, .tail _ inside, held⟩

theorem relatedCut {front back : List α} (related : List.Forall₂ R (front ++ back) right) :
    ∃ first later, right = first ++ later ∧ List.Forall₂ R front first ∧
      List.Forall₂ R back later := by
  induction front generalizing right with
  | nil => exact ⟨[], right, rfl, .nil, related⟩
  | cons x rest ih =>
    obtain ⟨y, others, head, tail, rfl⟩ := List.forall₂_cons_left_iff.1 related
    obtain ⟨first, later, rfl, left, right⟩ := ih tail
    exact ⟨y :: first, later, rfl, .cons head left, right⟩

theorem relatedMap {γ : Type} {f : β → γ} {g : α → γ} (related : List.Forall₂ R left right)
    (same : ∀ x ∈ left, ∀ y, R x y → f y = g x) : right.map f = left.map g := by
  induction related with
  | nil => rfl
  | cons head _ ih =>
    rw [List.map_cons, List.map_cons, same _ (.head _) _ head,
      ih fun x member => same x (.tail _ member)]

theorem relatedFlat {γ : Type} {f : β → List γ} {g : α → List γ}
    (related : List.Forall₂ R left right) (same : ∀ x ∈ left, ∀ y, R x y → f y = g x) :
    right.flatMap f = left.flatMap g := by
  rw [List.flatMap_def, List.flatMap_def, relatedMap related same]

theorem relatedLast (related : List.Forall₂ R left right) (last : left.getLast? = some x) :
    ∃ y, right.getLast? = some y ∧ R x y := by
  obtain ⟨front, rfl⟩ := List.getLast?_eq_some_iff.1 last
  have back := List.forall₂_reverse_iff.2 related
  rw [List.reverse_append, List.reverse_singleton, List.singleton_append,
    List.forall₂_cons_left_iff] at back
  obtain ⟨y, rest, held, _, same⟩ := back
  refine ⟨y, ?_, held⟩
  rw [← List.head?_reverse, same]
  rfl

end Related

section Optional

variable {f : α → Option β} {list : List α} {made : List β}

theorem mapMExact : list.mapM f = some made ↔
    List.Forall₂ (fun a b => f a = some b) list made := by
  induction list generalizing made with
  | nil =>
    rw [List.forall₂_nil_left_iff]
    exact ⟨fun same => (Option.some.inj same).symm, fun same => congrArg some same.symm⟩
  | cons a rest ih =>
    rw [List.mapM_cons, List.forall₂_cons_left_iff]
    constructor
    · intro ran
      obtain ⟨b, here, ran⟩ := Option.bind_eq_some_iff.1 ran
      obtain ⟨others, later, last⟩ := Option.bind_eq_some_iff.1 ran
      exact ⟨b, others, here, ih.1 later, (Option.some.inj last).symm⟩
    · rintro ⟨b, others, here, later, rfl⟩
      exact Option.bind_eq_some_iff.2 ⟨b, here, Option.bind_eq_some_iff.2 ⟨others, ih.2 later, rfl⟩⟩

theorem mapMNone : list.mapM f = none ↔ ∃ a ∈ list, f a = none := by
  induction list with
  | nil => exact ⟨nofun, nofun⟩
  | cons a rest ih =>
    rw [List.mapM_cons, List.exists_mem_cons_iff]
    cases f a with
    | none => exact ⟨fun _ => .inl rfl, fun _ => rfl⟩
    | some b =>
      rw [← ih]
      cases rest.mapM f with
      | none => exact ⟨fun _ => .inr rfl, fun _ => rfl⟩
      | some others => exact ⟨nofun, nofun⟩

end Optional

end TablePlan
