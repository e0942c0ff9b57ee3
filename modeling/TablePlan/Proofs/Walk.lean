import Mathlib.Data.List.Nodup
import TablePlan.Dependency.Walk
import TablePlan.Proofs.Keyed
/-! The walk as a relation, without the room that bounds its recursion, and what a walk that
succeeds leaves behind: its path as it was, and an order in which dependencies come first. A path
has fewer names left to take in with every table that is entered, so that a room of one more than
all names is never used up. -/
namespace TablePlan.DependencyMap

/-- The end of a walk that stands at `table` with some of its dependencies still to come. -/
inductive Walk (m : DependencyMap) (limits : Limits) :
    String → Nat → List String → Progress → Except Fault Progress → Prop where
  | leave {table depth p} : Walk m limits table depth [] p (.ok (p.leave table))
  | known {table depth name rest p outcome} (resolved : name ∈ p.resolved)
      (later : Walk m limits table depth rest p outcome) :
      Walk m limits table depth (name :: rest) p outcome
  | cycle {table depth name rest p} (unresolved : name ∉ p.resolved) (active : name ∈ p.active) :
      Walk m limits table depth (name :: rest) p
        (.error (.circular table name (p.cycleThrough name)))
  | tooDeep {table depth name rest p} (unresolved : name ∉ p.resolved)
      (inactive : name ∉ p.active) (deep : limits.maxDepth < depth + 1) :
      Walk m limits table depth (name :: rest) p
        (.error (.tooDeep (.resolution name (depth + 1)) limits.maxDepth))
  | fail {table depth name rest p fault} (unresolved : name ∉ p.resolved)
      (inactive : name ∉ p.active) (within : depth + 1 ≤ limits.maxDepth)
      (inner : Walk m limits name (depth + 1) (m.of name) (p.enter name) (.error fault)) :
      Walk m limits table depth (name :: rest) p (.error fault)
  | next {table depth name rest p q outcome} (unresolved : name ∉ p.resolved)
      (inactive : name ∉ p.active) (within : depth + 1 ≤ limits.maxDepth)
      (inner : Walk m limits name (depth + 1) (m.of name) (p.enter name) (.ok q))
      (later : Walk m limits table depth rest q outcome) :
      Walk m limits table depth (name :: rest) p outcome

inductive Visit (m : DependencyMap) (limits : Limits) (table : String) (depth : Nat)
    (p : Progress) : Except Fault Progress → Prop where
  | tooDeep (deep : limits.maxDepth < depth) :
      Visit m limits table depth p (.error (.tooDeep (.resolution table depth) limits.maxDepth))
  | known (within : depth ≤ limits.maxDepth) (resolved : table ∈ p.resolved) :
      Visit m limits table depth p (.ok p)
  | walk {outcome} (within : depth ≤ limits.maxDepth) (unresolved : table ∉ p.resolved)
      (walk : Walk m limits table depth (m.of table) (p.enter table) outcome) :
      Visit m limits table depth p outcome

variable {m : DependencyMap} {limits : Limits} {table : String} {depth room : Nat}
  {pending : List String} {p q : Progress}

theorem walkUnique {one other : Except Fault Progress}
    (left : Walk m limits table depth pending p one)
    (right : Walk m limits table depth pending p other) : one = other := by
  induction left generalizing other with
  | leave => cases right; rfl
  | known resolved later ih => cases right with
    | known _ later => exact ih later
    | cycle unresolved | tooDeep unresolved | fail unresolved | next unresolved =>
      exact absurd resolved unresolved
  | cycle unresolved active => cases right with
    | known resolved => exact absurd resolved unresolved
    | cycle => rfl
    | tooDeep _ inactive | fail _ inactive | next _ inactive => exact absurd active inactive
  | tooDeep unresolved inactive deep => cases right with
    | known resolved => exact absurd resolved unresolved
    | cycle _ active => exact absurd active inactive
    | tooDeep => rfl
    | fail _ _ within | next _ _ within => omega
  | fail unresolved inactive within inner ih => cases right with
    | known resolved => exact absurd resolved unresolved
    | cycle _ active => exact absurd active inactive
    | tooDeep _ _ deep => omega
    | fail _ _ _ inner => exact ih inner
    | next _ _ _ inner => exact nomatch ih inner
  | next unresolved inactive within inner later ihInner ihLater => cases right with
    | known resolved => exact absurd resolved unresolved
    | cycle _ active => exact absurd active inactive
    | tooDeep _ _ deep => omega
    | fail _ _ _ inner => exact nomatch ihInner inner
    | next _ _ _ inner later =>
      cases ihInner inner
      exact ihLater later

theorem visitUnique {one other : Except Fault Progress} (left : Visit m limits table depth p one)
    (right : Visit m limits table depth p other) : one = other := by
  cases left with
  | tooDeep deep => cases right with
    | tooDeep => rfl
    | known within | walk within => omega
  | known within resolved => cases right with
    | tooDeep deep => omega
    | known => rfl
    | walk _ unresolved => exact absurd resolved unresolved
  | walk within unresolved walk => cases right with
    | tooDeep deep => omega
    | known _ resolved => exact absurd resolved unresolved
    | walk _ _ other => exact walkUnique walk other

theorem enteredErased (inactive : table ∉ p.active) :
    (p.enter table).active.erase table = p.active := by
  simp [Progress.enter, List.erase_append_right _ inactive]

theorem walkRestoresPath (walk : Walk m limits table depth pending p (.ok q)) :
    q.active = p.active.erase table := by
  generalize ended : Except.ok q = outcome at walk
  induction walk generalizing q with
  | leave => cases ended; rfl
  | known _ _ ih => exact ih ended
  | cycle | tooDeep | fail => cases ended
  | @next table _ name _ p inside _ _ inactive _ _ _ ihInner ihLater =>
    have restored : inside.active = p.active := by
      rw [ihInner rfl, enteredErased inactive]
    rw [ihLater ended, restored]

theorem visitRestoresPath (visit : Visit m limits table depth p (.ok q))
    (inactive : table ∉ p.active) : q.active = p.active := by
  cases visit with
  | known => rfl
  | walk _ _ walk =>
    rw [walkRestoresPath walk, enteredErased inactive]

def ahead (m : DependencyMap) (p : Progress) : Nat :=
  (m.names.filter fun name => name ∉ p.active).length

theorem aheadEnter (named : table ∈ m.names) (inactive : table ∉ p.active) :
    m.ahead (p.enter table) < m.ahead p := by
  have split : m.names.filter (fun name => name ∉ (p.enter table).active) =
      (m.names.filter fun name => name ∉ p.active).filter fun name => name ≠ table := by
    rw [List.filter_filter]
    apply List.filter_congr
    intro name _
    simp [Progress.enter, and_comm]
  unfold ahead
  rw [split, List.length_filter_lt_length_iff_exists]
  exact ⟨table, by simp [named, inactive]⟩

theorem aheadBound (m : DependencyMap) (p : Progress) : m.ahead p ≤ m.names.length :=
  List.length_filter_le _ _

theorem ofEntry {entry : String × List String} (member : entry ∈ m.entries) :
    m.of entry.1 = entry.2 := by
  rw [of, (Keyed.findExact m.keysDistinct).2 member, Option.getD_some]

theorem memOf {name : String} :
    name ∈ m.of table ↔ ∃ names, (table, names) ∈ m.entries ∧ name ∈ names := by
  constructor
  · intro member
    unfold of at member
    cases found : Keyed.find? table m.entries with
    | none => simp [found] at member
    | some names =>
      rw [found, Option.getD_some] at member
      exact ⟨names, Keyed.memOfFind found, member⟩
  · rintro ⟨names, entry, inside⟩
    rw [ofEntry entry]
    exact inside

theorem dependencyNamed {name : String} (member : name ∈ m.of table) : name ∈ m.names := by
  obtain ⟨names, entry, inside⟩ := memOf.1 member
  exact Names.memOfList.2
    (List.mem_append.2 (.inr (List.mem_flatMap.2 ⟨(table, names), entry, inside⟩)))

theorem followWalks
    (visited : ∀ name p, m.ahead (p.enter name) < room →
      Visit m limits name (depth + 1) p (m.visit limits room name (depth + 1) p))
    (named : ∀ name ∈ pending, name ∈ m.names) (enough : m.ahead p ≤ room) :
    Walk m limits table depth pending p (do
      let p ← follow (fun name => m.visit limits room name (depth + 1)) table pending p
      return p.leave table) := by
  induction pending generalizing p with
  | nil => exact .leave
  | cons name rest ih =>
    have later := fun p enough => ih (p := p) (fun other h => named other (.tail _ h)) enough
    unfold follow Progress.standing
    by_cases resolved : name ∈ p.resolved
    · simpa only [if_pos resolved] using Walk.known resolved (later p enough)
    · by_cases active : name ∈ p.active
      · simp only [if_neg resolved, if_pos active]
        exact .cycle resolved active
      · simp only [if_neg resolved, if_neg active]
        have entered := aheadEnter (named name (.head _)) active
        have visit := visited name p (by omega)
        cases outcome : m.visit limits room name (depth + 1) p with
        | error fault =>
          rw [outcome] at visit
          cases visit with
          | tooDeep deep => exact .tooDeep resolved active deep
          | walk within _ inner => exact .fail resolved active within inner
        | ok q =>
          rw [outcome] at visit
          have path : q.active = p.active := visitRestoresPath visit active
          cases visit with
          | known _ known => exact absurd known resolved
          | walk within _ inner =>
            have still : m.ahead q ≤ room := by
              unfold ahead at enough ⊢
              rwa [path]
            exact .next resolved active within inner (later q still)

theorem visitWalks (enough : m.ahead (p.enter table) < room) :
    Visit m limits table depth p (m.visit limits room table depth p) := by
  induction room generalizing table depth p with
  | zero => omega
  | succ room ih =>
    unfold visit Limits.check
    by_cases deep : limits.maxDepth < depth
    · simp only [if_pos deep]
      exact .tooDeep deep
    · by_cases resolved : table ∈ p.resolved
      · simpa [deep, resolved] using Visit.known (by omega) resolved
      · have walk : Walk m limits table depth (m.of table) (p.enter table) _ :=
          followWalks (fun name p enough => ih enough) (fun name => dependencyNamed)
            (Nat.le_of_lt_succ enough)
        simp only [if_neg deep, if_neg resolved]
        exact .walk (by omega) resolved walk

theorem resolveTableExact {outcome : Except Fault Progress} :
    m.resolveTable limits table depth p = outcome ↔ Visit m limits table depth p outcome := by
  have visit : Visit m limits table depth p (m.resolveTable limits table depth p) :=
    visitWalks (Nat.lt_succ_of_le (aheadBound m _))
  exact ⟨fun same => same ▸ visit, fun other => visitUnique visit other⟩

end TablePlan.DependencyMap
