import Mathlib.Data.List.Perm.Subperm
import TablePlan.Proofs.Reach
/-! The active path of a walk: from the table that was asked for every name on it reads the next, so
that a walk that fails has met either a way back to the path or a path as long as the ceiling. No
name is on the path twice, so its length is at most the number of names there are. -/
namespace TablePlan.DependencyMap

variable {m : DependencyMap} {limits : Limits} {start depth : Nat} {root table name : String}
  {pending tables names active : List String} {p : Progress} {fault : Fault}

structure Path (m : DependencyMap) (start : Nat) (root table : String) (depth : Nat)
    (active : List String) : Prop where
  first : active.head? = some root
  last : active.getLast? = some table
  linked : active.IsChain m.Reads
  distinct : active.Nodup
  depth : start + active.length = depth + 1

theorem Path.begin (m : DependencyMap) (start : Nat) (root : String) :
    Path m start root root start [root] :=
  ⟨rfl, rfl, .singleton root, List.nodup_singleton root, rfl⟩

theorem Path.linkedTo (path : Path m start root table depth active)
    (reads : m.Reads table name) : (active ++ [name]).IsChain m.Reads := by
  refine List.isChain_append.2 ⟨path.linked, .singleton name, fun other atEnd next atName => ?_⟩
  rw [path.last] at atEnd
  cases atEnd
  cases atName
  exact reads

theorem Path.extend (path : Path m start root table depth active) (reads : m.Reads table name)
    (inactive : name ∉ active) : Path m start root name (depth + 1) (active ++ [name]) where
  first := by simp [path.first]
  last := by simp
  linked := path.linkedTo reads
  distinct := by simpa using path.distinct.concat inactive
  depth := by rw [List.length_append, List.length_singleton, ← path.depth, Nat.add_assoc]

theorem Path.begins (path : Path m start root table depth active) :
    ∃ rest, active = root :: rest := by
  have first := path.first
  cases active with
  | nil => cases first
  | cons head rest => exact ⟨rest, by cases first; rfl⟩

theorem Path.member (path : Path m start root table depth active) (inside : name ∈ active) :
    name = root ∨ m.Reaches root name := by
  obtain ⟨rest, rfl⟩ := path.begins
  rcases List.mem_cons.1 inside with same | later
  · exact .inl same
  · refine path.linked.cons_induction (fun name => name = root ∨ m.Reaches root name) rest ?_
      (.inl rfl) name later
    rintro one next reads (rfl | reaches)
    · exact .inr (.single reads)
    · exact .inr (reaches.tail reads)

theorem Path.short (path : Path m start root table depth active) (known : root ∈ names)
    (recorded : ∀ one other, m.Reads one other → other ∈ names) :
    active ⊆ names ∧ depth < start + names.length := by
  have inside : active ⊆ names := by
    intro name member
    rcases path.member member with rfl | reaches
    · exact known
    · obtain ⟨last, _, reads⟩ := Relation.TransGen.tail'_iff.1 reaches
      exact recorded last name reads
  have counted := (List.subperm_of_subset path.distinct inside).length_le
  have length := path.depth
  exact ⟨inside, by omega⟩

theorem Path.bounded (path : Path m start root table depth active) (known : root ∈ tables)
    (reads : m.Reads table name) (inactive : name ∉ active) :
    depth + 2 ≤ start + (Names.ofList (tables ++ m.names)).length := by
  have listed : root ∈ Names.ofList (tables ++ m.names) :=
    Names.memOfList.2 (List.mem_append_left _ known)
  refine ((path.extend reads inactive).short listed fun one other reads => ?_).2
  exact Names.memOfList.2 (List.mem_append_right _ (dependencyNamed reads))

theorem Path.suffix {before after : List String}
    (path : Path m start root table depth (before ++ name :: after)) :
    Path m (start + before.length) name table depth (name :: after) where
  first := rfl
  last := by simpa [List.getLast?_append] using path.last
  linked := path.linked.right_of_append
  distinct := (List.nodup_append.1 path.distinct).2.1
  depth := by
    have length := path.depth
    rw [List.length_append] at length
    omega

theorem Path.closes (path : Path m start root table depth p.active) (inside : name ∈ p.active) :
    ∃ start' round, p.cycleThrough name = round ++ [name] ∧
      Path m start' name table depth round := by
  obtain ⟨before, after, cut, first⟩ := List.eq_append_cons_of_mem inside
  have passed : ∀ other ∈ before, decide (other ≠ name) = true :=
    fun other member => decide_eq_true fun same => first (same ▸ member)
  refine ⟨start + before.length, name :: after, ?_, (cut ▸ path).suffix⟩
  rw [Progress.cycleThrough, cut, List.dropWhile_append_of_pos passed]
  simp

theorem Path.returns {one : String} (path : Path m start name table depth active)
    (reads : m.Reads table name) (left : one ∈ active) {other : String} (right : other ∈ active) :
    m.Reaches one other := by
  have back : Relation.ReflTransGen m.Reads one table := by
    refine path.linked.backwards_induction (Relation.ReflTransGen m.Reads · table) active
      (fun _ _ reads later => later.head reads) (fun some => ?_) one left
    have last := path.last
    rw [List.getLast?_eq_some_getLast some] at last
    exact Option.some.inj last ▸ .refl
  rcases path.member right with rfl | onward
  · exact .tail' back reads
  · exact .trans (.tail' back reads) onward

/-- Why a walk that began at `root` has failed. -/
inductive Stopped (m : DependencyMap) (limits : Limits) (start : Nat) (root : String) :
    Fault → Prop where
  | circular {table : String} {depth : Nat} {name : String} {p : Progress}
      (path : Path m start root table depth p.active)
      (reads : m.Reads table name) (active : name ∈ p.active) :
      Stopped m limits start root (.circular table name (p.cycleThrough name))
  | tooDeep {table : String} {depth : Nat} {name : String} {p : Progress}
      (path : Path m start root table depth p.active) (reads : m.Reads table name)
      (inactive : name ∉ p.active) (deep : limits.maxDepth < depth + 1) :
      Stopped m limits start root (.tooDeep (.resolution name (depth + 1)) limits.maxDepth)

theorem walkStops (walk : Walk m limits table depth pending p (.error fault))
    (path : Path m start root table depth p.active) (due : ∀ name ∈ pending, m.Reads table name) :
    Stopped m limits start root fault := by
  generalize ended : Except.error fault = outcome at walk
  induction walk with
  | leave => cases ended
  | known _ _ ih => exact ih path (fun name later => due name (.tail _ later)) ended
  | cycle _ active =>
    cases ended
    exact .circular path (due _ (.head _)) active
  | tooDeep _ inactive deep =>
    cases ended
    exact .tooDeep path (due _ (.head _)) inactive deep
  | fail _ inactive _ _ ih => exact ih (path.extend (due _ (.head _)) inactive) (fun _ => id) ended
  | next _ inactive _ inner _ _ ih =>
    have restored := walkRestoresPath inner
    rw [enteredErased inactive] at restored
    exact ih (restored ▸ path) (fun name later => due name (.tail _ later)) ended

theorem resolveTableStops (ran : m.resolveTable limits root start p = .error fault)
    (idle : p.active = []) (within : start ≤ limits.maxDepth) :
    Stopped m limits start root fault := by
  cases resolveTableExact.1 ran with
  | tooDeep deep => omega
  | walk _ _ walk =>
    refine walkStops walk ?_ fun _ => id
    simpa [Progress.enter, idle] using Path.begin m start root

theorem resolveTablesStop (ran : m.resolveTables limits tables p = .error fault)
    (idle : p.active = []) : ∃ root ∈ tables, Stopped m limits 0 root fault := by
  induction tables generalizing p with
  | nil => cases ran
  | cons table rest ih =>
    unfold resolveTables at ran
    split at ran
    · obtain ⟨root, member, stopped⟩ := ih ran idle
      exact ⟨root, .tail _ member, stopped⟩
    · cases first : m.resolveTable limits table 0 p with
      | error cause =>
        rw [first] at ran
        cases ran
        exact ⟨table, .head _, resolveTableStops first idle (Nat.zero_le _)⟩
      | ok q =>
        rw [first] at ran
        have path := visitRestoresPath (resolveTableExact.1 first) (by simp [idle])
        obtain ⟨root, member, stopped⟩ := ih ran (path.trans idle)
        exact ⟨root, .tail _ member, stopped⟩

end TablePlan.DependencyMap
