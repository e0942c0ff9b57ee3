import TablePlan.Proofs.Sequence
import TablePlan.Proofs.Walk
/-! Orders in which every name comes after all that it depends on, and that a walk keeps such an
order while it adds to it. At every point of the walk the dependencies of its table are resolved or
still to come, which is what puts all of them before the table when it is left. -/
namespace TablePlan.DependencyMap

variable {m : DependencyMap} {limits : Limits} {table : String} {depth : Nat}
  {pending order tables : List String} {p q : Progress}

def Ordered (m : DependencyMap) (order : List String) : Prop :=
  ∀ before table after, order = before ++ table :: after → ∀ name ∈ m.of table, name ∈ before

theorem orderedNil (m : DependencyMap) : m.Ordered [] := by
  intro before table after split
  simp at split

theorem orderedSnoc (ordered : m.Ordered order) (met : ∀ name ∈ m.of table, name ∈ order) :
    m.Ordered (order ++ [table]) := by
  intro before other after cut
  rcases cutAppend cut with ⟨rest, inside, _⟩ | ⟨rest, rfl, last⟩
  · exact ordered before other rest inside
  · cases rest with
    | nil =>
      cases last
      simpa using met
    | cons => simp at last

theorem orderedFront {front : List String} (ordered : m.Ordered order) (begins : front <+: order) :
    m.Ordered front := by
  obtain ⟨rest, rfl⟩ := begins
  intro before name after cut
  exact ordered before name (after ++ rest) (by simp [cut])

/-- What holds of every progress on the way: no name occurs twice, in the order and on the path
together, and the order is one in which dependencies come first. -/
structure Sound (m : DependencyMap) (p : Progress) : Prop where
  distinct : p.resolved.Nodup
  pathDistinct : p.active.Nodup
  apart : ∀ name ∈ p.active, name ∉ p.resolved
  ordered : m.Ordered p.resolved

theorem soundFresh (m : DependencyMap) : Sound m {} :=
  ⟨List.nodup_nil, List.nodup_nil, nofun, orderedNil m⟩

theorem Sound.enter (sound : Sound m p) (unresolved : table ∉ p.resolved)
    (inactive : table ∉ p.active) : Sound m (p.enter table) where
  distinct := sound.distinct
  pathDistinct := by simpa [Progress.enter] using sound.pathDistinct.concat inactive
  apart := by
    intro name member
    rcases List.mem_append.1 member with old | last
    · exact sound.apart name old
    · cases List.mem_singleton.1 last
      exact unresolved
  ordered := sound.ordered

theorem Sound.leave (sound : Sound m p) (active : table ∈ p.active)
    (met : ∀ name ∈ m.of table, name ∈ p.resolved) : Sound m (p.leave table) where
  distinct := by simpa [Progress.leave] using sound.distinct.concat (sound.apart table active)
  pathDistinct := sound.pathDistinct.erase table
  apart := by
    intro name member inside
    obtain ⟨other, stays⟩ := (List.Nodup.mem_erase_iff sound.pathDistinct).1 member
    rcases List.mem_append.1 inside with old | last
    · exact sound.apart name stays old
    · exact other (List.mem_singleton.1 last)
  ordered := orderedSnoc sound.ordered met

theorem walkGrows (walk : Walk m limits table depth pending p (.ok q)) :
    ∃ found, q.resolved = p.resolved ++ found ++ [table] := by
  generalize ended : Except.ok q = outcome at walk
  induction walk generalizing q with
  | leave =>
    cases ended
    exact ⟨[], by simp [Progress.leave]⟩
  | known _ _ ih => exact ih ended
  | cycle | tooDeep | fail => cases ended
  | @next table _ name _ p _ _ _ _ _ _ _ ihInner ihLater =>
    obtain ⟨inner, atName⟩ := ihInner rfl
    obtain ⟨later, atTable⟩ := ihLater ended
    exact ⟨inner ++ [name] ++ later, by simp [atTable, atName, Progress.enter]⟩

theorem walkSound (walk : Walk m limits table depth pending p (.ok q)) (sound : Sound m p)
    (active : table ∈ p.active)
    (met : ∀ name ∈ m.of table, name ∈ p.resolved ∨ name ∈ pending) : Sound m q := by
  generalize ended : Except.ok q = outcome at walk
  induction walk generalizing q with
  | leave =>
    cases ended
    exact sound.leave active fun name member => (met name member).resolve_right (by simp)
  | known resolved _ ih =>
    refine ih sound active (fun other member => ?_) ended
    rcases met other member with inside | due
    · exact .inl inside
    · rcases List.mem_cons.1 due with rfl | due
      · exact .inl resolved
      · exact .inr due
  | cycle | tooDeep | fail => cases ended
  | @next table _ name rest p between _ unresolved inactive _ inner _ ihInner ihLater =>
    have entered : Sound m between :=
      ihInner (sound.enter unresolved inactive) (by simp [Progress.enter])
        (fun other member => .inr member) rfl
    have path : between.active = p.active := by
      rw [walkRestoresPath inner, enteredErased inactive]
    obtain ⟨found, grown⟩ := walkGrows inner
    refine ihLater entered (path ▸ active) (fun other member => ?_) ended
    rcases met other member with inside | due
    · exact .inl (by simp [grown, Progress.enter, inside])
    · rcases List.mem_cons.1 due with rfl | due
      · exact .inl (by simp [grown])
      · exact .inr due

theorem visitGrows (visit : Visit m limits table depth p (.ok q)) : p.resolved <+: q.resolved := by
  cases visit with
  | known => exact List.prefix_rfl
  | walk _ _ walk =>
    obtain ⟨found, grown⟩ := walkGrows walk
    exact ⟨found ++ [table], by simp [grown, Progress.enter]⟩

structure Extends (m : DependencyMap) (p q : Progress) : Prop where
  sound : Sound m q
  path : q.active = p.active
  order : p.resolved <+: q.resolved

theorem resolveTableExtends (ran : m.resolveTable limits table depth p = .ok q) (sound : Sound m p)
    (inactive : table ∉ p.active) : Extends m p q ∧ table ∈ q.resolved := by
  have visit := resolveTableExact.1 ran
  have path := visitRestoresPath visit inactive
  have order := visitGrows visit
  cases visit with
  | known _ resolved => exact ⟨⟨sound, path, order⟩, resolved⟩
  | walk _ unresolved walk =>
    obtain ⟨found, grown⟩ := walkGrows walk
    have after : Sound m q := walkSound walk (sound.enter unresolved inactive)
      (by simp [Progress.enter]) fun name member => .inr member
    exact ⟨⟨after, path, order⟩, by simp [grown]⟩

theorem resolveTablesExtends (ran : m.resolveTables limits tables p = .ok q) (sound : Sound m p)
    (idle : p.active = []) : Extends m p q ∧ ∀ table ∈ tables, table ∈ q.resolved := by
  induction tables generalizing p with
  | nil =>
    cases ran
    exact ⟨⟨sound, rfl, List.prefix_rfl⟩, by simp⟩
  | cons table rest ih =>
    unfold resolveTables at ran
    split at ran
    · rename_i resolved
      obtain ⟨step, complete⟩ := ih ran sound idle
      exact ⟨step, List.forall_mem_cons.2 ⟨step.order.subset resolved, complete⟩⟩
    · obtain ⟨between, first, ran⟩ := bindOk.1 ran
      obtain ⟨step, resolved⟩ := resolveTableExtends first sound (by simp [idle])
      obtain ⟨later, complete⟩ := ih ran step.sound (step.path.trans idle)
      exact ⟨⟨later.sound, later.path.trans step.path, step.order.trans later.order⟩,
        List.forall_mem_cons.2 ⟨later.order.subset resolved, complete⟩⟩

theorem resolveTablesAgain (resolved : ∀ table ∈ tables, table ∈ p.resolved) :
    m.resolveTables limits tables p = .ok p := by
  induction tables with
  | nil => rfl
  | cons table rest ih =>
    obtain ⟨first, later⟩ := List.forall_mem_cons.1 resolved
    simp only [resolveTables, if_pos first, ih later]

theorem resolveTablesFree (free : ∀ table ∈ tables, m.of table = []) (distinct : tables.Nodup)
    (fresh : ∀ table ∈ tables, table ∉ p.resolved) (idle : p.active = []) :
    m.resolveTables limits tables p = .ok ⟨p.resolved ++ tables, []⟩ := by
  induction tables generalizing p with
  | nil =>
    obtain ⟨resolved, active⟩ := p
    cases idle
    simp [resolveTables]
  | cons table rest ih =>
    obtain ⟨head, later⟩ := List.forall_mem_cons.1 free
    obtain ⟨new, others⟩ := List.forall_mem_cons.1 fresh
    obtain ⟨apart, distinct⟩ := List.nodup_cons.1 distinct
    have walk : Walk m limits table 0 (m.of table) (p.enter table)
        (.ok ((p.enter table).leave table)) := head ▸ .leave
    have first : m.resolveTable limits table 0 p = .ok ((p.enter table).leave table) :=
      resolveTableExact.2 (.walk (Nat.zero_le _) new walk)
    have next : ∀ other ∈ rest, other ∉ ((p.enter table).leave table).resolved := by
      intro other member inside
      rcases List.mem_append.1 inside with old | last
      · exact others other member old
      · exact apart (List.mem_singleton.1 last ▸ member)
    rw [resolveTables, if_neg new, first]
    refine (ih later distinct next (by simp [Progress.enter, Progress.leave, idle])).trans ?_
    simp [Progress.enter, Progress.leave]

end TablePlan.DependencyMap
