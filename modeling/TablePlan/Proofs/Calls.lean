import TablePlan.Proofs.Acceptance
/-! The calls of a resolution: which names it comes to, how deep, and which of them it puts on the
path. It comes to a name only while that name is neither resolved nor on the path, and each that it
has come to is one or the other from then on, so that it ends without a ceiling. The calls are those
of the walk, every walk makes some, and how deep a name is come to is how long the path to it is. -/
namespace TablePlan

namespace DependencyMap

/-- A name that is come to, and whether it goes on the path; it does not where it is too deep or
resolved already. -/
structure Call where
  table : String
  depth : Nat
  marks : Bool
  deriving DecidableEq, Repr

def marked (calls : List Call) : List String := (calls.filter Call.marks).map Call.table

inductive WalkCalls (m : DependencyMap) (limits : Limits) :
    String → Nat → List String → Progress → List Call → Except Fault Progress → Prop where
  | leave {table depth p} : WalkCalls m limits table depth [] p [] (.ok (p.leave table))
  | known {table depth name rest p calls outcome} (resolved : name ∈ p.resolved)
      (later : WalkCalls m limits table depth rest p calls outcome) :
      WalkCalls m limits table depth (name :: rest) p calls outcome
  | cycle {table depth name rest p} (unresolved : name ∉ p.resolved) (active : name ∈ p.active) :
      WalkCalls m limits table depth (name :: rest) p []
        (.error (.circular table name (p.cycleThrough name)))
  | tooDeep {table depth name rest p} (unresolved : name ∉ p.resolved)
      (inactive : name ∉ p.active) (deep : limits.maxDepth < depth + 1) :
      WalkCalls m limits table depth (name :: rest) p [⟨name, depth + 1, false⟩]
        (.error (.tooDeep (.resolution name (depth + 1)) limits.maxDepth))
  | fail {table depth name rest p calls fault} (unresolved : name ∉ p.resolved)
      (inactive : name ∉ p.active) (within : depth + 1 ≤ limits.maxDepth)
      (inner : WalkCalls m limits name (depth + 1) (m.of name) (p.enter name) calls
        (.error fault)) :
      WalkCalls m limits table depth (name :: rest) p (⟨name, depth + 1, true⟩ :: calls)
        (.error fault)
  | next {table depth name rest p q inside behind outcome} (unresolved : name ∉ p.resolved)
      (inactive : name ∉ p.active) (within : depth + 1 ≤ limits.maxDepth)
      (inner : WalkCalls m limits name (depth + 1) (m.of name) (p.enter name) inside (.ok q))
      (later : WalkCalls m limits table depth rest q behind outcome) :
      WalkCalls m limits table depth (name :: rest) p
        (⟨name, depth + 1, true⟩ :: (inside ++ behind)) outcome

inductive VisitCalls (m : DependencyMap) (limits : Limits) (table : String) (depth : Nat)
    (p : Progress) : List Call → Except Fault Progress → Prop where
  | tooDeep (deep : limits.maxDepth < depth) :
      VisitCalls m limits table depth p [⟨table, depth, false⟩]
        (.error (.tooDeep (.resolution table depth) limits.maxDepth))
  | known (within : depth ≤ limits.maxDepth) (resolved : table ∈ p.resolved) :
      VisitCalls m limits table depth p [⟨table, depth, false⟩] (.ok p)
  | walk {calls outcome} (within : depth ≤ limits.maxDepth) (unresolved : table ∉ p.resolved)
      (walk : WalkCalls m limits table depth (m.of table) (p.enter table) calls outcome) :
      VisitCalls m limits table depth p (⟨table, depth, true⟩ :: calls) outcome

inductive TablesCalls (m : DependencyMap) (limits : Limits) :
    List String → Progress → List Call → Except Fault Progress → Prop where
  | done {p} : TablesCalls m limits [] p [] (.ok p)
  | known {table rest p calls outcome} (resolved : table ∈ p.resolved)
      (later : TablesCalls m limits rest p calls outcome) :
      TablesCalls m limits (table :: rest) p calls outcome
  | fail {table rest p calls fault} (unresolved : table ∉ p.resolved)
      (visit : VisitCalls m limits table 0 p calls (.error fault)) :
      TablesCalls m limits (table :: rest) p calls (.error fault)
  | next {table rest p q inside behind outcome} (unresolved : table ∉ p.resolved)
      (visit : VisitCalls m limits table 0 p inside (.ok q))
      (later : TablesCalls m limits rest q behind outcome) :
      TablesCalls m limits (table :: rest) p (inside ++ behind) outcome

variable {m : DependencyMap} {limits : Limits} {start depth : Nat} {root table : String}
  {pending tables names : List String} {calls : List Call} {p q : Progress}
  {outcome : Except Fault Progress}

theorem WalkCalls.walk (called : WalkCalls m limits table depth pending p calls outcome) :
    Walk m limits table depth pending p outcome := by
  induction called with
  | leave => exact .leave
  | known resolved _ ih => exact .known resolved ih
  | cycle unresolved active => exact .cycle unresolved active
  | tooDeep unresolved inactive deep => exact .tooDeep unresolved inactive deep
  | fail unresolved inactive within _ ih => exact .fail unresolved inactive within ih
  | next unresolved inactive within _ _ ihInner ihLater =>
    exact .next unresolved inactive within ihInner ihLater

theorem VisitCalls.visit (called : VisitCalls m limits table depth p calls outcome) :
    Visit m limits table depth p outcome := by
  cases called with
  | tooDeep deep => exact .tooDeep deep
  | known within resolved => exact .known within resolved
  | walk within unresolved walk => exact .walk within unresolved walk.walk

theorem VisitCalls.answer (called : VisitCalls m limits table depth p calls outcome) :
    m.resolveTable limits table depth p = outcome :=
  resolveTableExact.2 called.visit

theorem TablesCalls.answer (called : TablesCalls m limits tables p calls outcome) :
    m.resolveTables limits tables p = outcome := by
  induction called with
  | done => rfl
  | known resolved _ ih => rw [resolveTables, if_pos resolved, ih]
  | fail unresolved visit =>
    rw [resolveTables, if_neg unresolved, visit.answer]
    rfl
  | next unresolved visit _ ih =>
    rw [resolveTables, if_neg unresolved, visit.answer]
    exact ih

theorem walkCalls (walk : Walk m limits table depth pending p outcome) :
    ∃ calls, WalkCalls m limits table depth pending p calls outcome := by
  induction walk with
  | leave => exact ⟨_, .leave⟩
  | known resolved _ ih =>
    obtain ⟨_, later⟩ := ih
    exact ⟨_, .known resolved later⟩
  | cycle unresolved active => exact ⟨_, .cycle unresolved active⟩
  | tooDeep unresolved inactive deep => exact ⟨_, .tooDeep unresolved inactive deep⟩
  | fail unresolved inactive within _ ih =>
    obtain ⟨_, inner⟩ := ih
    exact ⟨_, .fail unresolved inactive within inner⟩
  | next unresolved inactive within _ _ ihInner ihLater =>
    obtain ⟨_, inner⟩ := ihInner
    obtain ⟨_, later⟩ := ihLater
    exact ⟨_, .next unresolved inactive within inner later⟩

theorem visitCalls (m : DependencyMap) (limits : Limits) (table : String) (depth : Nat)
    (p : Progress) :
    ∃ calls, VisitCalls m limits table depth p calls (m.resolveTable limits table depth p) := by
  have visit : Visit m limits table depth p (m.resolveTable limits table depth p) :=
    resolveTableExact.1 rfl
  generalize m.resolveTable limits table depth p = outcome at visit ⊢
  cases visit with
  | tooDeep deep => exact ⟨_, .tooDeep deep⟩
  | known within resolved => exact ⟨_, .known within resolved⟩
  | walk within unresolved walk =>
    obtain ⟨_, called⟩ := walkCalls walk
    exact ⟨_, .walk within unresolved called⟩

theorem tablesCalls (m : DependencyMap) (limits : Limits) (tables : List String) (p : Progress) :
    ∃ calls outcome, TablesCalls m limits tables p calls outcome := by
  induction tables generalizing p with
  | nil => exact ⟨_, _, .done⟩
  | cons table rest ih =>
    by_cases resolved : table ∈ p.resolved
    · obtain ⟨_, _, later⟩ := ih p
      exact ⟨_, _, .known resolved later⟩
    · obtain ⟨_, first⟩ := visitCalls m limits table 0 p
      cases ran : m.resolveTable limits table 0 p with
      | error fault => exact ⟨_, _, .fail resolved (ran ▸ first)⟩
      | ok q =>
        obtain ⟨_, _, later⟩ := ih q
        exact ⟨_, _, .next resolved (ran ▸ first) later⟩

structure Fresh (p : Progress) (calls : List Call) : Prop where
  new : ∀ call ∈ calls, call.table ∉ p.resolved ∧ call.table ∉ p.active
  once : (calls.map Call.table).Nodup

theorem freshNone (p : Progress) : Fresh p [] := ⟨nofun, List.nodup_nil⟩

theorem Fresh.enter {marks : Bool} (fresh : Fresh (p.enter table) calls)
    (unresolved : table ∉ p.resolved) (inactive : table ∉ p.active) :
    Fresh p (⟨table, depth, marks⟩ :: calls) where
  new := by
    refine List.forall_mem_cons.2 ⟨⟨unresolved, inactive⟩, fun call member => ?_⟩
    obtain ⟨new, apart⟩ := fresh.new call member
    exact ⟨new, fun old => apart (List.mem_append_left _ old)⟩
  once := by
    refine List.nodup_cons.2 ⟨fun again => ?_, fresh.once⟩
    obtain ⟨call, member, same⟩ := List.mem_map.1 again
    exact (fresh.new call member).2 (by simp [Progress.enter, same])

theorem Fresh.append {inside behind : List Call} (fresh : Fresh p inside) (later : Fresh q behind)
    (placed : ∀ call ∈ inside, call.table ∈ q.resolved) (grown : p.resolved <+: q.resolved)
    (path : q.active = p.active) : Fresh p (inside ++ behind) where
  new := by
    refine List.forall_mem_append.2 ⟨fresh.new, fun call member => ?_⟩
    obtain ⟨new, apart⟩ := later.new call member
    exact ⟨fun old => new (grown.subset old), path ▸ apart⟩
  once := by
    rw [List.map_append]
    refine List.nodup_append.2 ⟨fresh.once, later.once, fun name early other late same => ?_⟩
    obtain ⟨call, member, rfl⟩ := List.mem_map.1 early
    obtain ⟨again, behind, rfl⟩ := List.mem_map.1 late
    exact (later.new again behind).1 (same ▸ placed call member)

theorem WalkCalls.placed (called : WalkCalls m limits table depth pending p calls (.ok q)) :
    ∀ call ∈ calls, call.table ∈ q.resolved := by
  generalize ended : Except.ok q = outcome at called
  induction called generalizing q with
  | leave => exact nofun
  | known _ _ ih => exact ih ended
  | cycle | tooDeep | fail => cases ended
  | next _ _ _ inner later ihInner ihLater =>
    cases ended
    obtain ⟨found, atName⟩ := walkGrows inner.walk
    obtain ⟨onward, atTable⟩ := walkGrows later.walk
    refine List.forall_mem_cons.2 ⟨by simp [atTable, atName],
      List.forall_mem_append.2 ⟨fun call member => ?_, ihLater rfl⟩⟩
    simp [atTable, ihInner rfl call member]

theorem VisitCalls.placed (called : VisitCalls m limits table depth p calls (.ok q)) :
    ∀ call ∈ calls, call.table ∈ q.resolved := by
  cases called with
  | known _ resolved => exact List.forall_mem_singleton.2 resolved
  | walk _ _ walk =>
    obtain ⟨found, grown⟩ := walkGrows walk.walk
    exact List.forall_mem_cons.2 ⟨by simp [grown], walk.placed⟩

theorem WalkCalls.fresh (called : WalkCalls m limits table depth pending p calls outcome) :
    Fresh p calls := by
  induction called with
  | leave | cycle => exact freshNone _
  | known _ _ ih => exact ih
  | tooDeep unresolved inactive => exact (freshNone _).enter unresolved inactive
  | fail unresolved inactive _ _ ih => exact ih.enter unresolved inactive
  | next unresolved inactive within inner _ ihInner ihLater =>
    have called := VisitCalls.walk within unresolved inner
    exact (ihInner.enter unresolved inactive).append ihLater called.placed
      (visitGrows called.visit) (visitRestoresPath called.visit inactive)

theorem VisitCalls.fresh (called : VisitCalls m limits table depth p calls outcome)
    (unresolved : table ∉ p.resolved) (inactive : table ∉ p.active) : Fresh p calls := by
  cases called with
  | tooDeep | known => exact (freshNone _).enter unresolved inactive
  | walk _ _ walk => exact walk.fresh.enter unresolved inactive

theorem VisitCalls.once (called : VisitCalls m limits table depth p calls outcome)
    (idle : p.active = []) : (calls.map Call.table).Nodup := by
  by_cases resolved : table ∈ p.resolved
  · cases called with
    | tooDeep | known => exact List.nodup_singleton _
    | walk _ unresolved => exact absurd resolved unresolved
  · exact (called.fresh resolved (by simp [idle])).once

theorem TablesCalls.fresh (called : TablesCalls m limits tables p calls outcome)
    (idle : p.active = []) : Fresh p calls := by
  induction called with
  | done => exact freshNone _
  | known _ _ ih => exact ih idle
  | fail unresolved visit => exact visit.fresh unresolved (by simp [idle])
  | @next table _ p _ _ _ _ unresolved visit _ ih =>
    have inactive : table ∉ p.active := by simp [idle]
    have path := visitRestoresPath visit.visit inactive
    exact (visit.fresh unresolved inactive).append (ih (path.trans idle)) visit.placed
      (visitGrows visit.visit) path

structure Within (start : Nat) (names : List String) (call : Call) : Prop where
  named : call.table ∈ names
  least : start ≤ call.depth
  most : call.depth < start + names.length

theorem Path.within {active : List String} {marks : Bool}
    (path : Path m start root table depth active) (known : root ∈ names)
    (recorded : ∀ one other, m.Reads one other → other ∈ names) :
    Within start names ⟨table, depth, marks⟩ := by
  obtain ⟨inside, short⟩ := path.short known recorded
  have last : table ∈ active := List.mem_of_getLast? path.last
  have least : start ≤ depth := by
    have some := List.length_pos_of_mem last
    have length := path.depth
    omega
  exact ⟨inside last, least, short⟩

theorem WalkCalls.within (called : WalkCalls m limits table depth pending p calls outcome)
    (path : Path m start root table depth p.active) (due : ∀ name ∈ pending, m.Reads table name)
    (known : root ∈ names) (recorded : ∀ one other, m.Reads one other → other ∈ names) :
    ∀ call ∈ calls, Within start names call := by
  induction called with
  | leave | cycle => exact nofun
  | known _ _ ih => exact ih path fun name later => due name (.tail _ later)
  | tooDeep _ inactive =>
    have onward := path.extend (due _ (.head _)) inactive
    exact List.forall_mem_singleton.2 (onward.within known recorded)
  | fail _ inactive _ _ ih =>
    have onward := path.extend (due _ (.head _)) inactive
    exact List.forall_mem_cons.2 ⟨onward.within known recorded, ih onward fun _ => id⟩
  | next _ inactive _ inner _ ihInner ihLater =>
    have onward := path.extend (due _ (.head _)) inactive
    have restored := walkRestoresPath inner.walk
    rw [enteredErased inactive] at restored
    have later := ihLater (restored ▸ path) fun name later => due name (.tail _ later)
    exact List.forall_mem_cons.2 ⟨onward.within known recorded,
      List.forall_mem_append.2 ⟨ihInner onward fun _ => id, later⟩⟩

theorem VisitCalls.within (called : VisitCalls m limits table depth p calls outcome)
    (idle : p.active = []) (known : table ∈ names)
    (recorded : ∀ one other, m.Reads one other → other ∈ names) :
    ∀ call ∈ calls, Within depth names call := by
  have path : Path m depth table table depth (p.enter table).active := by
    simpa [Progress.enter, idle] using Path.begin m depth table
  cases called with
  | tooDeep | known => exact List.forall_mem_singleton.2 (path.within known recorded)
  | walk _ _ walk =>
    exact List.forall_mem_cons.2 ⟨path.within known recorded,
      walk.within path (fun _ => id) known recorded⟩

theorem TablesCalls.within (called : TablesCalls m limits tables p calls outcome)
    (idle : p.active = []) (known : ∀ table ∈ tables, table ∈ names)
    (recorded : ∀ one other, m.Reads one other → other ∈ names) :
    ∀ call ∈ calls, Within 0 names call := by
  induction called with
  | done => exact nofun
  | known _ _ ih => exact ih idle (List.forall_mem_cons.1 known).2
  | fail _ visit => exact visit.within idle (List.forall_mem_cons.1 known).1 recorded
  | next _ visit _ ih =>
    obtain ⟨first, rest⟩ := List.forall_mem_cons.1 known
    have path := visitRestoresPath visit.visit (by simp [idle])
    exact List.forall_mem_append.2 ⟨visit.within idle first recorded, ih (path.trans idle) rest⟩

structure Bounded (start : Nat) (names : List String) (calls : List Call) : Prop where
  markedOnce : (marked calls).Nodup
  within : ∀ call ∈ calls, Within start names call
  few : calls.length ≤ names.length

theorem boundedOnce (once : (calls.map Call.table).Nodup)
    (within : ∀ call ∈ calls, Within start names call) : Bounded start names calls where
  markedOnce := once.sublist (List.filter_sublist.map Call.table)
  within := within
  few := by
    have inside : calls.map Call.table ⊆ names := by
      intro name member
      obtain ⟨call, known, rfl⟩ := List.mem_map.1 member
      exact (within call known).named
    simpa using (List.subperm_of_subset once inside).length_le

end DependencyMap

namespace Resolver

open DependencyMap (Call TablesCalls VisitCalls WalkCalls Bounded)

variable {r : Resolver}

def concerned (r : Resolver) (asked : List String) : List String :=
  Names.ofList (asked ++ Keyed.names r.tables ++ r.dependencies.entries.flatMap Prod.snd)

theorem concernedAsked {asked : List String} {name : String}
    (known : name ∈ asked ∨ name ∈ Keyed.names r.tables) : name ∈ r.concerned asked :=
  Names.memOfList.2 (List.mem_append_left _ (List.mem_append.2 known))

theorem concernedRecorded {asked : List String} (table name : String)
    (reads : r.dependencies.Reads table name) : name ∈ r.concerned asked := by
  obtain ⟨names, entry, inside⟩ := DependencyMap.memOf.1 reads
  exact Names.memOfList.2
    (List.mem_append_right _ (List.mem_flatMap.2 ⟨(table, names), entry, inside⟩))

/-- What there is to say of the run of a request. A run has no room to use up, so that there is one
says that the recursion ends by itself. -/
structure Ends (r : Resolver) (run : List Call → Except Fault Progress → Prop)
    (answer : Except Fault Resolver) (start : Nat) (names : List String) : Prop where
  ends : ∃ calls outcome, run calls outcome
  answers : ∀ calls outcome, run calls outcome →
    answer = outcome.map fun progress => { r with progress }
  bounded : ∀ calls outcome, run calls outcome → Bounded start names calls

theorem resolveAllEnds (idle : r.progress.active = []) :
    r.Ends (r.dependencies.TablesCalls r.limits (Keyed.names r.tables) r.progress) r.resolveAll 0
      (r.concerned []) where
  ends := DependencyMap.tablesCalls ..
  answers := by
    intro calls outcome called
    rw [resolveAll, called.answer]
    cases outcome <;> rfl
  bounded := fun calls outcome called => DependencyMap.boundedOnce (called.fresh idle).once
    (called.within idle (fun _ known => concernedAsked (.inr known)) concernedRecorded)

theorem resolveForEnds (idle : r.progress.active = []) (table : String) (depth : Nat) :
    r.Ends (r.dependencies.VisitCalls r.limits table depth r.progress) (r.resolveFor table depth)
      depth (r.concerned [table]) where
  ends := by
    obtain ⟨calls, called⟩ :=
      DependencyMap.visitCalls r.dependencies r.limits table depth r.progress
    exact ⟨calls, _, called⟩
  answers := by
    intro calls outcome called
    rw [resolveFor, called.answer]
    cases outcome <;> rfl
  bounded := fun calls outcome called => DependencyMap.boundedOnce (called.once idle)
    (called.within idle (concernedAsked (.inl (.head _))) concernedRecorded)

theorem resolutionEnds (r : Resolver) (idle : r.progress.active = []) :
    r.Ends (r.dependencies.TablesCalls r.limits (Keyed.names r.tables) r.progress) r.resolveAll 0
      (r.concerned []) ∧
    ∀ table depth,
      r.Ends (r.dependencies.VisitCalls r.limits table depth r.progress) (r.resolveFor table depth)
        depth (r.concerned [table]) :=
  ⟨resolveAllEnds idle, resolveForEnds idle⟩

theorem loopedEnds :
    let looped : Resolver :=
      { loopedScanned ⟨18446744073709551615⟩ with progress := ⟨["plants"], []⟩ }
    let fault : Fault := .circular "depots" "routes" ["routes", "depots", "routes"]
    let round : List Call :=
      [⟨"flow", 0, true⟩, ⟨"routes", 1, true⟩, ⟨"depots", 2, true⟩]
    let shared : List Call :=
      [⟨"flow", 3, true⟩, ⟨"routes", 4, true⟩, ⟨"capacity", 4, true⟩]
    looped.progress.active = [] ∧
      TablesCalls looped.dependencies looped.limits (Keyed.names looped.tables) looped.progress
        round (.error fault) ∧
      looped.resolveAll = .error fault ∧
      Bounded 0 ["flow", "routes", "depots", "plants"] round ∧
      (shippingScanned {}).progress.active = [] ∧
      VisitCalls (shippingScanned {}).dependencies {} "flow" 3 {} shared
        (.ok ⟨["routes", "capacity", "flow"], []⟩) ∧
      (shippingScanned {}).resolveFor "flow" 3 =
        .ok { shippingScanned {} with progress := ⟨["routes", "capacity", "flow"], []⟩ } ∧
      Bounded 3 ["flow", "capacity", "routes"] shared := by
  intro looped fault round shared
  have depots : WalkCalls looped.dependencies looped.limits "depots" 2 ["routes"]
      ⟨["plants"], ["flow", "routes", "depots"]⟩ [] (.error fault) :=
    .cycle (by decide) (by decide)
  have routes : WalkCalls looped.dependencies looped.limits "routes" 1 ["plants", "depots"]
      ⟨["plants"], ["flow", "routes"]⟩ [⟨"depots", 2, true⟩] (.error fault) :=
    .known (by decide) (.fail (by decide) (by decide) (by decide) depots)
  have flow : WalkCalls looped.dependencies looped.limits "flow" 0 ["routes"]
      ⟨["plants"], ["flow"]⟩ [⟨"routes", 1, true⟩, ⟨"depots", 2, true⟩] (.error fault) :=
    .fail (by decide) (by decide) (by decide) routes
  have around : TablesCalls looped.dependencies looped.limits (Keyed.names looped.tables)
      looped.progress round (.error fault) := .fail (by decide) (.walk (by decide) (by decide) flow)
  have capacity : WalkCalls (shippingScanned {}).dependencies {} "capacity" 4 ["routes"]
      ⟨["routes"], ["flow", "capacity"]⟩ [] (.ok ⟨["routes", "capacity"], ["flow"]⟩) :=
    .known (by decide) .leave
  have second : WalkCalls (shippingScanned {}).dependencies {} "flow" 3 ["capacity"]
      ⟨["routes"], ["flow"]⟩ [⟨"capacity", 4, true⟩] (.ok ⟨["routes", "capacity", "flow"], []⟩) :=
    @WalkCalls.next _ _ _ _ _ _ _ _ [] [] _ (by decide) (by decide) (by decide) capacity .leave
  have both : VisitCalls (shippingScanned {}).dependencies {} "flow" 3 {} shared
      (.ok ⟨["routes", "capacity", "flow"], []⟩) :=
    .walk (by decide) (by decide)
      (@WalkCalls.next _ _ _ _ _ _ _ _ [] _ _ (by decide) (by decide) (by decide) .leave second)
  have all := (resolutionEnds looped rfl).1
  have single := (resolutionEnds (shippingScanned {}) rfl).2 "flow" 3
  exact ⟨rfl, around, all.answers _ _ around, all.bounded _ _ around, rfl, both,
    single.answers _ _ both, single.bounded _ _ both⟩

end Resolver
end TablePlan
