import TablePlan.Proofs.Run
/-! Runs of a resolver in which anything may be asked for at any time. What is resolved before a
scan has succeeded is taken to depend on nothing, and it keeps its place from then on. All that
comes behind it is in order, so that the whole order is one in which dependencies come first exactly
when that early part is. -/
namespace TablePlan

namespace DependencyMap

variable {m other : DependencyMap} {limits : Limits} {table name : String} {depth : Nat}
  {pending order early tables names : List String} {p : Progress}
  {outcome : Except Fault Progress}

def without (m : DependencyMap) (names : List String) : DependencyMap where
  entries := m.entries.filter fun entry => entry.1 ∉ names
  keysDistinct := m.keysDistinct.sublist (List.filter_sublist.map Prod.fst)
  setsDistinct := fun entry member => m.setsDistinct entry (List.mem_of_mem_filter member)

theorem ofWithoutNamed (named : name ∈ names) : (m.without names).of name = [] := by
  have fresh : name ∉ Keyed.names (m.without names).entries := by
    intro known
    obtain ⟨entry, member, same⟩ := List.mem_map.1 known
    have apart : entry.1 ∉ names := by simpa using List.of_mem_filter member
    exact apart (same ▸ named)
  rw [of, Keyed.findFresh fresh]
  rfl

theorem ofWithoutOther (other : name ∉ names) : (m.without names).of name = m.of name := by
  have same : ∀ value, (name, value) ∈ (m.without names).entries ↔ (name, value) ∈ m.entries := by
    intro value
    simp [without, other]
  rw [of, of, Keyed.findAgrees (m.without names).keysDistinct m.keysDistinct same]

theorem orderedWithout (m : DependencyMap) (order : List String) :
    (m.without order).Ordered order := by
  intro before table after cut name reads
  have placed : table ∈ order := by simp [cut]
  simp [ofWithoutNamed placed] at reads

theorem orderedFromEarly (begins : early <+: order) (distinct : order.Nodup)
    (later : (m.without early).Ordered order) : m.Ordered order ↔ m.Ordered early := by
  refine ⟨fun ordered => orderedFront ordered begins, fun ordered before table after cut => ?_⟩
  by_cases inside : table ∈ early
  · obtain ⟨rest, rfl⟩ := begins
    rcases cutAppend cut with ⟨between, here, _⟩ | ⟨between, _, behind⟩
    · exact ordered before table between here
    · have again : table ∈ rest := by simp [behind]
      exact absurd rfl ((List.nodup_append.1 distinct).2.2 table inside table again)
  · exact ofWithoutOther (m := m) inside ▸ later before table after cut

theorem walkAgrees (walk : Walk m limits table depth pending p outcome)
    (same : ∀ name, name ∉ p.resolved → other.of name = m.of name) :
    Walk other limits table depth pending p outcome := by
  induction walk with
  | leave => exact .leave
  | known resolved _ ih => exact .known resolved (ih same)
  | cycle unresolved active => exact .cycle unresolved active
  | tooDeep unresolved inactive deep => exact .tooDeep unresolved inactive deep
  | fail unresolved inactive within _ ih =>
    exact .fail unresolved inactive within (same _ unresolved ▸ ih same)
  | @next _ _ name _ p _ _ unresolved inactive within inner _ ihInner ihLater =>
    obtain ⟨found, grown⟩ := walkGrows inner
    refine .next unresolved inactive within (same name unresolved ▸ ihInner same)
      (ihLater fun name fresh => same name fun old => fresh ?_)
    simp [grown, Progress.enter, old]

theorem resolveTableAgrees (same : ∀ name, name ∉ p.resolved → other.of name = m.of name) :
    other.resolveTable limits table depth p = m.resolveTable limits table depth p := by
  refine resolveTableExact.2 ?_
  have visit : Visit m limits table depth p (m.resolveTable limits table depth p) :=
    resolveTableExact.1 rfl
  generalize m.resolveTable limits table depth p = outcome at visit ⊢
  cases visit with
  | tooDeep deep => exact .tooDeep deep
  | known within resolved => exact .known within resolved
  | walk within unresolved walk =>
    exact .walk within unresolved (same table unresolved ▸ walkAgrees walk same)

theorem resolveTablesAgree (same : ∀ name, name ∉ p.resolved → other.of name = m.of name) :
    other.resolveTables limits tables p = m.resolveTables limits tables p := by
  induction tables generalizing p with
  | nil => rfl
  | cons table rest ih =>
    rw [resolveTables, resolveTables, ih same, resolveTableAgrees same]
    split
    · rfl
    · cases first : m.resolveTable limits table 0 p with
      | error fault => rfl
      | ok q =>
        have grown := visitGrows (resolveTableExact.1 first)
        exact ih fun name fresh => same name fun old => fresh (grown.subset old)

end DependencyMap

namespace Resolver

variable {tables : List (String × Option Clause)} {early : Option (List String)}
  {r next : Resolver} {request : Request} {p : Progress}

/-- What is resolved when a scan first succeeds. -/
def earlyOrder (r : Resolver) (early : Option (List String)) (request : Request) :
    Option (List String) :=
  early.or (if r.scanSucceeds request then some r.order else none)

inductive Led (tables : List (String × Option Clause)) :
    Option (List String) → Resolver → Prop where
  | start {r : Resolver} (built : ofTables tables = .ok r) : Led tables none r
  | step {early : Option (List String)} {r : Resolver} (led : Led tables early r)
      (request : Request) : Led tables (r.earlyOrder early request) (r.perform request).2

structure Lasts (tables : List (String × Option Clause)) (early : Option (List String))
    (r : Resolver) : Prop where
  tables : r.tables = tables
  idle : r.progress.active = []
  distinct : r.order.Nodup
  unscanned : early = none → r.dependencies = .empty
  scanned : early ≠ none → Known r
  front : early.getD [] <+: r.order
  ordered : (r.dependencies.without (early.getD [])).Ordered r.order

theorem startLasts (built : ofTables tables = .ok r) : Lasts tables none r := by
  unfold ofTables at built
  split at built
  · cases built
  · cases built
    exact ⟨rfl, rfl, List.nodup_nil, fun _ => rfl, fun some => absurd rfl some, List.prefix_rfl,
      DependencyMap.orderedNil _⟩

theorem Lasts.sound (lasts : Lasts tables early r) :
    (r.dependencies.without (early.getD [])).Sound r.progress where
  distinct := lasts.distinct
  pathDistinct := by simp [lasts.idle]
  apart := by simp [lasts.idle]
  ordered := lasts.ordered

theorem Lasts.agrees (lasts : Lasts tables early r) (name : String) (fresh : name ∉ r.order) :
    (r.dependencies.without (early.getD [])).of name = r.dependencies.of name :=
  DependencyMap.ofWithoutOther fun inside => fresh (lasts.front.subset inside)

theorem Lasts.extend (lasts : Lasts tables early r)
    (step : (r.dependencies.without (early.getD [])).Extends r.progress p) :
    Lasts tables early { r with progress := p } where
  tables := lasts.tables
  idle := step.path.trans lasts.idle
  distinct := step.sound.distinct
  unscanned := lasts.unscanned
  scanned := lasts.scanned
  front := lasts.front.trans step.order
  ordered := step.sound.ordered

theorem Lasts.scan (lasts : Lasts tables early r) (ran : r.scan = .ok next) :
    Lasts tables (early.or (some r.order)) next := by
  cases scanKnows ran
  cases early with
  | none =>
    exact ⟨lasts.tables, lasts.idle, lasts.distinct, nofun, fun _ => rfl, List.prefix_rfl,
      DependencyMap.orderedWithout _ _⟩
  | some early =>
    have known : r.dependencies = _ := lasts.scanned nofun
    exact ⟨lasts.tables, lasts.idle, lasts.distinct, nofun, fun _ => rfl, lasts.front,
      known ▸ lasts.ordered⟩

theorem Lasts.resolveAll (lasts : Lasts tables early r) :
    Lasts tables early (r.perform .resolveAll).2 := by
  cases ran : r.resolveAll with
  | error fault => simpa [perform, ran, attempt] using lasts
  | ok next =>
    obtain ⟨p, resolved, last⟩ := bindOk.1 ran
    cases last
    rw [← DependencyMap.resolveTablesAgree lasts.agrees] at resolved
    have step := (DependencyMap.resolveTablesExtends resolved lasts.sound lasts.idle).1
    simpa [perform, ran, attempt] using lasts.extend step

theorem Lasts.resolveFor (lasts : Lasts tables early r) (table : String) (depth : Nat) :
    Lasts tables early (r.perform (.resolveFor table depth)).2 := by
  cases ran : r.resolveFor table depth with
  | error fault => simpa [perform, ran, attempt] using lasts
  | ok next =>
    obtain ⟨p, resolved, last⟩ := bindOk.1 ran
    cases last
    rw [← DependencyMap.resolveTableAgrees lasts.agrees] at resolved
    have inactive : table ∉ r.progress.active := by simp [lasts.idle]
    have step := (DependencyMap.resolveTableExtends resolved lasts.sound inactive).1
    simpa [perform, ran, attempt] using lasts.extend step

theorem Lasts.perform (lasts : Lasts tables early r) (request : Request) :
    Lasts tables (r.earlyOrder early request) (r.perform request).2 := by
  cases request with
  | scan =>
    cases ran : r.scan with
    | error fault =>
      simpa [Resolver.perform, ran, attempt, earlyOrder, scanSucceeds, Except.isOk, Except.toBool]
        using lasts
    | ok next =>
      simpa [Resolver.perform, ran, attempt, earlyOrder, scanSucceeds, Except.isOk, Except.toBool]
        using lasts.scan ran
  | resolveAll => simpa [earlyOrder, scanSucceeds] using lasts.resolveAll
  | resolveFor table depth => simpa [earlyOrder, scanSucceeds] using lasts.resolveFor table depth
  | resolve =>
    cases ran : r.scan with
    | error fault =>
      simpa [Resolver.perform, Resolver.resolve, ran, earlyOrder, scanSucceeds, Except.isOk,
        Except.toBool] using lasts
    | ok next =>
      simpa [resolveAfterScan ran, earlyOrder, scanSucceeds, ran, Except.isOk, Except.toBool]
        using (lasts.scan ran).resolveAll
  | limit limits =>
    have moved : Lasts tables early { r with limits } :=
      ⟨lasts.tables, lasts.idle, lasts.distinct, lasts.unscanned, lasts.scanned, lasts.front,
        lasts.ordered⟩
    simpa [Resolver.perform, earlyOrder, scanSucceeds] using moved

theorem ledLasts (led : Led tables early r) : Lasts tables early r := by
  induction led with
  | start built => exact startLasts built
  | step _ request ih => exact ih.perform request

theorem earlyOrderDecides (led : Led tables early r) (done : (r.perform .resolve).1 = .ok ()) :
    let after := (r.perform .resolve).2
    let front := early.getD r.order
    Known after ∧ after.order.Nodup ∧ front <+: after.order ∧
      (∀ before table later, after.order = before ++ table :: later → table ∉ front →
        ∀ name ∈ after.dependencies.of table, name ∈ before) ∧
      (after.dependencies.Ordered after.order ↔ after.dependencies.Ordered front) := by
  cases ran : r.scan with
  | error fault => simp [Resolver.perform, resolve, ran] at done
  | ok next =>
    have after := ((ledLasts led).scan ran).resolveAll
    have front : (early.or (some r.order)).getD [] = early.getD r.order := by cases early <;> rfl
    obtain ⟨-, -, distinct, -, scanned, begins, ordered⟩ := after
    rw [front] at begins ordered
    rw [resolveAfterScan ran]
    have known := scanned (by cases early <;> simp)
    refine ⟨known, distinct, begins, fun before table later cut apart => ?_,
      DependencyMap.orderedFromEarly begins distinct ordered⟩
    exact DependencyMap.ofWithoutOther apart ▸ ordered before table later cut

def hasty : List (String × Option Clause) :=
  [("flow", some (.object [("FROM", .literal "routes")])), ("routes", none)]

def hastyResolved : Resolver where
  tables := hasty
  distinct := by decide
  progress := ⟨["flow", "routes"], []⟩

theorem hastyMisordered :
    Led hasty none hastyResolved ∧ (hastyResolved.perform .resolve).1 = .ok () ∧
      (hastyResolved.perform .resolve).2.order = ["flow", "routes"] ∧
      (hastyResolved.perform .resolve).2.dependencies.of "flow" = ["routes"] ∧
      ¬ (hastyResolved.perform .resolve).2.dependencies.Ordered
        (hastyResolved.perform .resolve).2.order := by
  have start : Led hasty none ⟨hasty, by decide, {}, .empty, {}⟩ := .start rfl
  refine ⟨start.step .resolveAll, rfl, rfl, rfl, fun ordered => ?_⟩
  have none : "routes" ∈ [] := ordered [] "flow" ["routes"] rfl "routes" (by decide)
  cases none

def shippingHasty : Resolver :=
  { shippingScanned {} with progress := ⟨["capacity"], []⟩ }

theorem shippingMisordered :
    Led shipping (some ["capacity"]) shippingHasty ∧
      (shippingHasty.perform .resolve).1 = .ok () ∧
      (shippingHasty.perform .resolve).2.order = ["capacity", "routes", "flow"] ∧
      (∀ name ∈ (shippingHasty.perform .resolve).2.dependencies.of "flow",
        name ∈ ["capacity", "routes"]) ∧
      ¬ (shippingHasty.perform .resolve).2.dependencies.Ordered
        (shippingHasty.perform .resolve).2.order := by
  have start : Led shipping none ⟨shipping, by decide, {}, .empty, {}⟩ := .start rfl
  have low := (start.step (.resolveFor "capacity" 0)).step (.limit ⟨0⟩)
  have led : Led shipping (some ["capacity"]) shippingHasty := (low.step .resolve).step (.limit {})
  have done : (shippingHasty.perform .resolve).1 = .ok () := rfl
  obtain ⟨_, _, _, later, decides⟩ := earlyOrderDecides led done
  refine ⟨led, done, rfl, later ["capacity", "routes"] "flow" [] rfl (by decide), ?_⟩
  refine fun ordered => absurd (decides.1 ordered) fun early => ?_
  have none : "routes" ∈ [] := early [] "capacity" [] rfl "routes" (by decide)
  cases none

end Resolver
end TablePlan
