import TablePlan.Proofs.Waiting
/-! Work under a ceiling and under a higher one. The two go the same way until the lower ceiling is
met, so whatever it does not cut short comes out the same. Of a run that is cut short nothing is
known of the engine under the higher ceiling. -/
namespace TablePlan

variable {α β σ : Type} {low high : Limits}

def CutShort (outcome : Except Fault α) : Prop :=
  ∃ place limit, outcome = .error (.tooDeep place limit)

/- The flat order of outcomes: what is cut short lies below everything, and all else below itself
alone. -/
def Raised (lower upper : Except Fault α) : Prop := CutShort lower ∨ upper = lower

theorem Raised.uncut {lower upper : Except Fault α} (outcomes : Raised lower upper)
    (uncut : ¬CutShort lower) : upper = lower :=
  outcomes.resolve_left uncut

theorem raisedAgrees {outcome : Limits → Except Fault α}
    (raises : ∀ {low high : Limits}, low.maxDepth ≤ high.maxDepth →
      Raised (outcome low) (outcome high)) {limits ceiling : Limits} {value again : α}
    (here : outcome limits = .ok value) (there : outcome ceiling = .ok again) : value = again := by
  rcases Nat.le_total limits.maxDepth ceiling.maxDepth with higher | higher
  · have same := (raises higher).uncut (by simp [CutShort, here])
    exact Except.ok.inj (here.symm.trans (same.symm.trans there))
  · have same := (raises higher).uncut (by simp [CutShort, there])
    exact Except.ok.inj (here.symm.trans (same.trans there))

theorem Raised.refl (outcome : Except Fault α) : Raised outcome outcome := .inr rfl

theorem Raised.bind {first again : Except Fault α} {next later : α → Except Fault β}
    (here : Raised first again) (after : ∀ value, Raised (next value) (later value)) :
    Raised (first >>= next) (again >>= later) := by
  rcases here with ⟨place, limit, rfl⟩ | rfl
  · exact .inl ⟨place, limit, rfl⟩
  · cases again with
    | error fault => exact .refl _
    | ok value => exact after value

theorem Raised.both {γ : Type} {first again : Except Fault α} {second other : Except Fault β}
    (here : Raised first again) (later : Raised second other) (join : α → β → γ) :
    Raised (do return join (← first) (← second)) (do return join (← again) (← other)) :=
  here.bind fun _ => later.bind fun _ => .refl _

theorem checkRaised (raised : low.maxDepth ≤ high.maxDepth) (depth : Nat) (place : Place) :
    Raised (low.check depth place) (high.check depth place) := by
  unfold Limits.check
  by_cases deep : low.maxDepth < depth
  · exact .inl ⟨place, low.maxDepth, if_pos deep⟩
  · refine .inr ?_
    rw [if_neg deep, if_neg (by omega)]

namespace Clause

mutual

theorem scanRaised (raised : low.maxDepth ≤ high.maxDepth) (depth : Nat) :
    (query : Clause) → Raised (query.scan low depth) (query.scan high depth)
  | .object entries => by
    unfold scan
    exact (checkRaised raised depth _).bind fun _ => scanEntriesRaised raised depth entries
  | .literal _ | .list _ => by
    unfold scan
    exact (checkRaised raised depth _).bind fun _ => .refl _

theorem scanEntriesRaised (raised : low.maxDepth ≤ high.maxDepth) (depth : Nat) :
    (entries : List (String × Clause)) →
    Raised (scanEntries low depth entries) (scanEntries high depth entries)
  | [] => .refl _
  | (key, predicate) :: rest => by
    have later := scanEntriesRaised raised depth rest
    unfold scanEntries
    cases predicate with
    | literal text => exact .both (.refl _) later _
    | object entries => exact .both (scanRaised raised (depth + 1) (.object entries)) later _
    | list items => exact .both (scanItemsRaised raised depth key items) later _

theorem scanItemsRaised (raised : low.maxDepth ≤ high.maxDepth) (depth : Nat) (key : String) :
    (items : List Clause) → Raised (scanItems low depth key items) (scanItems high depth key items)
  | [] => .refl _
  | item :: rest => by
    have later := scanItemsRaised raised depth key rest
    unfold scanItems
    cases item with
    | literal text => exact .both (.refl _) later _
    | object entries => exact .both (scanRaised raised depth (.object entries)) later _
    | list items => exact .both (.refl _) later _

end

mutual

theorem renderRaised (raised : low.maxDepth ≤ high.maxDepth) (depth : Nat) :
    (node : Clause) → Raised (render low depth node) (render high depth node)
  | .literal _ => .refl _
  | .list items => by
    unfold render
    exact (renderItemsRaised raised depth items).bind fun _ => .refl _
  | .object entries => by
    unfold render
    exact (checkRaised raised depth _).bind fun _ =>
      (renderEntriesRaised raised depth entries).bind fun _ => .refl _

theorem renderItemsRaised (raised : low.maxDepth ≤ high.maxDepth) (depth : Nat) :
    (items : List Clause) → Raised (renderItems low depth items) (renderItems high depth items)
  | [] => .refl _
  | item :: rest => by
    unfold renderItems
    exact .both (renderRaised raised depth item) (renderItemsRaised raised depth rest) _

theorem renderEntriesRaised (raised : low.maxDepth ≤ high.maxDepth) (depth : Nat) :
    (entries : List (String × Clause)) →
    Raised (renderEntries low depth entries) (renderEntries high depth entries)
  | [] => .refl _
  | (_, predicate) :: rest => by
    unfold renderEntries
    exact .both (renderRaised raised (predicateDepth depth predicate) predicate)
      (renderEntriesRaised raised depth rest) _

end

variable (raised : low.maxDepth ≤ high.maxDepth)
include raised

theorem dependenciesRaised (query : Clause) (depth : Nat) :
    Raised (query.dependencies low depth) (query.dependencies high depth) :=
  (scanRaised raised depth query).bind fun _ => .refl _

theorem sqlRaised (query : Clause) : Raised (query.sql low) (query.sql high) :=
  (renderRaised raised 0 query).bind fun _ => .refl _

end Clause

namespace DependencyMap

theorem followRaised {visit again : String → Progress → Except Fault Progress} {table : String}
    (visited : ∀ name p, Raised (visit name p) (again name p)) (names : List String)
    (p : Progress) : Raised (follow visit table names p) (follow again table names p) := by
  induction names generalizing p with
  | nil => exact .refl _
  | cons name rest ih =>
    unfold follow
    cases p.standing name with
    | resolved => exact ih p
    | unresolved => exact .refl _
    | notYetConsidered => exact (visited name p).bind ih

variable (raised : low.maxDepth ≤ high.maxDepth)
include raised

theorem visitRaised (m : DependencyMap) (room : Nat) (table : String) (depth : Nat)
    (p : Progress) : Raised (m.visit low room table depth p) (m.visit high room table depth p) := by
  induction room generalizing table depth p with
  | zero => exact .refl _
  | succ room ih =>
    unfold visit
    refine (checkRaised raised depth _).bind fun _ => ?_
    split
    · exact .refl _
    · exact (followRaised (fun name => ih name (depth + 1)) _ _).bind fun _ => .refl _

theorem resolveTablesRaised (m : DependencyMap) (tables : List String) (p : Progress) :
    Raised (m.resolveTables low tables p) (m.resolveTables high tables p) := by
  induction tables generalizing p with
  | nil => exact .refl _
  | cons table rest ih =>
    unfold resolveTables
    split
    · exact ih p
    · exact (visitRaised raised m _ table 0 p).bind ih

end DependencyMap

section Higher

variable (raised : low.maxDepth ≤ high.maxDepth)
include raised

theorem Resolver.scanTablesRaised (m : DependencyMap) (tables : List (String × Option Clause)) :
    Raised (scanTables low m tables) (scanTables high m tables) := by
  induction tables generalizing m with
  | nil => exact .refl _
  | cons entry rest ih =>
    obtain ⟨table, query?⟩ := entry
    cases query? with
    | none => exact ih m
    | some query =>
      exact (query.dependenciesRaised raised 0).bind fun names => ih (m.put table names)

theorem Statement.ofQueryRaised (table : String) (query : Clause) :
    Raised (ofQuery low table query) (ofQuery high table query) :=
  (query.sqlRaised raised).bind fun _ => .refl _

namespace Engine

variable (e : Engine σ)

def RaisedRun (lower upper : Except Fault α × σ) : Prop := CutShort lower.1 ∨ upper = lower

theorem runQueryRaised (table : String) (query : Clause) (s : σ) :
    RaisedRun (e.runQuery low table query s) (e.runQuery high table query s) := by
  rcases Statement.ofQueryRaised raised table query with ⟨place, limit, cut⟩ | same
  · exact .inl ⟨place, limit, by simp only [runQuery, cut]⟩
  · exact .inr (by simp only [runQuery, same])

theorem stageRaised (c : Catalog) (names : List String) (s : σ) :
    RaisedRun (e.stage low c names s) (e.stage high c names s) := by
  induction names generalizing s with
  | nil => exact .inr rfl
  | cons name rest ih =>
    cases holds : c.query? name with
    | none => simpa only [stage, holds] using ih s
    | some query =>
      have here := e.runQueryRaised raised name query s
      simp only [RaisedRun, stage, holds]
      generalize e.runQuery low name query s = lower at here ⊢
      obtain ⟨outcome, after⟩ := lower
      rcases here with ⟨place, limit, rfl⟩ | same
      · exact .inl ⟨place, limit, rfl⟩
      rw [same]
      cases outcome with
      | error fault => exact .inr rfl
      | ok content =>
        have later := ih after
        dsimp only
        generalize e.stage low c rest after = lower at later ⊢
        obtain ⟨outcome, last⟩ := lower
        rcases later with ⟨place, limit, rfl⟩ | same
        · exact .inl ⟨place, limit, rfl⟩
        · exact .inr (by rw [same])

end Engine

namespace Catalog

variable (c : Catalog)

theorem orderRaised : Raised (c.order low) (c.order high) := by
  rw [orderSteps, orderSteps]
  exact (Resolver.scanTablesRaised raised _ _).bind fun m =>
    (m.resolveTablesRaised raised _ _).bind fun _ => .refl _

theorem statementsRaised (names : List String) :
    Raised (c.statements low names) (c.statements high names) := by
  induction names with
  | nil => exact .refl _
  | cons name rest ih =>
    unfold statements
    cases c.query? name with
    | none => exact ih
    | some query => exact .both (Statement.ofQueryRaised raised name query) ih _

theorem planRaised : Raised (c.plan low) (c.plan high) :=
  (c.orderRaised raised).bind (c.statementsRaised raised)

theorem materializeRaised (e : Engine σ) (s : σ) :
    CutShort (c.materializeAll e low s).result ∨
      c.materializeAll e high s = c.materializeAll e low s := by
  unfold materializeAll
  rcases c.orderRaised raised with ⟨place, limit, cut⟩ | same
  · exact .inl ⟨place, limit, by rw [cut]⟩
  rw [same]
  cases c.order low with
  | error fault => exact .inr rfl
  | ok names =>
    dsimp only
    generalize e.registerAll c.tables s = told
    obtain ⟨outcome, after⟩ := told
    cases outcome with
    | error fault => exact .inr rfl
    | ok _ =>
      have staged := e.stageRaised raised c names after
      dsimp only
      generalize e.stage low c names after = lower at staged ⊢
      obtain ⟨outcome, last⟩ := lower
      rcases staged with ⟨place, limit, rfl⟩ | same
      · exact .inl ⟨place, limit, rfl⟩
      · exact .inr (by rw [same])

theorem traceRaised (e : Engine σ) (s : σ) (uncut : ¬CutShort (c.materializeAll e low s).result) :
    c.trace e high s = c.trace e low s := by
  rcases c.materializeRaised raised e.recorded (s, []) with cut | same
  · rw [(c.traced e low s).1] at cut
    exact absurd cut uncut
  · rw [trace, trace, same]

end Catalog

end Higher

theorem ceilingOnlyStops {low high : Limits} (raised : low.maxDepth ≤ high.maxDepth) :
    (∀ query : Clause, ¬CutShort (query.sql low) → query.sql high = query.sql low) ∧
      (∀ (query : Clause) (depth : Nat), ¬CutShort (query.dependencies low depth) →
        query.dependencies high depth = query.dependencies low depth) ∧
      (∀ c : Catalog, ¬CutShort (c.order low) → c.order high = c.order low) ∧
      (∀ c : Catalog, ¬CutShort (c.plan low) → c.plan high = c.plan low) ∧
      ∀ {σ : Type} (c : Catalog) (e : Engine σ) (s : σ),
        ¬CutShort (c.materializeAll e low s).result →
        c.materializeAll e high s = c.materializeAll e low s ∧
          c.trace e high s = c.trace e low s :=
  ⟨fun query => (query.sqlRaised raised).uncut,
    fun query depth => (query.dependenciesRaised raised depth).uncut,
    fun c => (c.orderRaised raised).uncut,
    fun c => (c.planRaised raised).uncut,
    fun c e s uncut => ⟨(c.materializeRaised raised e s).resolve_left uncut,
      c.traceRaised raised e s uncut⟩⟩

namespace Catalog

def circling : Catalog := .ofTables [
    { name := "supply", tableClass := .constraint, kind := "ROW",
      body := .query (.object [("SELECT", .literal "Plant -- STRING"),
        ("FROM", .literal "flow")]) },
    { name := "flow", tableClass := .decision, kind := "COLUMN",
      body := .query (.object [("SELECT", .literal "Plant -- STRING"),
        ("FROM", .literal "supply")]) }] (by decide)

theorem shippingUncut :
    (shipping.materializeAll (counting 5) ⟨9⟩ 0).result = .ok ["flow", "supply"] ∧
      shipping.trace (counting 5) ⟨9⟩ 0 = shipping.trace (counting 5) ⟨2⟩ 0 ∧
      circling.order ⟨9⟩ = .error (.circular "flow" "supply" ["supply", "flow", "supply"]) ∧
      CutShort (shipping.order ⟨1⟩) ∧ CutShort (circling.order ⟨0⟩) := by
  have done : (shipping.materializeAll (counting 5) ⟨2⟩ 0).result = .ok ["flow", "supply"] := by
    decide +kernel
  have refused : circling.order ⟨2⟩ =
      .error (.circular "flow" "supply" ["supply", "flow", "supply"]) := by decide +kernel
  have higher : (⟨2⟩ : Limits).maxDepth ≤ (⟨9⟩ : Limits).maxDepth := by decide
  obtain ⟨_, _, ordered, _, filled⟩ := ceilingOnlyStops higher
  obtain ⟨same, traced⟩ := filled shipping (counting 5) 0 (by simp [CutShort, done])
  refine ⟨same ▸ done, traced, (ordered circling (by simp [CutShort, refused])).trans refused,
    ⟨.resolution "routes" 2, 1, by decide +kernel⟩, ⟨.resolution "flow" 1, 0, by decide +kernel⟩⟩

end Catalog
end TablePlan
