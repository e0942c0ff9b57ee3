import TablePlan.Catalog.Plan
import TablePlan.Proofs.Run
/-! Tables of a catalog by their names, and what is known of the order in which they are brought. -/
namespace TablePlan.Catalog

variable {c : Catalog} {t : Table} {name : String} {names : List String} {query : Clause}
  {limits : Limits}

def ofTables (tables : List Table) (distinct : (tables.map Table.name).Nodup) : Catalog where
  entries := tables.map fun t => (t.name, t)
  distinct := by simpa [Keyed.names, Function.comp_def] using distinct
  filed := by
    intro entry member
    obtain ⟨t, _, rfl⟩ := List.mem_map.1 member
    rfl

theorem ofTablesKeeps {tables : List Table} (distinct : (tables.map Table.name).Nodup) :
    (ofTables tables distinct).tables = tables := by
  simp [ofTables, Catalog.tables, Function.comp_def]

theorem entriesExact (c : Catalog) : c.entries = c.tables.map fun t => (t.name, t) := by
  rw [tables, List.map_map]
  refine (List.map_id _).symm.trans (List.map_congr_left fun entry held => ?_)
  exact Prod.ext (c.filed entry held) rfl

theorem sameTables {next : Catalog} (same : c.tables = next.tables) : c = next := by
  have entries : c.entries = next.entries := by rw [entriesExact, entriesExact, same]
  cases c
  cases next
  cases entries
  rfl

theorem findExact : c.find? name = some t ↔ t ∈ c.tables ∧ t.name = name := by
  rw [find?, Keyed.findExact c.distinct, entriesExact, List.mem_map]
  constructor
  · rintro ⟨_, member, same⟩
    cases same
    exact ⟨member, rfl⟩
  · rintro ⟨member, rfl⟩
    exact ⟨t, member, rfl⟩

theorem findOf (member : t ∈ c.tables) : c.find? t.name = some t :=
  findExact.2 ⟨member, rfl⟩

theorem changeTables {f : Table → Table} (kept : ∀ t, (f t).name = t.name) :
    (c.change name f kept).tables = c.tables.map fun t => if t.name = name then f t else t := by
  have entries : (c.change name f kept).entries = Keyed.change name f c.entries := rfl
  rw [tables, entries, entriesExact, Keyed.change, List.map_map, List.map_map]
  rfl

theorem insertFresh (fresh : t.name ∉ c.names) :
    ∃ next, c.insert t = .ok next ∧ next.tables = c.tables ++ [t] :=
  ⟨_, dif_pos fresh, List.map_append⟩

theorem changeFound {f g : Table → Table} (found : c.find? name = some t)
    (kept : ∀ t, (f t).name = t.name) (also : ∀ t, (g t).name = t.name) (same : f t = g t) :
    c.change name f kept = c.change name g also := by
  refine sameTables ((changeTables kept).trans (.trans ?_ (changeTables also).symm))
  refine List.map_congr_left fun held member => ?_
  split
  · rename_i named
    have alone : held = t := Option.some.inj ((findOf member).symm.trans (named ▸ found))
    rw [alone, same]
  · rfl

theorem changeNone (c : Catalog) : c.change name id (fun _ => rfl) = c :=
  sameTables ((changeTables _).trans (by simp))

theorem fillTables {content : Instance} : (c.fill name content).tables =
    c.tables.map fun t => if t.name = name then t.fill content else t :=
  changeTables _

theorem bodyOfQuery : t.query? = some query ↔ t.body = .query query := by
  unfold Table.query?
  split <;> simp_all

theorem queryExact : c.query? name = some query ↔
    ∃ t ∈ c.tables, t.name = name ∧ t.body = .query query := by
  simp only [query?, Option.bind_eq_some_iff, findExact, bodyOfQuery, and_assoc]

theorem queryOf (member : t ∈ c.tables) : c.query? t.name = t.query? := by
  simp [query?, findOf member]

theorem orderSteps (c : Catalog) (limits : Limits) : c.order limits = do
    let m ← Resolver.scanTables limits .empty (c.resolver limits).tables
    let p ← m.resolveTables limits (Keyed.names (c.resolver limits).tables) {}
    return p.resolved := by
  refine .trans ?_ (c.resolver limits).resolveSteps
  unfold order
  generalize (c.resolver limits).resolve = ended
  obtain ⟨_ | _, _⟩ := ended <;> rfl

structure Arranged (c : Catalog) (limits : Limits) (names : List String) : Prop where
  distinct : names.Nodup
  complete : ∀ t ∈ c.tables, t.name ∈ names
  ordered : ∀ before name after query, names = before ++ name :: after →
    c.query? name = some query →
    ∃ found, query.dependencies limits 0 = .ok found ∧ ∀ other ∈ found, other ∈ before

theorem orderArranged (ran : c.order limits = .ok names) : Arranged c limits names := by
  rw [orderSteps] at ran
  obtain ⟨m, tables, ran⟩ := bindOk.1 ran
  obtain ⟨p, resolved, last⟩ := bindOk.1 ran
  cases last
  obtain ⟨step, complete⟩ := DependencyMap.resolveTablesExtends resolved m.soundFresh rfl
  refine ⟨step.sound.distinct, fun t member => complete t.name ?_, ?_⟩
  · exact List.mem_map.2 ⟨(t.name, t.query?), List.mem_map.2 ⟨t, member, rfl⟩, rfl⟩
  · intro before name after query cut holds
    obtain ⟨t, member, rfl, body⟩ := queryExact.1 holds
    have entry : (t.name, some query) ∈ (c.resolver limits).tables :=
      List.mem_map.2 ⟨t, member, by rw [bodyOfQuery.2 body]⟩
    exact ⟨_, Resolver.scanTablesOf tables (c.resolver limits).distinct entry,
      step.sound.ordered before t.name after cut⟩

end TablePlan.Catalog
