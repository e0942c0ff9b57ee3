import TablePlan.Dependency.Resolver
import TablePlan.Table.Basic
/-! Catalogs: tables under distinct names, in the order in which they came. A table is put under its
own name and changes no name later, so it can be found under that name only. -/
namespace TablePlan

structure Catalog where
  entries : List (String × Table)
  distinct : (Keyed.names entries).Nodup
  filed : ∀ entry ∈ entries, entry.1 = entry.2.name
  deriving DecidableEq, Repr

namespace Catalog

def empty : Catalog := ⟨[], List.nodup_nil, nofun⟩

def tables (c : Catalog) : List Table := c.entries.map Prod.snd

def names (c : Catalog) : List String := Keyed.names c.entries

def find? (c : Catalog) (name : String) : Option Table := Keyed.find? name c.entries

theorem tableNames (c : Catalog) : c.tables.map Table.name = c.names := by
  rw [tables, names, Keyed.names, List.map_map]
  exact (List.map_congr_left c.filed).symm

theorem tablesDistinct (c : Catalog) : (c.tables.map Table.name).Nodup :=
  c.tableNames ▸ c.distinct

def require (c : Catalog) (name : String) : Except Fault Table :=
  match c.find? name with
  | some t => .ok t
  | none => .error (.unknownTable name)

def insert (c : Catalog) (t : Table) : Except Fault Catalog :=
  if fresh : t.name ∉ c.names then
    .ok {
      entries := c.entries ++ [(t.name, t)]
      distinct := by
        rw [Keyed.namesAppend]
        exact Keyed.freshDistinct c.distinct fresh
      filed := by
        intro entry member
        rcases List.mem_append.1 member with held | last
        · exact c.filed entry held
        · cases List.mem_singleton.1 last
          rfl }
  else .error (.format (.repeatedTable t.name))

def change (c : Catalog) (name : String) (f : Table → Table) (kept : ∀ t, (f t).name = t.name) :
    Catalog where
  entries := Keyed.change name f c.entries
  distinct := by
    rw [Keyed.namesChange]
    exact c.distinct
  filed := by
    intro entry member
    obtain ⟨⟨key, t⟩, held, rfl⟩ := List.mem_map.1 member
    have own : key = t.name := c.filed _ held
    dsimp only
    split
    · rw [kept, own]
    · exact own

def fill (c : Catalog) (name : String) (content : Instance) : Catalog :=
  c.change name (fun t => t.fill content) fun _ => rfl

def materialize (c : Catalog) (name : String) (content : Instance) :
    Except Fault (Clause × Catalog) :=
  match c.find? name with
  | none => .error (.unknownTable name)
  | some t => do
    let (query, _) ← t.materialize content
    return (query, c.fill name content)

def resolver (c : Catalog) (limits : Limits) : Resolver where
  tables := c.tables.map fun t => (t.name, t.query?)
  distinct := by
    have same : Keyed.names (c.tables.map fun t => (t.name, t.query?)) =
        c.tables.map Table.name := by
      simp [Keyed.names, Function.comp_def]
    rw [same]
    exact c.tablesDistinct
  limits := limits

def order (c : Catalog) (limits : Limits) : Except Fault (List String) :=
  match (c.resolver limits).resolve with
  | (.ok (), r) => .ok r.order
  | (.error fault, _) => .error fault

end Catalog
end TablePlan
