import TablePlan.Proofs.Lookup
import TablePlan.Proofs.References
/-! Tables that queries name. A literal is read without the blanks around it and names nothing if it
is blank, while a catalog takes tables under any name. So a name is of use to queries only if it is
what it is itself read as: then every query with a literal of just that name waits for its table. -/
namespace TablePlan

def Nameable (name : String) : Prop := name ≠ "" ∧ Text.trim name.toList = name.toList

instance (name : String) : Decidable (Nameable name) :=
  inferInstanceAs (Decidable (name ≠ "" ∧ Text.trim name.toList = name.toList))

namespace Text

theorem Trimmed.again {text name : List Char} (trimmed : Trimmed text name) : Trimmed name name :=
  ⟨⟨[], [], by simp, nofun, nofun⟩, trimmed.starts, trimmed.ends⟩

end Text

namespace Clause

variable {query : Clause} {directive name : String} {path : List Nat} {limits : Limits}
  {depth : Nat} {found : List String}

theorem refersNameable (refers : query.Refers path name) : Nameable name := by
  obtain ⟨shown, _, _, _, _, trimmed⟩ := refers
  exact ⟨shown, Text.trimExact.2 trimmed.again⟩

theorem namedRefers (table : directive ∈ tableDirectives)
    (governed : Governs directive name query path) (nameable : Nameable name) :
    query.Refers path name :=
  ⟨nameable.1, directive, table, name, governed, Text.trimExact.1 nameable.2⟩

theorem namedFound (ran : query.dependencies limits depth = .ok found)
    (table : directive ∈ tableDirectives) (governed : Governs directive name query path) :
    name ∈ found ↔ Nameable name := by
  rw [(dependenciesReferred ran).exact]
  exact ⟨fun ⟨_, refers⟩ => refersNameable refers,
    fun nameable => ⟨path, namedRefers table governed nameable⟩⟩

end Clause

namespace Catalog

variable {c : Catalog} {limits : Limits} {order : List String} {t : Table} {query : Clause}

theorem Arranged.awaits (arranged : Arranged c limits order) (member : t ∈ c.tables)
    (body : t.body = .query query) : ∃ found, query.dependencies limits 0 = .ok found ∧
      ∀ name ∈ found, order.idxOf name < order.idxOf t.name := by
  obtain ⟨before, after, cut, first⟩ := List.eq_append_cons_of_mem (arranged.complete t member)
  obtain ⟨found, scanned, met⟩ := arranged.ordered before t.name after query cut
    (queryExact.2 ⟨t, member, rfl, body⟩)
  refine ⟨found, scanned, fun name inside => ?_⟩
  rw [cut]
  exact earlierIndex (met name inside) first

theorem namedAwaited (ran : c.order limits = .ok order) :
    order.Nodup ∧ (∀ t ∈ c.tables, t.name ∈ order) ∧
      ∀ t ∈ c.tables, ∀ u ∈ c.tables, ∀ query, t.body = .query query →
        ∀ directive ∈ tableDirectives, ∀ path, Clause.Governs directive u.name query path →
          (Nameable u.name → order.idxOf u.name < order.idxOf t.name) ∧
          (¬ Nameable u.name → ∀ found, query.dependencies limits 0 = .ok found →
            u.name ∉ found) := by
  have arranged := orderArranged ran
  refine ⟨arranged.distinct, arranged.complete, ?_⟩
  intro t member u _ query body directive table path governed
  obtain ⟨found, scanned, met⟩ := arranged.awaits member body
  refine ⟨fun nameable => met u.name ?_, fun unnameable found scanned inside => ?_⟩
  · exact (Clause.namedFound scanned table governed).2 nameable
  · exact unnameable ((Clause.namedFound scanned table governed).1 inside)

def crossing : Catalog := .ofTables [
    { name := "flow", tableClass := .decision, kind := "COLUMN",
      body := .query (.object [("SELECT", .literal "Plant -- STRING"),
        ("WHERE", .list [
          .object [("JOIN#2", .list [.literal "plants", .literal "sea routes"])]])]) },
    { name := "sea routes", tableClass := .data, kind := "INPUT" }] (by decide)

theorem crossingAwaited :
    crossing.order {} = .ok ["plants", "sea routes", "flow"] ∧ Nameable "sea routes" ∧
      (["plants", "sea routes", "flow"]).idxOf "sea routes" <
        (["plants", "sea routes", "flow"]).idxOf "flow" := by
  have ran : crossing.order {} = .ok ["plants", "sea routes", "flow"] := by decide +kernel
  have nameable : Nameable "sea routes" := by decide
  obtain ⟨-, -, awaited⟩ := namedAwaited ran
  have before := awaited _ (.head _) _ (.tail _ (.head _)) _ rfl "JOIN" (by decide) [1, 0, 0, 1]
    (.deeper rfl (.deeper rfl (.here rfl (by decide) (.item rfl))))
  exact ⟨ran, nameable, before.1 nameable⟩

def padded : Catalog := .ofTables [
    { name := "flow", tableClass := .decision, kind := "COLUMN",
      body := .query (.object [("FROM", .literal " routes"), ("JOIN", .literal "")]) },
    { name := " routes", tableClass := .data, kind := "INPUT" },
    { name := "", tableClass := .data, kind := "INPUT" }] (by decide)

theorem paddedUnawaited :
    padded.order {} = .ok ["routes", "flow", " routes", ""] ∧
      ∃ t ∈ padded.tables, ∃ query, t.body = .query query ∧
        ∀ u ∈ padded.tables, u ≠ t →
          (∃ directive ∈ tableDirectives, ∃ path, Clause.Governs directive u.name query path) ∧
          ¬ (["routes", "flow", " routes", ""]).idxOf u.name <
            (["routes", "flow", " routes", ""]).idxOf t.name := by
  refine ⟨by decide +kernel, _, .head _, _, rfl, ?_⟩
  intro u member other
  rcases List.mem_cons.1 member with same | member
  · exact absurd same other
  rcases List.mem_cons.1 member with rfl | member
  · exact ⟨⟨"FROM", by decide, [0], .here rfl (by decide) .literal⟩, by decide⟩
  · cases List.mem_singleton.1 member
    exact ⟨⟨"JOIN", by decide, [1], .here rfl (by decide) .literal⟩, by decide⟩

end Catalog
end TablePlan
