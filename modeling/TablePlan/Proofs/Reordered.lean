import Mathlib.Data.List.Induction
import TablePlan.Proofs.History
import TablePlan.Proofs.Mentions
import TablePlan.Proofs.Raised
import TablePlan.Proofs.Settlement
/-! Catalogs that hold the same tables in another order. Their tables come to their turns in another
order too, but each of them with the same rows before it to read from, so an engine that answers out
of these fills both alike. -/
namespace TablePlan

variable {σ : Type} {c other : Catalog} {e : Engine σ} {limits ceiling : Limits} {s : σ}
  {names : List String} {events : List Event} {table name : String} {query : Clause}
  {content again : Instance} {front back rest last contents others : List (String × Instance)}

def Event.accepted? : Event → Option (String × Instance)
  | .register table content (.ok ()) => some (table, content)
  | .register _ _ (.error _) | .execute _ _ _ _ => none

def accepted (events : List Event) : List (String × Instance) := events.filterMap Event.accepted?

def held (tables : List Table) : List (String × Instance) :=
  tables.filterMap fun t => t.content?.map fun content => (t.name, content)

theorem acceptedHoldings (tables : List Table) : accepted (holdings tables) = held tables := by
  unfold accepted holdings held
  rw [List.filterMap_filterMap]
  congr 1
  funext t
  cases t.content? <;> rfl

theorem heldNames (tables : List Table) :
    (Keyed.names (held tables)).Sublist (tables.map Table.name) := by
  induction tables with
  | nil => exact .slnil
  | cons t rest ih =>
    cases holds : t.content? with
    | none => simpa [held, holds] using ih.cons t.name
    | some content => simpa [held, holds, Keyed.names] using ih.cons_cons t.name

/-- The answer for a table hangs on its statement and on the rows that have been accepted under the
names that its query refers to, and on nothing else that has been asked before. -/
def Engine.Determined (e : Engine σ) (c : Catalog) (s : σ) : Prop :=
  ∀ table query limits found, c.query? table = some query →
    query.dependencies limits 0 = .ok found →
    ∀ sql schema events state others reached, e.History s events state →
      e.History s others reached →
      (∀ name ∈ found, Keyed.all name (accepted events) = Keyed.all name (accepted others)) →
      (e.execute table sql schema state).1 = (e.execute table sql schema reached).1

theorem stagedCut (staged : Staged c limits names events (.ok contents))
    (cut : contents = front ++ (table, content) :: back) :
    ∃ earlier later before after query sql, names = earlier ++ table :: later ∧
      Keyed.names front = earlier.filter (fun name => (c.query? name).isSome) ∧
      events = before ++ .execute table sql content.schema (.ok content.rows) :: after ∧
      accepted before = front ∧ c.query? table = some query ∧ query.sql limits = .ok sql ∧
      Schema.ofQuery query = .ok content.schema := by
  generalize ended : Except.ok contents = outcome at staged
  induction staged generalizing contents front with
  | nil =>
    cases ended
    simp at cut
  | @skip name _ _ _ bare _ ih =>
    obtain ⟨earlier, later, before, after, query, sql, split, listed, parts⟩ := ih cut ended
    exact ⟨name :: earlier, later, before, after, query, sql, by simp [split],
      by simpa [bare] using listed, parts⟩
  | stop => cases ended
  | @next name rest query value first _ outcome holds ran _ ih =>
    obtain ⟨sql, rendered, selected, asked⟩ := ranDone ran
    cases outcome with
    | error fault => cases ended
    | ok others =>
      cases ended
      cases front with
      | nil =>
        cases cut
        exact ⟨[], rest, [], _, query, sql, rfl, rfl, by rw [asked]; rfl, rfl, holds, rendered,
          selected⟩
      | cons entry front =>
        obtain ⟨rfl, inside⟩ := List.cons.inj cut
        obtain ⟨earlier, later, before, after, query, sql, split, listed, cut, told, parts⟩ :=
          ih inside rfl
        refine ⟨name :: earlier, later, first ++ before, after, query, sql, by simp [split], ?_,
          by simp [cut], ?_, parts⟩
        · simpa [holds, Keyed.names] using listed
        · rw [asked]
          exact congrArg ((name, value) :: ·) told

namespace Catalog

theorem findReordered (same : c.tables.Perm other.tables) (name : String) :
    c.find? name = other.find? name :=
  Option.ext fun t => by rw [findExact, findExact, same.mem_iff]

theorem queryReordered (same : c.tables.Perm other.tables) (name : String) :
    c.query? name = other.query? name := by
  rw [query?, query?, findReordered same]

theorem heldReordered (same : c.tables.Perm other.tables) (name : String) :
    Keyed.all name (held c.tables) = Keyed.all name (held other.tables) := by
  have distinct := (heldNames c.tables).nodup c.tablesDistinct
  have apart := (heldNames other.tables).nodup other.tablesDistinct
  have members : (held c.tables).Perm (held other.tables) := same.filterMap _
  rw [Keyed.allDistinct distinct, Keyed.allDistinct apart,
    Keyed.findAgrees distinct apart fun value => members.mem_iff]

/-- The turn of a table. The engine has accepted the rows that the catalog came with and those of
the tables before, and among these are all that the table reads from. -/
inductive Turn (c : Catalog) (e : Engine σ) (limits : Limits) (s : σ)
    (front : List (String × Instance)) (table : String) (content : Instance) : Prop where
  | taken {query found sql events state} (holds : c.query? table = some query)
      (rendered : query.sql limits = .ok sql) (selected : Schema.ofQuery query = .ok content.schema)
      (scanned : query.dependencies limits 0 = .ok found)
      (met : ∀ name ∈ found, (c.query? name).isSome → name ∈ Keyed.names front)
      (history : e.History s events state) (told : accepted events = held c.tables ++ front)
      (answered : (e.execute table sql content.schema state).1 = .ok content.rows) :
      Turn c e limits s front table content

structure Finished (c : Catalog) (e : Engine σ) (limits : Limits) (s : σ)
    (contents : List (String × Instance)) : Prop where
  distinct : (Keyed.names contents).Nodup
  exact : ∀ name, name ∈ Keyed.names contents ↔ (c.query? name).isSome
  turns : ∀ front table content back, contents = front ++ (table, content) :: back →
    Turn c e limits s front table content
  tables : (c.materializeAll e limits s).catalog.tables = c.tables.map (settled contents)

theorem finished (done : (c.materializeAll e limits s).result = .ok names) :
    ∃ contents, Finished c e limits s contents := by
  rcases materializedEnds (c.traced e limits s).2 with ⟨_, failed, _⟩ |
    ⟨order, first, events, contents, ordered, split, registered, staged, _, filled⟩
  · cases failed.symm.trans done
  have arranged := orderArranged ordered
  obtain ⟨listed, _, _⟩ := stagedContents staged
  have distinct : (Keyed.names contents).Nodup := listed ▸ arranged.distinct.filter _
  refine ⟨contents, distinct, fun name => ?_, fun front table content back cut => ?_,
    by rw [filled, fillAllTables distinct]⟩
  · rw [listed, List.mem_filter, and_iff_right_iff_imp]
    intro some
    obtain ⟨query, holds⟩ := Option.isSome_iff_exists.1 some
    obtain ⟨t, member, rfl, _⟩ := queryExact.1 holds
    exact arranged.complete t member
  · obtain ⟨earlier, later, before, after, query, sql, met, earliest, asked, told, holds, rendered,
      selected⟩ := stagedCut staged cut
    obtain ⟨found, scanned, needed⟩ := arranged.ordered earlier table later query met holds
    have history := c.traceHistory e limits s
    rw [split, registeredAll registered, asked, ← List.append_assoc] at history
    obtain ⟨state, history, answered⟩ := Engine.historyCut history rfl
    refine .taken holds rendered selected scanned (fun name member some => ?_) history ?_ answered
    · rw [earliest]
      exact List.mem_filter.2 ⟨needed name member, some⟩
    · rw [accepted, List.filterMap_append]
      exact congrArg₂ _ (acceptedHoldings c.tables) told

theorem Turn.queried (turn : Turn c e limits s front table content) :
    (c.query? table).isSome := by
  obtain ⟨holds, _⟩ := turn
  rw [holds]
  rfl

section Both

variable (same : c.tables.Perm other.tables)
include same

theorem readAlike (one : Finished c e limits s contents) (two : Finished other e ceiling s others)
    (first : contents = front ++ rest) (second : others = back ++ last) (shared : front ⊆ others)
    (here : (c.query? name).isSome → name ∈ Keyed.names front)
    (there : (other.query? name).isSome → name ∈ Keyed.names back) :
    Keyed.all name (held c.tables ++ front) = Keyed.all name (held other.tables ++ back) := by
  have inside : back ⊆ others := second ▸ List.subset_append_left back last
  have known : Keyed.names front ⊆ Keyed.names contents :=
    first ▸ List.map_subset _ (List.subset_append_left front rest)
  have distinct : (Keyed.names front).Nodup :=
    one.distinct.sublist (first ▸ (List.sublist_append_left front rest).map _)
  have apart : (Keyed.names back).Nodup :=
    two.distinct.sublist (second ▸ (List.sublist_append_left back last).map _)
  rw [Keyed.allAppend, Keyed.allAppend, heldReordered same, Keyed.allDistinct distinct,
    Keyed.allDistinct apart]
  by_cases queried : (c.query? name).isSome
  · rw [Keyed.findSubset two.distinct shared (here queried),
      Keyed.findSubset two.distinct inside (there (queryReordered same name ▸ queried))]
  · have absent : name ∉ Keyed.names front := fun member =>
      queried ((one.exact name).1 (known member))
    have missing : name ∉ Keyed.names back := fun member => queried <|
      queryReordered same name ▸ (two.exact name).1 (List.map_subset _ inside member)
    rw [Keyed.findFresh absent, Keyed.findFresh missing]

theorem turnsAgree (determined : e.Determined c s) (turn : Turn c e limits s front table content)
    (later : Turn other e ceiling s back table again)
    (alike : ∀ name, ((c.query? name).isSome → name ∈ Keyed.names front) →
      ((other.query? name).isSome → name ∈ Keyed.names back) →
      Keyed.all name (held c.tables ++ front) = Keyed.all name (held other.tables ++ back)) :
    content = again := by
  obtain @⟨query, found, sql, events, state, holds, rendered, selected, scanned, met, history, told,
    answered⟩ := turn
  obtain @⟨_, _, text, others, reached, holds', translated, chosen, read, known, heard, reply,
    replied⟩ := later
  rw [← queryReordered same, holds] at holds'
  cases holds'
  cases raisedAgrees (fun higher => query.sqlRaised higher) rendered translated
  cases (Clause.dependenciesFound scanned).trans (Clause.dependenciesFound read).symm
  have schema := Except.ok.inj (selected.symm.trans chosen)
  have answer := determined table query limits found holds scanned sql content.schema events state
    others reached history heard fun name member => by
      rw [told, reply]
      exact alike name (met name member) (known name member)
  rw [← schema] at replied
  have rows := Except.ok.inj ((answered.symm.trans answer).trans replied)
  cases content
  cases again
  cases schema
  cases rows
  rfl

theorem contentsShared (determined : e.Determined c s) (one : Finished c e limits s contents)
    (two : Finished other e ceiling s others) : contents ⊆ others := by
  -- The induction follows the one run; the other may have filled the same tables in any order.
  have shared : ∀ front, front <+: contents → front ⊆ others := by
    intro front begins
    induction front using List.reverseRecOn with
    | nil => exact List.nil_subset _
    | append_singleton front entry ih =>
      obtain ⟨table, content⟩ := entry
      obtain ⟨rest, cut⟩ := begins
      rw [List.append_assoc, List.singleton_append] at cut
      have before := ih ⟨_, cut⟩
      have turn := one.turns front table content rest cut.symm
      have known : table ∈ Keyed.names others :=
        (two.exact table).2 (queryReordered same table ▸ turn.queried)
      obtain ⟨again, found⟩ := Keyed.findOfName known
      have inside := Keyed.memOfFind found
      obtain ⟨back, last, split⟩ := List.append_of_mem inside
      have agrees := turnsAgree same determined turn (two.turns back table again last split)
        fun _ => readAlike same one two cut.symm split before
      exact List.append_subset.2 ⟨before, List.cons_subset.2 ⟨agrees ▸ inside, List.nil_subset _⟩⟩
  exact shared contents List.prefix_rfl

theorem settledAlike (determined : e.Determined c s) (one : Finished c e limits s contents)
    (two : Finished other e ceiling s others) : settled contents = settled others := by
  funext t
  have agrees : Keyed.find? t.name contents = Keyed.find? t.name others := by
    by_cases known : t.name ∈ Keyed.names contents
    · exact Keyed.findSubset two.distinct (contentsShared same determined one two) known
    · have missing : t.name ∉ Keyed.names others := fun member => known <|
        (one.exact _).2 (queryReordered same t.name ▸ (two.exact _).1 member)
      rw [Keyed.findFresh known, Keyed.findFresh missing]
  rw [settled, settled, agrees]

end Both

theorem dataIndependentOfOrder {others : List String} (same : c.tables.Perm other.tables)
    (determined : e.Determined c s)
    (done : (c.materializeAll e limits s).result = .ok names)
    (again : (other.materializeAll e ceiling s).result = .ok others) :
    let after := (c.materializeAll e limits s).catalog
    let later := (other.materializeAll e ceiling s).catalog
    after.tables.Perm later.tables ∧ ∀ t ∈ c.tables, ∃ last, last.name = t.name ∧
      after.find? t.name = some last ∧ later.find? t.name = some last := by
  obtain ⟨contents, one⟩ := finished done
  obtain ⟨rows, two⟩ := finished again
  have alike := settledAlike same determined one two
  have tables : (c.materializeAll e limits s).catalog.tables.Perm
      (other.materializeAll e ceiling s).catalog.tables := by
    rw [one.tables, two.tables, ← alike]
    exact same.map _
  refine ⟨tables, fun t member => ?_⟩
  have inside : settled contents t ∈ (c.materializeAll e limits s).catalog.tables :=
    one.tables ▸ List.mem_map_of_mem member
  have named : (settled contents t).name = t.name := by
    unfold settled
    split <;> rfl
  have found := findExact.2 ⟨inside, named⟩
  exact ⟨_, named, found, (findReordered tables t.name).symm.trans found⟩

def stocked : Catalog := .ofTables (
  { name := "stock", tableClass := .term, kind := "COLUMN",
    body := .query (.object [("SELECT", .list [.literal "Plant -- STRING"]),
      ("FROM", .literal "routes")]) } :: shipping.tables) (by decide)

def turned : Catalog := .ofTables stocked.tables.reverse (by decide)

def sourceOf (table : String) : String := if table = "supply" then "flow" else "routes"

def copying : Engine (List (String × Instance)) where
  register table content held := (.ok (), held ++ [(table, content)])
  execute table _ _ held := (.ok ((Keyed.all (sourceOf table) held).flatMap Instance.rows), held)

theorem copyingHolds {state : List (String × Instance)}
    (history : copying.History [] events state) : state = accepted events := by
  induction history with
  | begin => rfl
  | register table content _ ih =>
    rw [accepted, List.filterMap_append, ih]
    rfl
  | execute table sql schema _ ih =>
    rw [accepted, List.filterMap_append, ih]
    exact (List.append_nil _).symm

theorem copyingDetermined : copying.Determined stocked [] := by
  intro table query limits found holds scanned sql schema events state others reached history again
    alike
  cases copyingHolds history
  cases copyingHolds again
  have read : ∀ t ∈ stocked.tables, ∀ query ∈ t.query?, sourceOf t.name ∈ query.mentions := by
    decide +kernel
  obtain ⟨t, member, rfl, body⟩ := queryExact.1 holds
  have source : sourceOf t.name ∈ found := by
    rw [Clause.dependenciesFound scanned, Names.memOfList]
    exact read t member query (bodyOfQuery.2 body)
  simp only [copying, alike _ source]

theorem turnedAlike :
    let after := (stocked.materializeAll copying {} []).catalog
    let later := (turned.materializeAll copying ⟨2⟩ []).catalog
    (stocked.materializeAll copying {} []).result = .ok ["stock", "flow", "supply"] ∧
      (turned.materializeAll copying ⟨2⟩ []).result = .ok ["flow", "supply", "stock"] ∧
      after.tables.Perm later.tables ∧ ∃ last, last.body = .filled ⟨plants, [[.string "north"]]⟩ ∧
        after.find? "supply" = some last ∧ later.find? "supply" = some last := by
  have done : (stocked.materializeAll copying {} []).result = .ok ["stock", "flow", "supply"] := by
    decide +kernel
  have again : (turned.materializeAll copying ⟨2⟩ []).result = .ok ["flow", "supply", "stock"] := by
    decide +kernel
  have same : stocked.tables.Perm turned.tables := (List.reverse_perm _).symm
  obtain ⟨tables, alike⟩ := dataIndependentOfOrder same copyingDetermined done again
  obtain ⟨t, member, named⟩ : ∃ t ∈ stocked.tables, t.name = "supply" := by decide
  obtain ⟨last, _, found, met⟩ := alike t member
  rw [named] at found met
  have copied : (((stocked.materializeAll copying {} []).catalog.find? "supply").map Table.body) =
      some (.filled ⟨plants, [[.string "north"]]⟩) := by decide +kernel
  rw [found] at copied
  exact ⟨done, again, tables, last, Option.some.inj copied, found, met⟩

end Catalog
end TablePlan
