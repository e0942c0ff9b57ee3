import TablePlan.Proofs.Settlement
/-! The life of a table in a catalog, over any run of insertions, of fillings of single tables and
of materializations, whichever of them fail. A table keeps its place and its name; it changes once
at most, from a query to rows under their own schema; and what fails changes nothing. -/
namespace TablePlan

def Instance.Built (content : Instance) : Prop :=
  ∃ schema rows, Instance.ofRows schema rows = .ok content

theorem Instance.Built.even {content : Instance} (built : content.Built) :
    ∀ row ∈ content.rows, row.length = content.schema.size := by
  obtain ⟨schema, rows, rowed⟩ := built
  obtain ⟨rfl, fits⟩ := ofRowsExact.1 rowed
  exact fits

namespace Table

/-- A table is filled in place: its body is taken out, and put back if it is no query. -/
def exchange (t : Table) (content : Instance) : Except Fault Clause × Table :=
  let emptied := { t with body := .empty }
  match t.body with
  | .query clause => (.ok clause, emptied.fill content)
  | held => (.error (.format (.nothingToMaterialize t.name)), { emptied with body := held })

theorem exchangeExact (t : Table) (content : Instance) :
    t.exchange content = match t.materialize content with
      | .ok (query, filled) => (.ok query, filled)
      | .error fault => (.error fault, t) := by
  obtain ⟨name, tableClass, kind, module?, schema, body⟩ := t
  cases body <;> rfl

def Built (t : Table) : Prop := ∀ content, t.body = .filled content → content.Built

/-- What may become of a table: nothing at all, unless it holds a query, which may give way to
rows. -/
def Lives (t after : Table) : Prop :=
  match t.body with
  | .query _ => after = t ∨ ∃ content : Instance, content.Built ∧ after = t.fill content
  | .empty | .filled _ => after = t

variable {t after last : Table} {content : Instance}

theorem Lives.refl (t : Table) : t.Lives t := by
  unfold Lives
  split
  · exact .inl rfl
  · rfl
  · rfl

theorem Lives.fill {query : Clause} (held : t.body = .query query) (built : content.Built) :
    t.Lives (t.fill content) := by
  rw [Lives, held]
  exact .inr ⟨content, built, rfl⟩

theorem Lives.cases (lives : t.Lives after) :
    after = t ∨ ∃ content : Instance, content.Built ∧ after = t.fill content := by
  unfold Lives at lives
  split at lives
  · exact lives
  · exact .inl lives
  · exact .inl lives

theorem Lives.trans (lives : t.Lives after) (later : after.Lives last) : t.Lives last := by
  obtain rfl | ⟨content, _, rfl⟩ := lives.cases
  · exact later
  · have same : last = t.fill content := later
    rw [same]
    exact lives

theorem Lives.name (lives : t.Lives after) : after.name = t.name := by
  obtain rfl | ⟨content, _, rfl⟩ := lives.cases <;> rfl

theorem Lives.built (lives : t.Lives after) (built : t.Built) : after.Built := by
  obtain rfl | ⟨content, fresh, rfl⟩ := lives.cases
  · exact built
  · intro held body
    cases body
    exact fresh

theorem exchangeName (t : Table) (content : Instance) :
    (t.exchange content).2.name = t.name := by
  rw [exchangeExact]
  unfold materialize
  cases t.body <;> rfl

end Table

namespace Catalog

variable {c next last : Catalog} {t : Table} {name : String} {content : Instance} {limits : Limits}

def exchange (c : Catalog) (name : String) (content : Instance) : Except Fault Clause × Catalog :=
  match c.find? name with
  | none => (.error (.unknownTable name), c)
  | some t =>
    ((t.exchange content).1,
      c.change name (fun held => (held.exchange content).2) fun held => held.exchangeName content)

theorem exchangeExact (c : Catalog) (name : String) (content : Instance) :
    c.exchange name content = match c.materialize name content with
      | .ok (query, filled) => (.ok query, filled)
      | .error fault => (.error fault, c) := by
  unfold exchange materialize
  cases found : c.find? name with
  | none => rfl
  | some t =>
    have kept := fun held : Table => held.exchangeName content
    have exchanged := t.exchangeExact content
    cases ran : t.materialize content with
    | error fault =>
      rw [ran] at exchanged
      have still : c.change name (fun held => (held.exchange content).2) kept =
          c.change name id fun _ => rfl := changeFound found kept _ (by rw [exchanged]; rfl)
      simp only [ran, exchanged, bind, Except.bind]
      exact Prod.ext rfl (still.trans c.changeNone)
    | ok filled =>
      obtain ⟨query, filled⟩ := filled
      obtain rfl : t.fill content = filled := by
        unfold Table.materialize at ran
        split at ran
        · cases ran
          rfl
        · cases ran
      rw [ran] at exchanged
      have done : c.change name (fun held => (held.exchange content).2) kept =
          c.fill name content := changeFound found kept _ (by rw [exchanged])
      simp only [ran, exchanged, bind, Except.bind, pure, Except.pure]
      exact Prod.ext rfl done

inductive Deed where
  | insert (t : Table)
  | exchange (name : String) (content : Instance)
  | materializeAll {σ : Type} (e : Engine σ) (limits : Limits) (s : σ)

def Deed.Built : Deed → Prop
  | .insert t => t.Built
  | .exchange _ content => content.Built
  | .materializeAll _ _ _ => True

def perform (c : Catalog) : Deed → Except Fault Unit × Catalog
  | .insert t =>
    match c.insert t with
    | .ok next => (.ok (), next)
    | .error fault => (.error fault, c)
  | .exchange name content =>
    ((c.exchange name content).1.map fun _ => (), (c.exchange name content).2)
  | .materializeAll e limits s =>
    ((c.materializeAll e limits s).result.map fun _ => (), (c.materializeAll e limits s).catalog)

def Deed.Done (c next : Catalog) : Deed → Prop
  | .insert t => t.name ∉ c.names ∧ next.tables = c.tables ++ [t]
  | .exchange name content =>
    (∃ t query, c.find? name = some t ∧ t.body = .query query ∧
      next.find? name = some (t.fill content)) ∧
      ∀ other ≠ name, next.find? other = c.find? other
  | .materializeAll _ _ _ => ∀ t ∈ next.tables, t.query? = none

def after (c : Catalog) (deeds : List Deed) : Catalog :=
  deeds.foldl (fun c deed => (c.perform deed).2) c

def Outlived (c next : Catalog) : Prop :=
  ∀ (i : Nat) (t : Table), c.tables[i]? = some t →
    ∃ after, next.tables[i]? = some after ∧ t.Lives after

def Built (c : Catalog) : Prop := ∀ t ∈ c.tables, t.Built

theorem Outlived.refl (c : Catalog) : c.Outlived c := fun _ t held => ⟨t, held, .refl t⟩

theorem Outlived.trans (first : c.Outlived next) (later : next.Outlived last) :
    c.Outlived last := by
  intro i t held
  obtain ⟨middle, found, lives⟩ := first i t held
  obtain ⟨after, kept, on⟩ := later i middle found
  exact ⟨after, kept, lives.trans on⟩

def Turns (c next : Catalog) : Prop :=
  ∃ (turn : Table → Table) (added : List Table), next.tables = c.tables.map turn ++ added ∧
    (∀ t ∈ c.tables, t.Lives (turn t)) ∧ ∀ t ∈ added, t.Built

theorem Turns.refl (c : Catalog) : c.Turns c :=
  ⟨id, [], by rw [List.map_id, List.append_nil], fun t _ => .refl t, List.forall_mem_nil _⟩

theorem Turns.outlived (turns : c.Turns next) : c.Outlived next := by
  obtain ⟨turn, added, turned, lives, _⟩ := turns
  intro i t held
  obtain ⟨inside, rfl⟩ := List.getElem?_eq_some_iff.1 held
  refine ⟨turn c.tables[i], ?_, lives _ (List.getElem_mem inside)⟩
  rw [turned, List.getElem?_append_left (by simpa using inside), List.getElem?_map, held]
  rfl

theorem Turns.built (turns : c.Turns next) (built : c.Built) : next.Built := by
  obtain ⟨turn, added, turned, lives, fresh⟩ := turns
  intro after member
  rw [turned] at member
  rcases List.mem_append.1 member with old | new
  · obtain ⟨t, held, rfl⟩ := List.mem_map.1 old
    exact (lives t held).built (built t held)
  · exact fresh after new

theorem stagedBuilt {names : List String} {events : List Event}
    {contents : List (String × Instance)}
    (staged : Staged c limits names events (.ok contents)) :
    ∀ entry ∈ contents, entry.2.Built := by
  generalize ended : Except.ok contents = outcome at staged
  induction staged generalizing contents with
  | nil =>
    cases ended
    nofun
  | skip _ _ ih => exact ih ended
  | stop => cases ended
  | @next _ _ _ _ _ _ outcome _ ran _ ih =>
    cases outcome with
    | error fault => cases ended
    | ok others =>
      cases ended
      cases ran with
      | done _ rowed => exact List.forall_mem_cons.2 ⟨⟨_, _, rowed⟩, ih rfl⟩

theorem settledLives {events : List Event} {contents : List (String × Instance)}
    (built : ∀ entry ∈ contents, entry.2.Built) (became : Became events t (settled contents t)) :
    t.Lives (settled contents t) := by
  obtain ⟨_, _, _, _, body⟩ := became
  cases held : t.body with
  | query query =>
    unfold settled
    split
    · rename_i content found
      exact .fill held (built _ (Keyed.memOfFind found))
    · exact .refl t
  | empty | filled =>
    rw [held] at body
    rw [body]
    exact .refl t

theorem materializedTurns {σ : Type} (c : Catalog) (e : Engine σ) (limits : Limits) (s : σ) :
    (∃ fault, (c.materializeAll e limits s).result = .error fault ∧
        (c.materializeAll e limits s).catalog = c) ∨
      ∃ names contents, (c.materializeAll e limits s).result = .ok names ∧
        (c.materializeAll e limits s).catalog.tables = c.tables.map (settled contents) ∧
        ∀ t ∈ c.tables, t.Lives (settled contents t) ∧ (settled contents t).query? = none := by
  rcases materializedEnds (c.traced e limits s).2 with failed |
    ⟨names, first, later, contents, ordered, _, _, staged, ended, filled⟩
  · exact .inl failed
  · have arranged := orderArranged ordered
    obtain ⟨listed, _, answered⟩ := stagedContents staged
    have became := settledBecame listed arranged.complete answered
    refine .inr ⟨_, contents, ended, ?_, fun t held => ?_⟩
    · rw [filled, fillAllTables (listed ▸ arranged.distinct.filter _)]
    · exact ⟨settledLives (stagedBuilt staged) (became t held), becameBare (became t held)⟩

theorem exchangeTurns (c : Catalog) (name : String) (content : Instance) :
    (∃ fault, c.exchange name content = (.error fault, c)) ∨
      ∃ t query, c.find? name = some t ∧ t.body = .query query ∧
        c.exchange name content = (.ok query, c.fill name content) := by
  rw [exchangeExact]
  cases found : c.find? name with
  | none => exact .inl ⟨.unknownTable name, by simp only [materialize, found]⟩
  | some t =>
    cases held : t.body with
    | query query =>
      have queried : c.query? name = some query := by
        obtain ⟨member, named⟩ := findExact.1 found
        exact queryExact.2 ⟨t, member, named, held⟩
      exact .inr ⟨t, query, rfl, held, by rw [materializeQuery queried]⟩
    | empty | filled =>
      refine .inl ⟨.format (.nothingToMaterialize t.name), ?_⟩
      simp only [materialize, found, Table.materialize, held, bind, Except.bind]

theorem fillTurns {query : Clause} (found : c.find? name = some t) (held : t.body = .query query)
    (built : content.Built) : c.Turns (c.fill name content) := by
  refine ⟨_, [], fillTables.trans (List.append_nil _).symm, fun other member => ?_,
    List.forall_mem_nil _⟩
  split
  · rename_i named
    cases Option.some.inj (found.symm.trans (named ▸ findOf member))
    exact .fill held built
  · exact .refl other

theorem performTurns (c : Catalog) {deed : Deed} (built : deed.Built) :
    (∃ fault, c.perform deed = (.error fault, c)) ∨
      (c.perform deed).1 = .ok () ∧ deed.Done c (c.perform deed).2 ∧
        c.Turns (c.perform deed).2 := by
  cases deed with
  | insert t =>
    by_cases fresh : t.name ∉ c.names
    · obtain ⟨next, ran, added⟩ := insertFresh fresh
      have done : c.perform (.insert t) = (.ok (), next) := by rw [perform, ran]
      rw [done]
      refine .inr ⟨rfl, ⟨fresh, added⟩, id, [t], by rw [added, List.map_id],
        fun t _ => .refl t, ?_⟩
      exact List.forall_mem_singleton.2 built
    · exact .inl ⟨.format (.repeatedTable t.name), by simp only [perform, insert, dif_neg fresh]⟩
  | exchange name content =>
    rcases c.exchangeTurns name content with ⟨fault, failed⟩ | ⟨t, query, found, held, done⟩
    · exact .inl ⟨fault, by rw [perform, failed]; rfl⟩
    · rw [perform, done]
      have filled : (c.fill name content).find? name = some (t.fill content) := by
        simp [fillFind, found]
      exact .inr ⟨rfl, ⟨⟨t, query, found, held, filled⟩, fun other => fillFindOther⟩,
        fillTurns found held built⟩
  | materializeAll e limits s =>
    rcases c.materializedTurns e limits s with ⟨fault, failed, same⟩ |
      ⟨names, contents, ended, turned, settles⟩
    · exact .inl ⟨fault, by rw [perform, failed, same]; rfl⟩
    · refine .inr ⟨by rw [perform, ended]; rfl, ?_, settled contents, [], ?_, ?_,
        List.forall_mem_nil _⟩
      · intro after member
        obtain ⟨t, held, rfl⟩ := List.mem_map.1 (turned ▸ member)
        exact (settles t held).2
      · rw [List.append_nil]
        exact turned
      · exact fun t held => (settles t held).1

theorem performTurned {deed : Deed} (built : deed.Built) : c.Turns (c.perform deed).2 := by
  rcases c.performTurns built with ⟨fault, failed⟩ | ⟨_, _, turns⟩
  · rw [failed]
    exact .refl c
  · exact turns

theorem afterOutlived (c : Catalog) {deeds : List Deed} (built : ∀ deed ∈ deeds, deed.Built) :
    c.Outlived (c.after deeds) := by
  induction deeds generalizing c with
  | nil => exact .refl c
  | cons deed rest ih =>
    obtain ⟨first, later⟩ := List.forall_mem_cons.1 built
    exact (performTurned first).outlived.trans (ih (c.perform deed).2 later)

theorem afterBuilt {deeds : List Deed} (built : ∀ deed ∈ deeds, deed.Built) (held : c.Built) :
    (c.after deeds).Built := by
  induction deeds generalizing c with
  | nil => exact held
  | cons deed rest ih =>
    obtain ⟨first, later⟩ := List.forall_mem_cons.1 built
    exact ih later ((performTurned first).built held)

theorem livesOneWay (early late : List Deed) (built : ∀ deed ∈ early ++ late, deed.Built) :
    let before := empty.after early
    let last := before.after late
    (∀ (i : Nat) (t : Table), before.tables[i]? = some t →
        ∃ after, last.tables[i]? = some after ∧ last.find? t.name = some after ∧
          after.name = t.name ∧ t.Lives after) ∧
      (∀ name t, last.find? name = some t → t.name = name) ∧
      (∀ t ∈ last.tables, ∀ content, t.body = .filled content →
        ∀ row ∈ content.rows, row.length = content.schema.size) ∧
      ∀ deed : Deed, deed.Built → (∃ fault, last.perform deed = (.error fault, last)) ∨
        (last.perform deed).1 = .ok () ∧ deed.Done last (last.perform deed).2 := by
  intro before last
  obtain ⟨first, later⟩ := List.forall_mem_append.1 built
  refine ⟨fun i t held => ?_, fun name t found => (findExact.1 found).2, ?_, fun deed built => ?_⟩
  · obtain ⟨after, kept, lives⟩ := before.afterOutlived later i t held
    have found : last.find? after.name = some after := findOf (List.mem_of_getElem? kept)
    exact ⟨after, kept, lives.name ▸ found, lives.name, lives⟩
  · intro t member content held
    have start : empty.Built := nofun
    exact (afterBuilt later (afterBuilt first start) t member content held).even
  · rcases last.performTurns built with failed | ⟨done, brought, _⟩
    · exact .inl failed
    · exact .inr ⟨done, brought⟩

def southern : Instance := ⟨plants, [[.string "south"]]⟩

def opening : List Deed :=
  shipping.tables.map .insert ++ [.exchange "flow" southern, .exchange "flow" ⟨plants, []⟩]

def closing : List Deed :=
  [.insert { name := "routes", tableClass := .data, kind := "INPUT" },
    .materializeAll (counting 2) {} 0, .materializeAll (counting 9) {} 0]

theorem openingLives :
    (∀ deed ∈ opening ++ closing, deed.Built) ∧
      (empty.after opening).tables[1]? = some (shipping.tables[1].fill southern) ∧
      ((empty.after opening).after closing).find? "flow" =
        some (shipping.tables[1].fill southern) ∧
      ∃ supply, ((empty.after opening).after closing).find? "supply" = some supply ∧
        shipping.tables[0].Lives supply ∧ supply.query? = none := by
  have supplied : shipping.tables[0].Built := nofun
  have flowed : shipping.tables[1].Built := nofun
  have routed : shipping.tables[2].Built := by
    intro content held
    cases held
    exact ⟨plants, [[.string "north"]], rfl⟩
  have built : ∀ deed ∈ opening ++ closing, deed.Built := by
    simp only [opening, closing, shipping, ofTablesKeeps, List.map_cons, List.map_nil,
      List.cons_append, List.nil_append, List.forall_mem_cons]
    exact ⟨supplied, flowed, routed, ⟨plants, [[.string "south"]], rfl⟩, ⟨plants, [], rfl⟩, nofun,
      trivial, trivial, nofun⟩
  have held : (empty.after opening).tables[1]? = some (shipping.tables[1].fill southern) := by
    decide +kernel
  have waiting : (empty.after opening).tables[0]? = some shipping.tables[0] := by decide +kernel
  obtain ⟨kept, _⟩ := livesOneWay opening closing built
  obtain ⟨flow, _, found, _, rfl⟩ := kept 1 _ held
  obtain ⟨supply, _, given, _, lives⟩ := kept 0 _ waiting
  have answered : ((empty.after opening).after closing).query? shipping.tables[0].name = none := by
    decide +kernel
  rw [query?, given] at answered
  exact ⟨built, held, found, supply, given, lives, answered⟩

end Catalog
end TablePlan
