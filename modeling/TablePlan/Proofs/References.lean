import Mathlib.Data.List.Induction
import TablePlan.Proofs.Ceiling
import TablePlan.Proofs.Mentions
import TablePlan.Proofs.Parts
import TablePlan.Proofs.Trimmed
/-! Where in a query a table is named. A place is a path of indices from the root, and paths in
their order are a walk through the query from left to right, with what is below a node before what
is behind it. A scan finds the names of all places, in the order of the first place of each.
Literals of a list in a list would be under no directive; no scan accepts one. -/
namespace TablePlan

namespace Clause

variable {query : Clause} {directive text name other : String} {path : List Nat}
  {items : List Clause} {entries : List (String × Clause)}

def parts : Clause → List Clause
  | .literal _ => []
  | .list items => items
  | .object entries => entries.map Prod.snd

inductive Holds (text : String) : Clause → List Nat → Prop where
  | literal : Holds text (.literal text) []
  | item {items : List Clause} {index : Nat} (item : items[index]? = some (.literal text)) :
      Holds text (.list items) [index]

/-- The literal at a path is held by an entry, of the query or of any object below it. -/
inductive Governs (directive text : String) : Clause → List Nat → Prop where
  | here {entries : List (String × Clause)} {key : String} {predicate : Clause} {index : Nat}
      {path : List Nat} (entry : entries[index]? = some (key, predicate))
      (named : directiveOf key = directive) (held : Holds text predicate path) :
      Governs directive text (.object entries) (index :: path)
  | deeper {query inner : Clause} {index : Nat} {path : List Nat}
      (part : query.parts[index]? = some inner) (governed : Governs directive text inner path) :
      Governs directive text query (index :: path)

def Refers (query : Clause) (path : List Nat) (name : String) : Prop :=
  name ≠ "" ∧ ∃ directive ∈ tableDirectives, ∃ text, Governs directive text query path ∧
    Text.Trimmed text.toList name.toList

theorem memReferences : name ∈ references directive text ↔
    name ≠ "" ∧ directive ∈ tableDirectives ∧ Text.Trimmed text.toList name.toList := by
  have spelled : name = String.ofList (Text.trim text.toList) ↔
      Text.trim text.toList = name.toList :=
    ⟨fun same => by simp [same], fun same => by simp [same]⟩
  have filled : name ≠ "" ↔ name.toList ≠ [] := by simp
  simp only [← Text.trimExact, references, namesTables, Bool.and_eq_true, List.contains_iff_mem,
    Bool.not_eq_true', List.isEmpty_eq_false_iff]
  split
  · rename_i both
    rw [List.mem_singleton, spelled, filled]
    exact ⟨fun same => ⟨same ▸ both.2, both.1, same⟩, fun all => all.2.2⟩
  · rename_i neither
    simp only [List.not_mem_nil, false_iff]
    intro ⟨shown, table, same⟩
    exact neither ⟨table, same ▸ filled.1 shown⟩

theorem partEntry {index : Nat} {key : String} {predicate : Clause}
    (found : entries[index]? = some (key, predicate)) :
    (parts (.object entries))[index]? = some predicate := by
  rw [parts, List.getElem?_map, found, Option.map_some]

theorem refersBelow {node : Clause} (inside : query.Contains node)
    (refers : node.Refers path name) : ∃ path, query.Refers path name := by
  obtain ⟨_, descent⟩ := inside
  induction descent with
  | here => exact ⟨path, refers⟩
  | item member _ ih =>
    obtain ⟨path, shown, directive, table, text, governed, trimmed⟩ := ih refers
    obtain ⟨index, found⟩ := List.getElem?_of_mem member
    exact ⟨index :: path, shown, directive, table, text, .deeper found governed, trimmed⟩
  | entry member _ ih =>
    obtain ⟨path, shown, directive, table, text, governed, trimmed⟩ := ih refers
    obtain ⟨index, found⟩ := List.getElem?_of_mem member
    have deeper := Governs.deeper (partEntry found) governed
    exact ⟨index :: path, shown, directive, table, text, deeper, trimmed⟩

def numbered (index : Nat) : List (List (List Nat × String)) → List (List Nat × String)
  | [] => []
  | sites :: rest =>
    sites.map (fun (path, name) => (index :: path, name)) ++ numbered (index + 1) rest

section Numbered

variable {α : Type} {f : α → List (List Nat × String)} {nodes : List α} {start : Nat}

theorem memNumbered : (path, name) ∈ numbered start (nodes.map f) ↔ ∃ index node,
    nodes[index]? = some node ∧ ∃ rest, path = (start + index) :: rest ∧ (rest, name) ∈ f node := by
  induction nodes generalizing start with
  | nil => simp [numbered]
  | cons node later ih =>
    have moved : ∀ index, start + 1 + index = start + (index + 1) := by omega
    rw [List.map_cons, numbered, List.mem_append, ih]
    constructor
    · intro member
      rcases member with first | ⟨index, one, found, rest, same, inside⟩
      · obtain ⟨⟨rest, _⟩, inside, same⟩ := List.mem_map.1 first
        cases same
        exact ⟨0, node, rfl, rest, rfl, inside⟩
      · exact ⟨index + 1, one, found, rest, moved index ▸ same, inside⟩
    · intro ⟨index, one, found, rest, same, inside⟩
      cases index with
      | zero =>
        cases found
        exact .inl (List.mem_map.2 ⟨(rest, name), inside, by rw [same, Nat.add_zero]⟩)
      | succ index => exact .inr ⟨index, one, found, rest, (moved index).symm ▸ same, inside⟩

theorem numberedOrdered (each : ∀ node ∈ nodes, (f node).Pairwise (·.1 < ·.1)) :
    (numbered start (nodes.map f)).Pairwise (·.1 < ·.1) := by
  induction nodes generalizing start with
  | nil => exact .nil
  | cons node later ih =>
    obtain ⟨first, others⟩ := List.forall_mem_cons.1 each
    refine List.pairwise_append.2 ⟨?_, ih others, ?_⟩
    · simpa [List.pairwise_map] using first
    · intro ⟨path, name⟩ left ⟨other, named⟩ right
      obtain ⟨_, _, same⟩ := List.mem_map.1 left
      obtain ⟨index, _, _, rest, rfl, _⟩ := memNumbered.1 right
      cases same
      exact List.cons_lt_cons_iff.2 (.inl (by omega))

theorem numberedNames : (numbered start (nodes.map f)).map Prod.snd =
    nodes.flatMap fun node => (f node).map Prod.snd := by
  induction nodes generalizing start with
  | nil => rfl
  | cons node later ih => simp [numbered, ih]

end Numbered

mutual

def sites (directive : String) : Clause → List (List Nat × String)
  | .literal text => (references directive text).map fun name => ([], name)
  | .object entries => numbered 0 (sitesOfEntries entries)
  | .list items => numbered 0 (sitesOfItems directive items)

def sitesOfEntries : List (String × Clause) → List (List (List Nat × String))
  | [] => []
  | (key, predicate) :: rest => sites (directiveOf key) predicate :: sitesOfEntries rest

def sitesOfItems (directive : String) : List Clause → List (List (List Nat × String))
  | [] => []
  | item :: rest => sites directive item :: sitesOfItems directive rest

end

theorem sitesList : sites directive (.list items) = numbered 0 (items.map (sites directive)) := by
  have each : sitesOfItems directive items = items.map (sites directive) := by
    induction items with
    | nil => rfl
    | cons item rest ih => rw [sitesOfItems, ih, List.map_cons]
  rw [sites, each]

theorem sitesObject : sites directive (.object entries) =
    numbered 0 (entries.map fun entry => sites (directiveOf entry.1) entry.2) := by
  have each : sitesOfEntries entries =
      entries.map fun entry => sites (directiveOf entry.1) entry.2 := by
    induction entries with
    | nil => rfl
    | cons entry rest ih => rw [sitesOfEntries, ih, List.map_cons]
  rw [sites, each]

theorem sitesOrdered (query : Clause) (directive : String) :
    (query.sites directive).Pairwise (·.1 < ·.1) := by
  induction query using byMembers generalizing directive with
  | literal text =>
    rw [sites, references]
    split <;> simp
  | list items ih =>
    rw [sitesList]
    exact numberedOrdered fun item inside => ih item inside directive
  | object entries ih =>
    rw [sitesObject]
    exact numberedOrdered fun entry inside => ih entry inside (directiveOf entry.1)

inductive Cites (name directive : String) (query : Clause) (path : List Nat) : Prop where
  | held {text : String} (held : Holds text query path) (read : name ∈ references directive text)
  | governed {inner text : String} (governed : Governs inner text query path)
      (read : name ∈ references inner text)

theorem citesLiteral : Cites name directive (.literal text) path ↔
    path = [] ∧ name ∈ references directive text := by
  constructor
  · intro cites
    cases cites with
    | held held read =>
      cases held
      exact ⟨rfl, read⟩
    | governed governed _ =>
      cases governed with
      | deeper part _ => cases part
  · intro ⟨same, read⟩
    exact same ▸ .held .literal read

theorem citesList (flat : ∀ inner, .list inner ∉ items) :
    Cites name directive (.list items) path ↔ ∃ index item, items[index]? = some item ∧
      ∃ rest, path = index :: rest ∧ Cites name directive item rest := by
  constructor
  · intro cites
    cases cites with
    | held held read =>
      cases held with
      | item item => exact ⟨_, _, item, [], rfl, .held .literal read⟩
    | governed governed read =>
      cases governed with
      | deeper part governed => exact ⟨_, _, part, _, rfl, .governed governed read⟩
  · intro ⟨index, item, found, rest, same, cites⟩
    subst same
    cases cites with
    | held held read =>
      cases held with
      | literal => exact .held (.item found) read
      | item => exact absurd (List.mem_of_getElem? found) (flat _)
    | governed governed read => exact .governed (.deeper found governed) read

theorem citesObject : Cites name directive (.object entries) path ↔
    ∃ index entry, entries[index]? = some entry ∧
      ∃ rest, path = index :: rest ∧ Cites name (directiveOf entry.1) entry.2 rest := by
  constructor
  · intro cites
    cases cites with
    | held held _ => cases held
    | governed governed read =>
      cases governed with
      | here entry named held => exact ⟨_, _, entry, _, rfl, .held held (named ▸ read)⟩
      | deeper part governed =>
        rw [parts, List.getElem?_map] at part
        obtain ⟨entry, found, same⟩ := Option.map_eq_some_iff.1 part
        exact ⟨_, entry, found, _, rfl, .governed (same ▸ governed) read⟩
  · intro listed
    obtain ⟨index, ⟨key, predicate⟩, found, rest, same, cites⟩ := listed
    subst same
    cases cites with
    | held held read => exact .governed (.here found rfl held) read
    | governed governed read => exact .governed (.deeper (partEntry found) governed) read

theorem sitesExact (query : Clause) (whole : ¬ query.Crowded) (directive : String)
    (path : List Nat) : (path, name) ∈ query.sites directive ↔ Cites name directive query path := by
  induction query using byMembers generalizing directive path with
  | literal text => simp [sites, citesLiteral, eq_comm, and_comm]
  | list items ih =>
    rw [crowdedItems, not_or, not_exists] at whole
    obtain ⟨flat, each⟩ := whole
    rw [sitesList, memNumbered, citesList flat]
    refine exists_congr fun index => exists_congr fun item => and_congr_right fun found => ?_
    have inside := List.mem_of_getElem? found
    have exact := ih item inside (fun crowded => each ⟨item, inside, crowded⟩) directive
    simp only [exact, Nat.zero_add]
  | object entries ih =>
    rw [crowdedEntries] at whole
    rw [sitesObject, memNumbered, citesObject]
    refine exists_congr fun index => exists_congr fun entry => and_congr_right fun found => ?_
    have inside := List.mem_of_getElem? found
    have exact := ih entry inside (fun crowded => whole ⟨entry, inside, crowded⟩)
    simp only [exact, Nat.zero_add]

def cited (directive : String) : Clause → List String
  | .literal text => references directive text
  | .object entries => mentionsOfEntries entries
  | .list items => mentionsOfItems directive items

theorem citedEntries : mentionsOfEntries entries =
    entries.flatMap fun entry => entry.2.cited (directiveOf entry.1) := by
  induction entries with
  | nil => rfl
  | cons entry rest ih =>
    obtain ⟨key, predicate⟩ := entry
    cases predicate <;> simp [mentionsOfEntries, mentions, cited, ih]

theorem citedItems (flat : ∀ inner, .list inner ∉ items) :
    mentionsOfItems directive items = items.flatMap (cited directive) := by
  induction items with
  | nil => rfl
  | cons item rest ih =>
    have later := ih fun inner inside => flat inner (.tail _ inside)
    cases item with
    | literal | object => simp [mentionsOfItems, mentions, cited, later]
    | list inner => exact absurd (.head _) (flat inner)

theorem sitesNames (query : Clause) (whole : ¬ query.Crowded) (directive : String) :
    (query.sites directive).map Prod.snd = query.cited directive := by
  induction query using byMembers generalizing directive with
  | literal text => simp [sites, cited]
  | list items ih =>
    rw [crowdedItems, not_or, not_exists] at whole
    obtain ⟨flat, each⟩ := whole
    rw [sitesList, numberedNames, cited, citedItems flat]
    refine List.flatMap_congr fun item inside => ?_
    exact ih item inside (fun crowded => each ⟨item, inside, crowded⟩) directive
  | object entries ih =>
    rw [crowdedEntries] at whole
    rw [sitesObject, numberedNames, cited, citedEntries]
    refine List.flatMap_congr fun entry inside => ?_
    exact ih entry inside (fun crowded => whole ⟨entry, inside, crowded⟩) _

def Precedes (refers : List Nat → String → Prop) (name other : String) : Prop :=
  ∃ path, refers path name ∧ ∀ later, refers later other → path < later

/-- The names that are referred to, each once, in the order of their first places. -/
structure Found (refers : List Nat → String → Prop) (found : List String) : Prop where
  exact : ∀ name, name ∈ found ↔ ∃ path, refers path name
  distinct : found.Nodup
  ordered : found.Pairwise (Precedes refers)

section Found

variable {refers : List Nat → String → Prop} {found others : List String}
  {sites : List (List Nat × String)}

theorem Precedes.asymm (before : Precedes refers name other) : ¬ Precedes refers other name := by
  intro ⟨second, here, least⟩
  obtain ⟨first, there, earlier⟩ := before
  exact List.lt_asymm (earlier second here) (least first there)

theorem Found.unique (one : Found refers found) (other : Found refers others) : others = found := by
  have same : others.Perm found := (List.perm_ext_iff_of_nodup other.distinct one.distinct).2
    fun name => (other.exact name).trans (one.exact name).symm
  exact same.eq_of_pairwise (fun _ _ _ _ before after => absurd after before.asymm) other.ordered
    one.ordered

theorem precedesLonger (last : List Nat × String) (behind : ∀ site ∈ sites, site.1 < last.1)
    (before : Precedes (fun path name => (path, name) ∈ sites) name other) :
    Precedes (fun path name => (path, name) ∈ sites ++ [last]) name other := by
  obtain ⟨first, inside, least⟩ := before
  refine ⟨first, List.mem_append_left _ inside, fun later member => ?_⟩
  rcases List.mem_append.1 member with old | new
  · exact least later old
  · cases List.mem_singleton.1 new
    exact behind _ inside

theorem precedesLast {last : List Nat} (behind : ∀ site ∈ sites, site.1 < last)
    (known : name ∈ sites.map Prod.snd) (fresh : other ∉ sites.map Prod.snd) :
    Precedes (fun path name => (path, name) ∈ sites ++ [(last, other)]) name other := by
  obtain ⟨⟨first, _⟩, inside, rfl⟩ := List.mem_map.1 known
  refine ⟨first, List.mem_append_left _ inside, fun later member => ?_⟩
  rcases List.mem_append.1 member with old | new
  · exact absurd (List.mem_map.2 ⟨_, old, rfl⟩) fresh
  · cases List.mem_singleton.1 new
    exact behind _ inside

-- By induction from the end: a name that is new has no place before the last.
theorem namesFound (ordered : sites.Pairwise (·.1 < ·.1)) :
    Found (fun path name => (path, name) ∈ sites) (Names.ofList (sites.map Prod.snd)) := by
  refine ⟨fun name => by simp [Names.memOfList], Names.ofListDistinct _, ?_⟩
  induction sites using List.reverseRecOn with
  | nil => exact .nil
  | append_singleton rest last ih =>
    obtain ⟨path, name⟩ := last
    obtain ⟨earlier, -, before⟩ := List.pairwise_append.1 ordered
    have behind : ∀ site ∈ rest, site.1 < path := fun site member => before site member _ (.head _)
    have kept := (ih earlier).imp (precedesLonger (path, name) behind)
    rw [List.map_append, Names.ofList]
    refine Names.addAllConcat ▸ Names.addPairwise kept fun fresh other known => ?_
    refine precedesLast behind (Names.memOfList.1 known) fun old => ?_
    exact fresh (Names.memOfList.2 old)

end Found

variable {limits : Limits} {depth : Nat} {found : List String}

theorem rootObject (formed : ¬ query.Misplaced) :
    ∃ entries, query = .object entries ∧ ¬ Crowded (.object entries) := by
  cases query with
  | object entries => exact ⟨entries, rfl, fun crowded => formed (.inr crowded)⟩
  | literal | list => simp [Misplaced, kind] at formed

theorem siteRefers (whole : ¬ Crowded (.object entries)) :
    (path, name) ∈ sites "" (.object entries) ↔ Refers (.object entries) path name := by
  rw [sitesExact _ whole]
  constructor
  · intro cites
    cases cites with
    | held held _ => cases held
    | governed governed read =>
      obtain ⟨shown, table, trimmed⟩ := memReferences.1 read
      exact ⟨shown, _, table, _, governed, trimmed⟩
  · intro ⟨shown, _, table, _, governed, trimmed⟩
    exact .governed governed (memReferences.2 ⟨shown, table, trimmed⟩)

theorem dependenciesReferred (ran : query.dependencies limits depth = .ok found) :
    Found query.Refers found := by
  obtain ⟨formed, -⟩ := (dependenciesJudged query limits depth).succeeds.1 ⟨found, ran⟩
  obtain ⟨entries, rfl, whole⟩ := rootObject formed
  have names : found = Names.ofList ((sites "" (.object entries)).map Prod.snd) := by
    rw [dependenciesFound ran, sitesNames _ whole, mentions, cited]
  have same : (fun path name => (path, name) ∈ sites "" (.object entries)) =
      Refers (.object entries) := by
    funext path name
    exact propext (siteRefers whole)
  exact names ▸ same ▸ namesFound (sitesOrdered _ "")

theorem referencesFound (ran : query.dependencies limits depth = .ok found) :
    Found query.Refers found ∧
      (∀ node, query.Contains node → ∀ limits depth inner,
        node.dependencies limits depth = .ok inner → inner ⊆ found) ∧
      ∀ other : Clause, (∀ path name, other.Refers path name ↔ query.Refers path name) →
        ∀ limits depth result, other.dependencies limits depth = .ok result → result = found := by
  have referred := dependenciesReferred ran
  refine ⟨referred, ?_, ?_⟩
  · intro node inside limits depth inner scanned name member
    obtain ⟨path, refers⟩ := ((dependenciesReferred scanned).exact name).1 member
    exact (referred.exact name).2 (refersBelow inside refers)
  · intro other alike limits depth result scanned
    have same : other.Refers = query.Refers := by
      funext path name
      exact propext (alike path name)
    exact referred.unique (same ▸ dependenciesReferred scanned)

def layered : Clause :=
  .object [("SELECT", .literal "Plant -- STRING"),
    ("WHERE", .list [.literal "stock", .object [("FROM#1", .literal " routes\t")]]),
    ("JOIN#2", .list [.literal "plants", .literal " "]), ("FROM", .literal "routes"),
    ("ON", .object [("CROSS JOIN", .literal "stock")])]

theorem layeredFound :
    layered.dependencies ⟨1⟩ 0 = .ok ["routes", "plants", "stock"] ∧
      Found layered.Refers ["routes", "plants", "stock"] ∧
      (∀ path, ¬ layered.Refers path "Plant -- STRING") ∧
      (object [("CROSS JOIN", .literal "stock")]).dependencies ⟨0⟩ 0 = .ok ["stock"] ∧
      ["stock"] ⊆ ["routes", "plants", "stock"] := by
  have ran : layered.dependencies ⟨1⟩ 0 = .ok ["routes", "plants", "stock"] := by decide +kernel
  have inner : (object [("CROSS JOIN", .literal "stock")]).dependencies ⟨0⟩ 0 = .ok ["stock"] := by
    decide +kernel
  obtain ⟨found, below, -⟩ := referencesFound ran
  have inside : layered.Contains (object [("CROSS JOIN", .literal "stock")]) :=
    .ofEntry (.tail _ (.tail _ (.tail _ (.tail _ (.head _))))) (.refl _)
  refine ⟨ran, found, fun path refers => ?_, inner, below _ inside _ _ _ inner⟩
  have listed := (found.exact "Plant -- STRING").2 ⟨path, refers⟩
  simp at listed

end Clause
end TablePlan
