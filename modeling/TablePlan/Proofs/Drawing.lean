import Mathlib.Algebra.BigOperators.Group.Finset.Basic
import TablePlan.Proofs.Detection
/-! What a graph shows of a dependency map. The graph speaks of names; drawn step by step its nodes
have numbers, under which its edges join them, and a node is drawn when its name is first met. Both
are the same graph, so that no edge leads to a wrong node and none is drawn twice. -/
namespace TablePlan

namespace Names

variable {known : List String} {name other : String}

theorem indexAdd (member : name ∈ known) : (add known other).idxOf name = known.idxOf name := by
  unfold add
  split
  · rfl
  · exact List.idxOf_append_of_mem member

theorem addAllBehind (known names : List String) : ∃ fresh, addAll known names = known ++ fresh ∧
    (∀ name, name ∈ fresh ↔ name ∉ known ∧ name ∈ names) ∧
    fresh.Pairwise fun one other => names.idxOf one < names.idxOf other := by
  induction names using List.reverseRecOn with
  | nil => exact ⟨[], by simp [addAll], by simp, .nil⟩
  | append_singleton rest last ih =>
    obtain ⟨fresh, whole, exact, ordered⟩ := ih
    have kept : fresh.Pairwise fun one other =>
        (rest ++ [last]).idxOf one < (rest ++ [last]).idxOf other := by
      refine ordered.imp_of_mem fun left right before => ?_
      rwa [List.idxOf_append_of_mem ((exact _).1 left).2,
        List.idxOf_append_of_mem ((exact _).1 right).2]
    rw [addAllConcat, add]
    split
    · rename_i met
      refine ⟨fresh, whole, fun name => ?_, kept⟩
      rw [exact, List.mem_append, List.mem_singleton]
      refine and_congr_right fun new => ⟨Or.inl, ?_⟩
      rintro (inside | rfl)
      · exact inside
      · exact (memAddAll.1 met).resolve_left new
    · rename_i unmet
      have apart := not_or.1 (memAddAll.not.1 unmet)
      refine ⟨fresh ++ [last], by rw [whole, List.append_assoc], fun name => ?_, ?_⟩
      · simp only [List.mem_append, List.mem_singleton, exact, and_or_left]
        refine or_congr_right ⟨fun same => ⟨same ▸ apart.1, same⟩, And.right⟩
      · refine List.pairwise_append.2 ⟨kept, List.pairwise_singleton _ _, ?_⟩
        intro one inside _ end'
        cases List.mem_singleton.1 end'
        exact earlierIndex ((exact one).1 inside).2 apart.2

end Names

/-- The names that have been drawn, the number of each, and the edges between numbers. -/
structure Drawing where
  names : List String := []
  numbers : List (String × Nat) := []
  edges : List (Nat × Nat) := []
  deriving DecidableEq, Repr

namespace Drawing

def addNode (d : Drawing) (name : String) : Nat × Drawing :=
  match Keyed.find? name d.numbers with
  | some number => (number, d)
  | none =>
    (d.names.length, { d with
      names := d.names ++ [name]
      numbers := Keyed.put name d.names.length d.numbers })

def addEdge (d : Drawing) (source target : Nat) : Drawing :=
  if (source, target) ∈ d.edges then d else { d with edges := d.edges ++ [(source, target)] }

def addNodes (d : Drawing) : List String → Drawing
  | [] => d
  | name :: rest => addNodes (d.addNode name).2 rest

def addTargets (d : Drawing) (source : Nat) : List String → Drawing
  | [] => d
  | name :: rest =>
    let (target, next) := d.addNode name
    addTargets (next.addEdge source target) source rest

def addEntries (d : Drawing) : List (String × List String) → Drawing
  | [] => d
  | (table, names) :: rest =>
    let (source, next) := d.addNode table
    addEntries (next.addTargets source names) rest

def ofDependencies (m : DependencyMap) : Drawing :=
  (({} : Drawing).addNodes m.keys).addEntries m.entries

def hasEdge (d : Drawing) (source target : String) : Bool :=
  match Keyed.find? source d.numbers, Keyed.find? target d.numbers with
  | some one, some other => d.edges.contains (one, other)
  | _, _ => false

structure Draws (d : Drawing) (drawn : List String) (joins : List (String × String)) : Prop where
  distinct : drawn.Nodup
  names : d.names = drawn
  known : ∀ name ∈ drawn, Keyed.find? name d.numbers = some (drawn.idxOf name)
  fresh : ∀ name, name ∉ drawn → Keyed.find? name d.numbers = none
  edges : d.edges = joins.map fun edge => (drawn.idxOf edge.1, drawn.idxOf edge.2)
  joined : ∀ edge ∈ joins, edge.1 ∈ drawn ∧ edge.2 ∈ drawn

namespace Draws

variable {d : Drawing} {drawn names : List String} {joins : List (String × String)}
  {entries : List (String × List String)} {name table source target : String} {number : Nat}

theorem begin : Draws {} [] [] :=
  ⟨List.nodup_nil, rfl, nofun, fun _ _ => rfl, rfl, nofun⟩

theorem addNode (draws : Draws d drawn joins) (name : String) :
    (d.addNode name).1 = (Names.add drawn name).idxOf name ∧
      Draws (d.addNode name).2 (Names.add drawn name) joins := by
  unfold Drawing.addNode
  by_cases met : name ∈ drawn
  · simp only [draws.known name met, Names.add, if_pos met]
    exact ⟨trivial, draws⟩
  · have kept : ∀ other ∈ drawn, (drawn ++ [name]).idxOf other = drawn.idxOf other :=
      fun other => List.idxOf_append_of_mem
    have last : (drawn ++ [name]).idxOf name = drawn.length := by
      rw [List.idxOf_append_of_notMem met, List.idxOf_cons_self, Nat.add_zero]
    simp only [draws.fresh name met, Names.add, if_neg met, draws.names]
    refine ⟨last.symm, ?_, rfl, fun other member => ?_, fun other absent => ?_, ?_, ?_⟩
    · simpa using draws.distinct.concat met
    · by_cases same : other = name
      · rw [same, last, Keyed.findPutSame]
      · have old := (List.mem_append.1 member).resolve_right (same ∘ List.mem_singleton.1)
        rw [Keyed.findPutOther same, draws.known other old, kept other old]
    · have apart := not_or.1 (mt List.mem_append.2 absent)
      rw [Keyed.findPutOther (apart.2 ∘ List.mem_singleton.2), draws.fresh other apart.1]
    · rw [draws.edges]
      refine List.map_congr_left fun edge inside => ?_
      obtain ⟨left, right⟩ := draws.joined edge inside
      rw [kept _ left, kept _ right]
    · intro edge inside
      obtain ⟨left, right⟩ := draws.joined edge inside
      exact ⟨List.mem_append_left _ left, List.mem_append_left _ right⟩

theorem edgeExact (draws : Draws d drawn joins) :
    (drawn.idxOf source, drawn.idxOf target) ∈ d.edges ↔ (source, target) ∈ joins := by
  rw [draws.edges, List.mem_map]
  constructor
  · intro ⟨edge, inside, same⟩
    obtain ⟨one, other⟩ := Prod.mk.inj same
    obtain ⟨start, stop⟩ := draws.joined edge inside
    rw [← (List.idxOf_inj start).1 one, ← (List.idxOf_inj stop).1 other]
    exact inside
  · exact fun inside => ⟨_, inside, rfl⟩

theorem addEdge (draws : Draws d drawn joins) (left : source ∈ drawn) (right : target ∈ drawn)
    (new : (source, target) ∉ joins) :
    Draws (d.addEdge (drawn.idxOf source) (drawn.idxOf target)) drawn
      (joins ++ [(source, target)]) := by
  unfold Drawing.addEdge
  rw [if_neg (mt draws.edgeExact.1 new)]
  refine ⟨draws.distinct, draws.names, draws.known, draws.fresh, ?_, ?_⟩
  · rw [List.map_append, ← draws.edges]
    rfl
  · intro edge inside
    rcases List.mem_append.1 inside with old | last
    · exact draws.joined edge old
    · cases List.mem_singleton.1 last
      exact ⟨left, right⟩

theorem addNodes (draws : Draws d drawn joins) (names : List String) :
    Draws (d.addNodes names) (Names.addAll drawn names) joins := by
  induction names generalizing d drawn with
  | nil => exact draws
  | cons name rest ih => exact ih (draws.addNode name).2

theorem addTargets (draws : Draws d drawn joins) (known : table ∈ drawn) (distinct : names.Nodup)
    (new : ∀ name ∈ names, (table, name) ∉ joins) :
    Draws (d.addTargets (drawn.idxOf table) names) (Names.addAll drawn names)
      (joins ++ names.map fun name => (table, name)) := by
  induction names generalizing d drawn joins with
  | nil => simpa [Drawing.addTargets, Names.addAll] using draws
  | cons name rest ih =>
    obtain ⟨fresh, distinct⟩ := List.nodup_cons.1 distinct
    obtain ⟨first, later⟩ := List.forall_mem_cons.1 new
    obtain ⟨numbered, next⟩ := draws.addNode name
    have start : table ∈ Names.add drawn name := Names.memAdd.2 (.inl known)
    have joined := next.addEdge start (Names.memAdd.2 (.inr rfl)) first
    have whole := ih joined start distinct fun other member inside => by
      rcases List.mem_append.1 inside with old | last
      · exact later other member old
      · cases List.mem_singleton.1 last
        exact fresh member
    rw [← numbered, Names.indexAdd known, List.append_assoc] at whole
    exact whole

theorem addEntries (draws : Draws d drawn joins) (known : ∀ entry ∈ entries, entry.1 ∈ drawn)
    (distinct : (Keyed.names entries).Nodup) (sets : ∀ entry ∈ entries, entry.2.Nodup)
    (new : ∀ edge ∈ joins, edge.1 ∉ Keyed.names entries) :
    Draws (d.addEntries entries) (Names.addAll drawn (entries.flatMap Prod.snd))
      (joins ++ entries.flatMap fun entry => entry.2.map fun name => (entry.1, name)) := by
  induction entries generalizing d drawn joins with
  | nil => simpa [Drawing.addEntries, Names.addAll] using draws
  | cons entry rest ih =>
    obtain ⟨table, names⟩ := entry
    obtain ⟨here, others⟩ := List.forall_mem_cons.1 known
    obtain ⟨fresh, distinct⟩ := List.nodup_cons.1 distinct
    obtain ⟨set, sets⟩ := List.forall_mem_cons.1 sets
    obtain ⟨numbered, next⟩ := draws.addNode table
    rw [Names.add, if_pos here] at numbered next
    have targets := next.addTargets here set fun name _ inside => new _ inside (.head _)
    have whole := ih targets (fun entry inside => Names.memAddAll.2 (.inl (others entry inside)))
      distinct sets fun edge inside => by
        rcases List.mem_append.1 inside with old | last
        · exact fun later => new edge old (.tail _ later)
        · obtain ⟨name, _, rfl⟩ := List.mem_map.1 last
          exact fresh
    rw [← numbered, List.append_assoc, ← Names.addAllAppend] at whole
    exact whole

theorem inverse (draws : Draws d drawn joins) :
    Keyed.find? name d.numbers = some number ↔ d.names[number]? = some name := by
  rw [draws.names]
  by_cases met : name ∈ drawn
  · rw [draws.known name met, Option.some.injEq]
    constructor
    · rintro rfl
      exact List.getElem?_idxOf met
    · intro found
      obtain ⟨within, rfl⟩ := List.getElem?_eq_some_iff.1 found
      exact draws.distinct.idxOf_getElem number within
  · rw [draws.fresh name met]
    exact ⟨nofun, fun found => absurd (List.mem_of_getElem? found) met⟩

theorem hasEdgeExact (draws : Draws d drawn joins) :
    d.hasEdge source target = true ↔ (source, target) ∈ joins := by
  unfold hasEdge
  by_cases left : source ∈ drawn
  · by_cases right : target ∈ drawn
    · simp only [draws.known source left, draws.known target right, List.contains_iff_mem]
      exact draws.edgeExact
    · simp only [draws.known source left, draws.fresh target right]
      exact ⟨nofun, fun inside => absurd (draws.joined _ inside).2 right⟩
  · simp only [draws.fresh source left]
    exact ⟨nofun, fun inside => absurd (draws.joined _ inside).1 left⟩

end Draws

theorem drawn (m : DependencyMap) : Draws (ofDependencies m) (Graph.ofDependencies m).nodes
    (Graph.ofDependencies m).edges := by
  have keys := Draws.begin.addNodes m.keys
  have entries := keys.addEntries
    (fun entry inside => Names.memOfList.2 (List.mem_map_of_mem inside)) m.keysDistinct
    m.setsDistinct nofun
  rw [← Names.addAllAppend] at entries
  exact entries

example :
    ofDependencies (.ofList [("flow", ["plants", "flow", "supply"]), ("supply", ["plants"])]) =
      ⟨["flow", "supply", "plants"], [("flow", 0), ("supply", 1), ("plants", 2)],
        [(0, 2), (0, 0), (0, 1), (1, 2)]⟩ := by decide

end Drawing

namespace DependencyMap

def references (m : DependencyMap) : List String := m.entries.flatMap Prod.snd

end DependencyMap

structure Graph.Shows (g : Graph) (m : DependencyMap) : Prop where
  distinct : g.nodes.Nodup
  keysFirst : ∃ others, g.nodes = m.keys ++ others ∧
    (∀ name, name ∈ others ↔ name ∉ m.keys ∧ name ∈ m.references) ∧
    others.Pairwise fun one other => m.references.idxOf one < m.references.idxOf other
  edgeExact : ∀ source target, g.hasEdge source target = true ↔
    source ∈ m.keys ∧ target ∈ m.of source
  nodeCount : g.nodes.length = (m.keys ++ m.references).toFinset.card
  edgeCount : g.edges.length = ∑ table ∈ m.keys.toFinset, (m.of table).length

namespace DependencyMap

variable {m : DependencyMap} {table name : String}

theorem readerKeyed (reads : m.Reads table name) : table ∈ m.keys := by
  obtain ⟨names, held, _⟩ := memOf.1 reads
  exact List.mem_map.2 ⟨(table, names), held, rfl⟩

theorem namesBehindKeys (m : DependencyMap) : m.names = Names.addAll m.keys m.references := by
  rw [names, Names.ofList, Names.addAllAppend]
  exact congrArg (Names.addAll · m.references) (Names.ofListOfDistinct m.keysDistinct)

theorem graphShows (m : DependencyMap) : (Graph.ofDependencies m).Shows m where
  distinct := (Graph.ofDependencies m).distinct
  keysFirst := by
    obtain ⟨others, whole, exact, ordered⟩ := Names.addAllBehind m.keys m.references
    exact ⟨others, m.namesBehindKeys.trans whole, exact, ordered⟩
  edgeExact source target := by
    rw [Graph.hasEdgeExact, graphJoins]
    exact ⟨fun reads => ⟨readerKeyed reads, reads⟩, And.right⟩
  nodeCount := by
    rw [← List.toFinset_card_of_nodup (Graph.ofDependencies m).distinct]
    refine congrArg Finset.card (Finset.ext fun name => ?_)
    rw [List.mem_toFinset, List.mem_toFinset]
    exact Names.memOfList
  edgeCount := by
    have each : m.keys.map (fun table => (m.of table).length) =
        m.entries.map fun entry => entry.2.length := by
      rw [keys, Keyed.names, List.map_map]
      exact List.map_congr_left fun entry member => congrArg List.length (ofEntry member)
    have counted := List.sum_toFinset (fun table => (m.of table).length) m.keysDistinct
    calc (Graph.ofDependencies m).edges.length
        = (m.entries.map fun entry => entry.2.length).sum := by
          simp [Graph.ofDependencies, List.length_flatMap]
      _ = (m.keys.map fun table => (m.of table).length).sum := by rw [each]
      _ = ∑ table ∈ m.keys.toFinset, (m.of table).length := counted.symm

theorem graphFaithful (m : DependencyMap) :
    let graph := Graph.ofDependencies m
    let drawing := Drawing.ofDependencies m
    graph.Shows m ∧ drawing.names = graph.nodes ∧
      (∀ name number, Keyed.find? name drawing.numbers = some number ↔
        drawing.names[number]? = some name) ∧
      drawing.edges =
        graph.edges.map (fun edge => (graph.nodes.idxOf edge.1, graph.nodes.idxOf edge.2)) ∧
      ∀ source target, drawing.hasEdge source target = graph.hasEdge source target := by
  intro graph drawing
  have draws := Drawing.drawn m
  refine ⟨m.graphShows, draws.names, fun _ _ => draws.inverse, draws.edges, ?_⟩
  intro source target
  rw [Bool.eq_iff_iff, draws.hasEdgeExact]
  exact List.contains_iff_mem.symm

end DependencyMap
end TablePlan
