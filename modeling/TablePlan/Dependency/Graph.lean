import TablePlan.Dependency.Basic
/-! The graph of a dependency map and its strongly connected components, by Tarjan's algorithm. The
successors of a node are followed along its latest edge first. A node that leads back to nothing
before it is, with all that is above it on the stack, a component. The cycles are the components
that hold one, in the order in which they are complete. -/
namespace TablePlan

theorem DependencyMap.edgesJoined (m : DependencyMap) :
    ∀ edge ∈ m.entries.flatMap fun entry => entry.2.map fun name => (entry.1, name),
      edge.1 ∈ m.names ∧ edge.2 ∈ m.names := by
  intro edge member
  obtain ⟨entry, held, read⟩ := List.mem_flatMap.1 member
  obtain ⟨name, inside, rfl⟩ := List.mem_map.1 read
  have source : entry.1 ∈ m.keys := List.mem_map.2 ⟨entry, held, rfl⟩
  have target : name ∈ m.entries.flatMap Prod.snd := List.mem_flatMap.2 ⟨entry, held, inside⟩
  exact ⟨Names.memOfList.2 (List.mem_append.2 (.inl source)),
    Names.memOfList.2 (List.mem_append.2 (.inr target))⟩

structure Graph where
  nodes : List String
  edges : List (String × String)
  distinct : nodes.Nodup
  joined : ∀ edge ∈ edges, edge.1 ∈ nodes ∧ edge.2 ∈ nodes
  deriving DecidableEq, Repr

namespace Graph

def ofDependencies (m : DependencyMap) : Graph where
  nodes := m.names
  edges := m.entries.flatMap fun entry => entry.2.map fun name => (entry.1, name)
  distinct := Names.ofListDistinct _
  joined := m.edgesJoined

def hasEdge (g : Graph) (source target : String) : Bool := g.edges.contains (source, target)

def next (g : Graph) (node : String) : List String :=
  ((g.edges.filter fun edge => edge.1 = node).map Prod.snd).reverse

/-- The nodes met so far, in order; those of them in no complete component, the latest first; and
the complete components. -/
structure Search where
  seen : List String := []
  stack : List String := []
  components : List (List String) := []
  deriving DecidableEq, Repr

def Search.number (s : Search) (node : String) : Nat := s.seen.idxOf node

def Search.enter (s : Search) (node : String) : Search :=
  { s with seen := s.seen ++ [node], stack := node :: s.stack }

def Search.close (s : Search) (node : String) : Search :=
  let above := s.stack.takeWhile fun other => decide (other ≠ node)
  { s with
    stack := (s.stack.dropWhile fun other => decide (other ≠ node)).tail
    components := s.components ++ [above ++ [node]] }

/-- The least number on the stack that the successors of a node lead back to, and the search after
them. -/
def follow (visit : String → Search → Nat × Search) : List String → Nat → Search → Nat × Search
  | [], low, s => (low, s)
  | node :: rest, low, s =>
    if node ∉ s.seen then
      let (reached, t) := visit node s
      follow visit rest (min low reached) t
    else if node ∈ s.stack then follow visit rest (min low (s.number node)) s
    else follow visit rest low s

def visit (g : Graph) : Nat → String → Search → Nat × Search
  | 0, _, s => (s.seen.length, s)
  | room + 1, node, s =>
    let (low, t) := follow (g.visit room) (g.next node) s.seen.length (s.enter node)
    (low, if low = s.seen.length then t.close node else t)

def search (g : Graph) : List String → Search → Search
  | [], s => s
  | node :: rest, s =>
    if node ∈ s.seen then g.search rest s
    else g.search rest (g.visit g.nodes.length node s).2

def components (g : Graph) : List (List String) := (g.search g.nodes {}).components

def insertName (name : String) : List String → List String
  | [] => [name]
  | other :: rest => if name ≤ other then name :: other :: rest else other :: insertName name rest

def sortNames (names : List String) : List String := names.foldr insertName []

def isCycle (g : Graph) : List String → Bool
  | [node] => g.hasEdge node node
  | _ => true

def cycles (g : Graph) : List (List String) := (g.components.filter g.isCycle).map sortNames

end Graph
end TablePlan
