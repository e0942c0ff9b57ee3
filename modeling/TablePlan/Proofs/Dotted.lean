import TablePlan.Dependency.Dot
import TablePlan.Proofs.Legible
/-! The text of a graph holds the graph: its lines can be read off it whatever the names are, for no
name has a spelling that ends its label or its line. -/
namespace TablePlan

namespace Graph

inductive Line where
  | node (index : Nat) (name : String)
  | edge (source target : Nat)
  deriving DecidableEq, Repr

def Line.text : Line → List Char
  | .node index name => nodeLine index name
  | .edge source target =>
    indent ++ Decimal.digitsOf source ++ " -> ".toList ++ Decimal.digitsOf target ++
      " [ ]\n".toList

def lines (g : Graph) : List Line :=
  g.nodes.zipIdx.map (fun entry => .node entry.2 entry.1) ++
    g.edges.map fun edge => .edge (g.nodes.idxOf edge.1) (g.nodes.idxOf edge.2)

theorem nodeLinesText (nodes : List String) (index : Nat) :
    nodeLines index nodes =
      ((nodes.zipIdx index).map fun entry => Line.node entry.2 entry.1).flatMap Line.text := by
  induction nodes generalizing index with
  | nil => rfl
  | cons node rest ih =>
    rw [nodeLines, ih, List.zipIdx_cons, List.map_cons, List.flatMap_cons, Line.text]

theorem dotLines (g : Graph) :
    g.dot.toList = "digraph \x7b\n".toList ++ (g.lines.flatMap Line.text ++ ['\x7d', '\n']) := by
  have edges : g.edges.flatMap g.edgeLine =
      (g.edges.map fun edge =>
        Line.edge (g.nodes.idxOf edge.1) (g.nodes.idxOf edge.2)).flatMap Line.text := by
    rw [List.flatMap_map]
    rfl
  have whole : g.dot.toList = "digraph \x7b\n".toList ++ nodeLines 0 g.nodes ++
      g.edges.flatMap g.edgeLine ++ ['\x7d', '\n'] := String.toList_ofList
  rw [whole, nodeLinesText, edges, lines, List.flatMap_append]
  simp only [List.append_assoc]

theorem labelLegible : Text.Legible label := by
  intro one other behind rest same
  obtain ⟨text, later⟩ := Text.slashedLegible one.toList other.toList behind rest same
  exact ⟨String.toList_inj.1 text, later⟩

example : label "a\"\n" = "\"\\\"a\\\\\\\"\\\\n\\\"\"".toList := by decide

theorem numberLegible : Text.Legible fun n => Decimal.digitsOf n ++ [' '] :=
  Text.digitsLegible (by decide) (by decide) (by decide)

theorem nodeText (index : Nat) (name : String) (behind : List Char) :
    (Line.node index name).text ++ behind = indent ++ (Decimal.digitsOf index ++ [' '] ++
      ('[' :: " label = ".toList ++ (label name ++ (" ]\n".toList ++ behind)))) := by
  simp [Line.text, nodeLine]

theorem edgeText (source target : Nat) (behind : List Char) :
    (Line.edge source target).text ++ behind = indent ++ (Decimal.digitsOf source ++ [' '] ++
      ('-' :: "> ".toList ++
        (Decimal.digitsOf target ++ [' '] ++ ("[ ]\n".toList ++ behind)))) := by
  simp [Line.text]

theorem lineLegible : Text.Legible Line.text := by
  intro one other behind rest same
  cases one with
  | node index name =>
    cases other with
    | node number another =>
      rw [nodeText, nodeText] at same
      obtain ⟨rfl, later⟩ := numberLegible _ _ _ _ (List.append_cancel_left same)
      obtain ⟨rfl, last⟩ := labelLegible _ _ _ _ (List.append_cancel_left later)
      exact ⟨rfl, List.append_cancel_left last⟩
    | edge source target =>
      rw [nodeText, edgeText] at same
      obtain ⟨_, later⟩ := numberLegible _ _ _ _ (List.append_cancel_left same)
      cases (List.cons.inj later).1
  | edge source target =>
    cases other with
    | node number another =>
      rw [edgeText, nodeText] at same
      obtain ⟨_, later⟩ := numberLegible _ _ _ _ (List.append_cancel_left same)
      cases (List.cons.inj later).1
    | edge start stop =>
      rw [edgeText, edgeText] at same
      obtain ⟨rfl, later⟩ := numberLegible _ _ _ _ (List.append_cancel_left same)
      obtain ⟨rfl, last⟩ := numberLegible _ _ _ _ (List.append_cancel_left later)
      exact ⟨rfl, List.append_cancel_left last⟩

theorem lineIndented : Text.Avoids Line.text '\x7d' := by
  intro line behind rest same
  cases line <;> cases (List.cons.inj same).1

def Line.name? : Line → Option String
  | .node _ name => some name
  | .edge _ _ => none

def Line.ends? (nodes : List String) : Line → Option (String × String)
  | .node _ _ => none
  | .edge source target => do return (← nodes[source]?, ← nodes[target]?)

theorem linesNodes (g : Graph) : g.lines.filterMap Line.name? = g.nodes := by
  rw [lines, List.filterMap_append, List.filterMap_map, List.filterMap_map]
  have nodes : g.nodes.zipIdx.filterMap (Line.name? ∘ fun entry => .node entry.2 entry.1) =
      g.nodes := by
    have each : (Line.name? ∘ fun entry : String × Nat => .node entry.2 entry.1) =
        some ∘ Prod.fst := rfl
    rw [each, List.filterMap_eq_map, List.zipIdx_map_fst]
  have none : g.edges.filterMap (Line.name? ∘ fun edge =>
      .edge (g.nodes.idxOf edge.1) (g.nodes.idxOf edge.2)) = [] := by
    exact List.filterMap_eq_nil_iff.2 fun _ _ => rfl
  rw [nodes, none, List.append_nil]

theorem linesEdges (g : Graph) : g.lines.filterMap (Line.ends? g.nodes) = g.edges := by
  rw [lines, List.filterMap_append, List.filterMap_map, List.filterMap_map]
  have none : g.nodes.zipIdx.filterMap (Line.ends? g.nodes ∘ fun entry =>
      .node entry.2 entry.1) = [] := by
    exact List.filterMap_eq_nil_iff.2 fun _ _ => rfl
  have each : ∀ edge ∈ g.edges, (Line.ends? g.nodes ∘ fun edge : String × String =>
      .edge (g.nodes.idxOf edge.1) (g.nodes.idxOf edge.2)) edge = some edge := by
    intro edge inside
    obtain ⟨source, target⟩ := g.joined edge inside
    simp [Line.ends?, List.getElem?_idxOf source, List.getElem?_idxOf target]
  rw [none, List.nil_append, List.filterMap_congr each, List.filterMap_some]

end Graph

namespace DependencyMap

theorem dotDetermines (m n : DependencyMap) :
    (Graph.ofDependencies m).dot = (Graph.ofDependencies n).dot ↔
      (Graph.ofDependencies m).nodes = (Graph.ofDependencies n).nodes ∧
        (Graph.ofDependencies m).edges = (Graph.ofDependencies n).edges := by
  generalize Graph.ofDependencies m = g
  generalize Graph.ofDependencies n = h
  constructor
  · intro same
    have texts := congrArg String.toList same
    rw [g.dotLines, h.dotLines] at texts
    obtain ⟨lines, -⟩ := Graph.lineLegible.all Graph.lineIndented (List.append_cancel_left texts)
    have nodes : g.nodes = h.nodes := by rw [← g.linesNodes, lines, h.linesNodes]
    exact ⟨nodes, by rw [← g.linesEdges, ← h.linesEdges, lines, nodes]⟩
  · intro ⟨nodes, edges⟩
    have lines : g.lines = h.lines := by rw [Graph.lines, Graph.lines, nodes, edges]
    rw [← String.toList_inj, g.dotLines, h.dotLines, lines]

/- A quote, a line break and a backslash; and the same with each of them spelled out. -/
def broken : DependencyMap := .ofList [("a\"\n", ["\\"])]

def escaped : DependencyMap := .ofList [("a\\\"\\n", ["\\\\"])]

theorem brokenTold :
    (Graph.ofDependencies broken).dot =
        "digraph \x7b\n    0 [ label = \"\\\"a\\\\\\\"\\\\n\\\"\" ]\n" ++
          "    1 [ label = \"\\\"\\\\\\\\\\\"\" ]\n    0 -> 1 [ ]\n\x7d\n" ∧
      (Graph.ofDependencies broken).dot ≠ (Graph.ofDependencies escaped).dot ∧
      (Graph.ofDependencies broken).dot = (Graph.ofDependencies (broken.put "\\" [])).dot := by
  refine ⟨by decide +kernel, fun same => ?_, (dotDetermines broken _).2 ⟨by decide, by decide⟩⟩
  have nodes := ((dotDetermines broken escaped).1 same).1
  revert nodes
  decide

end DependencyMap
end TablePlan
