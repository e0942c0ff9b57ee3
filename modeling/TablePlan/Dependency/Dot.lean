import TablePlan.Decimal.Layout
import TablePlan.Dependency.Graph
import TablePlan.Text.Quoted
/-! Graphs as DOT text: a line for each node, with its name as the label, then a line for each
edge. -/
namespace TablePlan.Graph

def indent : List Char := [' ', ' ', ' ', ' ']

def label (node : String) : List Char := '"' :: Text.slashed (Text.quoted node.toList) ++ ['"']

def nodeLine (index : Nat) (node : String) : List Char :=
  indent ++ Decimal.digitsOf index ++ " [ label = ".toList ++ label node ++ " ]\n".toList

def nodeLines (index : Nat) : List String → List Char
  | [] => []
  | node :: rest => nodeLine index node ++ nodeLines (index + 1) rest

def edgeLine (g : Graph) (edge : String × String) : List Char :=
  indent ++ Decimal.digitsOf (g.nodes.idxOf edge.1) ++ " -> ".toList ++
    Decimal.digitsOf (g.nodes.idxOf edge.2) ++ " [ ]\n".toList

def dot (g : Graph) : String :=
  String.ofList ("digraph \x7b\n".toList ++ nodeLines 0 g.nodes ++ g.edges.flatMap g.edgeLine ++
    ['\x7d', '\n'])

end TablePlan.Graph
