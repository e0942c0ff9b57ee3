import TablePlan.Catalog.Plan
/-! Materialization. An engine is told of the rows of tables and executes statements over them; the
tables with queries get the rows that it answers, all of them or none. -/
namespace TablePlan

structure Engine (σ : Type) where
  register : (table : String) → (content : Instance) → σ → Except String Unit × σ
  execute : (table sql : String) → (schema : Schema) → σ → Except String (List Row) × σ

inductive Event where
  | register (table : String) (content : Instance) (answer : Except String Unit)
  | execute (table sql : String) (schema : Schema) (answer : Except String (List Row))

namespace Engine

variable {σ : Type}

def recorded (e : Engine σ) : Engine (σ × List Event) where
  register table content := fun (s, events) =>
    let (answer, s) := e.register table content s
    (answer, s, events ++ [.register table content answer])
  execute table sql schema := fun (s, events) =>
    let (answer, s) := e.execute table sql schema s
    (answer, s, events ++ [.execute table sql schema answer])

def registerTable (e : Engine σ) (table : String) (content : Instance) (s : σ) :
    Except Fault Unit × σ :=
  match e.register table content s with
  | (.ok (), s) => (.ok (), s)
  | (.error message, s) => (.error (.engine table message), s)

def registerAll (e : Engine σ) : List Table → σ → Except Fault Unit × σ
  | [], s => (.ok (), s)
  | t :: rest, s =>
    match t.content? with
    | none => e.registerAll rest s
    | some content =>
      match e.registerTable t.name content s with
      | (.ok (), s) => e.registerAll rest s
      | (.error fault, s) => (.error fault, s)

def run (e : Engine σ) (statement : Statement) (s : σ) : Except Fault Instance × σ :=
  match e.execute statement.table statement.sql statement.schema s with
  | (.ok rows, s) => (Instance.ofRows statement.schema rows, s)
  | (.error message, s) => (.error (.engine statement.table message), s)

def runQuery (e : Engine σ) (limits : Limits) (table : String) (query : Clause) (s : σ) :
    Except Fault Instance × σ :=
  match Statement.ofQuery limits table query with
  | .error fault => (.error fault, s)
  | .ok statement =>
    match e.run statement s with
    | (.error fault, s) => (.error fault, s)
    | (.ok content, s) =>
      match e.registerTable table content s with
      | (.ok (), s) => (.ok content, s)
      | (.error fault, s) => (.error fault, s)

def stage (e : Engine σ) (limits : Limits) (c : Catalog) :
    List String → σ → Except Fault (List (String × Instance)) × σ
  | [], s => (.ok [], s)
  | name :: rest, s =>
    match c.query? name with
    | none => e.stage limits c rest s
    | some query =>
      match e.runQuery limits name query s with
      | (.error fault, s) => (.error fault, s)
      | (.ok content, s) =>
        match e.stage limits c rest s with
        | (.error fault, s) => (.error fault, s)
        | (.ok staged, s) => (.ok ((name, content) :: staged), s)

end Engine

namespace Catalog

def settle (c : Catalog) : List (String × Instance) → Except Fault (List String) × Catalog
  | [] => (.ok [], c)
  | (name, content) :: rest =>
    match c.materialize name content with
    | .error fault => (.error fault, c)
    | .ok (_, c) =>
      match c.settle rest with
      | (.ok names, c) => (.ok (name :: names), c)
      | (.error fault, c) => (.error fault, c)

end Catalog

structure Outcome (σ : Type) where
  result : Except Fault (List String)
  catalog : Catalog
  state : σ

/-- Fills all tables with queries. No table is touched before the engine has answered for all. -/
def Catalog.materializeAll {σ : Type} (c : Catalog) (e : Engine σ) (limits : Limits) (s : σ) :
    Outcome σ :=
  match c.order limits with
  | .error fault => ⟨.error fault, c, s⟩
  | .ok names =>
    match e.registerAll c.tables s with
    | (.error fault, s) => ⟨.error fault, c, s⟩
    | (.ok (), s) =>
      match e.stage limits c names s with
      | (.error fault, s) => ⟨.error fault, c, s⟩
      | (.ok staged, s) =>
        let (result, c) := c.settle staged
        ⟨result, c, s⟩

end TablePlan
