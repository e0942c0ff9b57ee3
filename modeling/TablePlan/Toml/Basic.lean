import TablePlan.Decimal.Binary64
import TablePlan.Keyed
/-! TOML values. Of floats and of dates only the text is kept. -/
namespace TablePlan

inductive Toml where
  | string (s : String)
  | integer (n : Int)
  | float (spelling : String)
  | boolean (b : Bool)
  | moment (spelling : String)
  | array (items : List Toml)
  | table (entries : List (String × Toml))
  deriving Repr

namespace Toml

inductive Origin where
  | header
  | passed
  | dotted
  deriving DecidableEq, Repr

/-- A document while it is read. Values are closed; tables, and lists of tables under double
brackets, may still grow. -/
inductive Node where
  | value (v : Toml)
  | table (origin : Origin) (entries : List (String × Node))
  | tables (elements : List (List (String × Node)))
  deriving Repr

structure Section where
  origin : Origin
  entries : List (String × Node)
  deriving Repr

def Section.root : Section := ⟨.header, []⟩

-- A path goes on through the last of a list of tables, and makes the sections that are not there.
def Section.alter (dotted : Bool) (change : Section → Option Section) :
    List String → Section → Option Section
  | [], s => change s
  | key :: path, s => do
    let node ← match Keyed.find? key s.entries with
      | none => do
        let inner ← alter dotted change path ⟨if dotted then .dotted else .passed, []⟩
        some (.table inner.origin inner.entries)
      | some (.table origin entries) => do
        if dotted && origin = .header then none
        let inner ← alter dotted change path ⟨origin, entries⟩
        some (.table inner.origin inner.entries)
      | some (.tables elements) => do
        let last ← elements.getLast?
        let inner ← alter dotted change path ⟨.header, last⟩
        some (.tables (elements.dropLast ++ [inner.entries]))
      | some (.value _) => none
    some { s with entries := Keyed.put key node s.entries }

def Section.addValue (byPath : Bool) (key : String) (v : Toml) (s : Section) : Option Section :=
  if byPath != decide (s.origin = .dotted) then none
  else match Keyed.find? key s.entries with
    | some _ => none
    | none => some { s with entries := Keyed.put key (.value v) s.entries }

def Section.addTable (key : String) (s : Section) : Option Section :=
  match Keyed.find? key s.entries with
  | none => some { s with entries := Keyed.put key (.table .header []) s.entries }
  | some (.table .passed entries) =>
    some { s with entries := Keyed.put key (.table .header entries) s.entries }
  | some _ => none

def Section.addElement (key : String) (s : Section) : Option Section :=
  match Keyed.find? key s.entries with
  | none => some { s with entries := Keyed.put key (.tables [[]]) s.entries }
  | some (.tables elements) =>
    some { s with entries := Keyed.put key (.tables (elements ++ [[]])) s.entries }
  | some _ => none

def splitPath : List String → Option (List String × String)
  | [] => none
  | [key] => some ([], key)
  | step :: rest => do
    let (path, key) ← splitPath rest
    some (step :: path, key)

def Section.addKeyed (keys : List String) (v : Toml) (s : Section) : Option Section := do
  let (path, key) ← splitPath keys
  s.alter true (Section.addValue (!path.isEmpty) key v) path

mutual

def Node.close : Node → Toml
  | .value v => v
  | .table _ entries => .table (closeEntries entries)
  | .tables elements => .array (closeElements elements)

def closeEntries : List (String × Node) → List (String × Toml)
  | [] => []
  | (key, node) :: rest => (key, node.close) :: closeEntries rest

def closeElements : List (List (String × Node)) → List Toml
  | [] => []
  | entries :: rest => .table (closeEntries entries) :: closeElements rest

end

end Toml
end TablePlan
