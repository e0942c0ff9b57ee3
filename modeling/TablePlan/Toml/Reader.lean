import TablePlan.Toml.Lexis
/-! Reading TOML text. -/
namespace TablePlan.Toml

variable {α : Type}

def items (one : List Char → Option (α × List Char)) :
    Nat → List Char → Option (List α × List Char)
  | 0, _ => none
  | bound + 1, s => do
    match ← skipLines false s with
    | ']' :: s => some ([], s)
    | s => do
      let (item, s) ← one s
      match ← skipLines false s with
      | ',' :: s => do
        let (rest, s) ← items one bound s
        some (item :: rest, s)
      | ']' :: s => some ([item], s)
      | _ => none

def keyValue (one : List Char → Option (Toml × List Char)) (s : List Char) :
    Option ((List String × Toml) × List Char) := do
  let (keys, s) ← keys s
  match s with
  | '=' :: s => do
    let (v, s) ← one (skipSpace s)
    some ((keys, v), s)
  | _ => none

def entries (one : List Char → Option (Toml × List Char)) :
    Nat → Section → List Char → Option (Section × List Char)
  | 0, _, _ => none
  | bound + 1, held, s => do
    match ← skipLines false s with
    | '\x7d' :: s => some (held, s)
    | s => do
      let (keys, s) ← keys s
      let s ← mark '=' (← skipLines false s)
      let (v, s) ← one (← skipLines false s)
      let held ← held.addKeyed keys v
      match ← skipLines false s with
      | ',' :: s => entries one bound held s
      | '\x7d' :: s => some (held, s)
      | _ => none

def readValue (room : Nat) (s : List Char) : Option (Toml × List Char) :=
  match s with
  | '[' :: s =>
    match room with
    | 0 => none
    | room + 1 => do
      let (found, s) ← items (readValue room) (s.length + 1) s
      some (.array found, s)
  | '\x7b' :: s =>
    match room with
    | 0 => none
    | room + 1 => do
      let (found, s) ← entries (readValue room) (s.length + 1) .root s
      some (.table (closeEntries found.entries), s)
  | s =>
    if s.head? = some '"' ∨ s.head? = some '\'' then do
      let (found, s) ← stringValue s
      some (.string found, s)
    else do
      let (found, s) := word s
      some (← wordValue found, s)

structure Draft where
  root : Section := .root
  path : List String := []
  deriving Repr

def Draft.addKeyed (d : Draft) (keys : List String) (v : Toml) : Option Draft := do
  let root ← d.root.alter false (Section.addKeyed keys v) d.path
  some { d with root }

def Draft.openTable (d : Draft) (keys : List String) : Option Draft := do
  let (path, key) ← splitPath keys
  some { root := ← d.root.alter false (Section.addTable key) path, path := keys }

def Draft.openElement (d : Draft) (keys : List String) : Option Draft := do
  let (path, key) ← splitPath keys
  some { root := ← d.root.alter false (Section.addElement key) path, path := keys }

def readLine (d : Draft) (s : List Char) : Option (Draft × List Char) := do
  match s with
  | '[' :: '[' :: s => do
    let (keys, s) ← keys s
    let s ← mark ']' (← mark ']' s)
    some (← d.openElement keys, s)
  | '[' :: s => do
    let (keys, s) ← keys s
    let s ← mark ']' s
    some (← d.openTable keys, s)
  | s => do
    let ((keys, v), s) ← keyValue (readValue nestingRoom) s
    some (← d.addKeyed keys v, s)

def readLines : Nat → Draft → List Char → Option Draft
  | 0, _, _ => none
  | bound + 1, d, s => do
    match ← skipLines false s with
    | [] => some d
    | s => do
      let (d, s) ← readLine d s
      readLines bound d (← lineEnd s)

def ofText? (source : String) : Option (List (String × Toml)) := do
  let s := match source.toList with
    | '\ufeff' :: rest => rest
    | s => s
  let d ← readLines (s.length + 1) {} s
  some (closeEntries d.root.entries)

end TablePlan.Toml
