/-! The command line: a command on a file, with its options. -/
namespace TablePlan.CommandLine

inductive Command where
  | order
  | deps (dot : Bool)
  | sql (table : String)
  | schema (table : String)
  | plan
  | check
  deriving DecidableEq, Repr

structure Invocation where
  config : Option String
  file : String
  command : Command
  deriving DecidableEq, Repr

inductive Request where
  | run (invocation : Invocation)
  | help
  | version
  deriving DecidableEq, Repr

inductive Word where
  | value (text : String)
  | long (name : String) (attached : Option String)
  | short (letters : List Char)
  | stop
  deriving DecidableEq, Repr

def Word.ofString (argument : String) : Word :=
  match argument.toList with
  | ['-', '-'] => .stop
  | '-' :: '-' :: rest =>
    let name := String.ofList (rest.takeWhile (· ≠ '='))
    match rest.dropWhile (· ≠ '=') with
    | _ :: attached => .long name (some (String.ofList attached))
    | [] => .long name none
  | '-' :: c :: rest => .short (c :: rest)
  | _ => .value argument

structure Shape where
  dot : Bool
  table : Bool
  deriving DecidableEq, Repr

def shapes : List (String × Shape) :=
  [("order", ⟨false, false⟩), ("deps", ⟨true, false⟩), ("sql", ⟨false, true⟩),
    ("schema", ⟨false, true⟩), ("plan", ⟨false, false⟩), ("check", ⟨false, false⟩)]

structure Given where
  config : Option String := none
  file : Option String := none
  dot : Bool := false
  table : Option String := none
  deriving DecidableEq, Repr

namespace Given

def setConfig (g : Given) (path : String) : Option Given :=
  if g.config.isSome || path.isEmpty then none else some { g with config := some path }

def setFile (g : Given) (path : String) : Option Given :=
  if g.file.isSome || path.isEmpty then none else some { g with file := some path }

def setTable (g : Given) (name : String) : Option Given :=
  if g.table.isSome then none else some { g with table := some name }

def setDot (g : Given) : Option Given := if g.dot then none else some { g with dot := true }

end Given

inductive Ending where
  | given (given : Given)
  | help
  deriving DecidableEq, Repr

def giveFiles (g : Given) : List String → Option Given
  | [] => some g
  | path :: rest => do giveFiles (← g.setFile path) rest

-- An option without an attached value takes the next argument if that is a value.
def give (shape : Shape) (g : Given) : List String → Option Ending
  | [] => some (.given g)
  | argument :: rest =>
    let taking (set : String → Option Given) : Option Ending :=
      match rest with
      | next :: rest =>
        match Word.ofString next with
        | .value text => do give shape (← set text) rest
        | _ => none
      | [] => none
    match Word.ofString argument with
    | .value path => do give shape (← g.setFile path) rest
    | .stop => do return .given (← giveFiles g rest)
    | .long "config" none => taking g.setConfig
    | .long "config" (some path) => do give shape (← g.setConfig path) rest
    | .long "table" none => if shape.table then taking g.setTable else none
    | .long "table" (some name) =>
      if shape.table then do give shape (← g.setTable name) rest else none
    | .long "dot" none => if shape.dot then do give shape (← g.setDot) rest else none
    | .long "help" none => some .help
    | .short ['t'] => if shape.table then taking g.setTable else none
    | .short ('t' :: '=' :: name) =>
      if shape.table then do give shape (← g.setTable (String.ofList name)) rest else none
    | .short ('t' :: name) =>
      if shape.table then do give shape (← g.setTable (String.ofList name)) rest else none
    | .short ('h' :: _) => some .help
    | _ => none

def command? (name : String) (g : Given) : Option Command :=
  match name with
  | "order" => some .order
  | "deps" => some (.deps g.dot)
  | "sql" => g.table.map .sql
  | "schema" => g.table.map .schema
  | "plan" => some .plan
  | "check" => some .check
  | _ => none

def Given.invocation (g : Given) (name : String) (outer : Option String) : Option Invocation := do
  return { config := g.config <|> outer, file := ← g.file, command := ← command? name g }

def helpOn : List String → Option Request
  | [] => some .help
  | [name] => if name = "help" || (shapes.lookup name).isSome then some .help else none
  | _ => none

def request (outer : Option String) : List String → Option Request
  | [] => none
  | argument :: rest =>
    match Word.ofString argument with
    | .value name =>
      if name = "help" then helpOn rest
      else do
        let shape ← shapes.lookup name
        match ← give shape {} rest with
        | .given g => return .run (← g.invocation name outer)
        | .help => return .help
    | .long "config" none =>
      match rest with
      | next :: rest =>
        match Word.ofString next with
        | .value path => if outer.isSome || path.isEmpty then none else request (some path) rest
        | _ => none
      | [] => none
    | .long "config" (some path) =>
      if outer.isSome || path.isEmpty then none else request (some path) rest
    | .long "help" none => some .help
    | .long "version" none => some .version
    | .short ('h' :: _) => some .help
    | .short ('V' :: _) => some .version
    | _ => none

end TablePlan.CommandLine
