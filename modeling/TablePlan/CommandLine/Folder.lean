import TablePlan.Fault
/-! A folder of files that is held in memory, and what is found under a path. -/
namespace TablePlan.CommandLine

structure Folder where
  files : List (List String × String)
  deriving DecidableEq, Repr

def pathSteps : List Char → List (List Char)
  | [] => [[]]
  | c :: rest =>
    match pathSteps rest with
    | [] => []
    | step :: steps => if c = '/' then [] :: step :: steps else (c :: step) :: steps

def stepsOf (path : String) : List String := (pathSteps path.toList).map String.ofList

def isIdle (step : String) : Bool := step = "" || step = "."

def isLongName (step : String) : Bool := decide (255 < step.utf8ByteSize)

def isLongPath (path : String) : Bool := decide (4096 ≤ path.utf8ByteSize)

def absent (step : String) : FileFault := if isLongName step then .nameTooLong else .missing

def Folder.ofFiles (files : List (String × String)) : Folder :=
  ⟨files.reverse.map fun (path, text) => ((stepsOf path).filter fun step => !isIdle step, text)⟩

namespace Folder

def text? (f : Folder) (steps : List String) : Option String := f.files.lookup steps

def hasFolder (f : Folder) (steps : List String) : Bool :=
  steps.isEmpty || f.files.any fun (path, _) => steps.isPrefixOf path && steps.length < path.length

def follow (f : Folder) : Option (List String) → List String → Except FileFault String
  | none, [] => .error .isFolder
  | none, step :: rest =>
    if isIdle step || step = ".." then f.follow none rest else .error (absent step)
  | some place, [] =>
    match f.text? place with
    | some text => .ok text
    | none => .error .isFolder
  | some place, step :: rest =>
    if (f.text? place).isSome then .error .notFolder
    else if isIdle step then f.follow (some place) rest
    else if step = ".." then
      f.follow (if place.isEmpty then none else some place.dropLast) rest
    else
      let next := place ++ [step]
      if (f.text? next).isSome || f.hasFolder next then f.follow (some next) rest
      else .error (absent step)

def read (f : Folder) (path : String) : Except FileFault String :=
  if isLongPath path then .error .nameTooLong
  else match stepsOf path with
  | [""] => .error .missing
  | "" :: rest => f.follow none rest
  | steps => f.follow (some []) steps

end Folder
end TablePlan.CommandLine
