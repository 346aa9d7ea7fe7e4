/-!
Making a directory together with those above it. A path is walked step by step and its steps are not
cancelled beforehand: `a/../b` needs the directory `a`, and `a/.` is only there if `a` is one.
-/

namespace Refactor

/-- A step of a path. -/
inductive Step where
  | stay
  | up
  | down (name : String)
  deriving DecidableEq, Inhabited

namespace Step

/-- The steps of a written path. Slashes may be doubled and may stand at the end. -/
def ofPath (path : String) : List Step :=
  ((path.splitOn "/").filter (· ≠ "")).map fun s =>
    if s = "." then stay else if s = ".." then up else down s

/-- The steps without those at the end that lead nowhere. -/
def trim (path : List Step) : List Step := (path.reverse.dropWhile (· = stay)).reverse

/-- The path of the directory above. -/
def parent (path : List Step) : List Step := trim (trim path).dropLast

theorem length_trim_le (path : List Step) : (trim path).length ≤ path.length := by
  have h := (List.dropWhile_sublist (l := path.reverse) (· = stay)).length_le
  simpa [trim] using h

theorem length_parent_lt {path : List Step} (h : path ≠ []) :
    (parent path).length < path.length := by
  have h₁ := length_trim_le (trim path).dropLast
  have h₂ := length_trim_le path
  have h₃ := List.length_pos_iff.2 h
  simp only [List.length_dropLast] at h₁
  unfold parent
  omega

end Step

/-- Why a directory could not be made. -/
inductive DirectoryError where
  | alreadyExists
  | notADirectory
  | notFound
  deriving DecidableEq, Inhabited

def DirectoryError.text : DirectoryError → String
  | alreadyExists => "AlreadyExists"
  | notADirectory => "NotADirectory"
  | notFound => "NotFound"

/-- What there is below a starting directory. Each thing is given by the names that lead to it. -/
structure Disk where
  directories : List (List String) := []
  files : List (List String) := []

namespace Disk

/-- Nothing but one plain file and what leads to it. -/
def withFile (path : List Step) : Disk :=
  let place := path.foldl (fun here s => match s with
    | .stay => here
    | .up => here.dropLast
    | .down name => here ++ [name]) []
  { directories := (List.range place.length).map place.take, files := [place] }

/-- There is such a directory. The starting directory always is. -/
def hasDirectory (d : Disk) (place : List String) : Bool := place = [] || place ∈ d.directories

/-- There is such a file or directory. -/
def has (d : Disk) (place : List String) : Bool := d.hasDirectory place || place ∈ d.files

/-- The directory the steps lead to. Above the starting directory there is nothing to see. -/
def walk (d : Disk) : List String → List Step → Except DirectoryError (List String)
  | here, [] => .ok here
  | here, .stay :: rest => d.walk here rest
  | here, .up :: rest => d.walk here.dropLast rest
  | here, .down name :: rest =>
    if d.hasDirectory (here ++ [name]) then d.walk (here ++ [name]) rest
    else if here ++ [name] ∈ d.files then .error .notADirectory
    else .error .notFound

/-- The path leads to a directory. -/
def isDirectory (d : Disk) (path : List Step) : Bool := (d.walk [] path).isOk

/-- Makes one directory in another that has to be there. -/
def make (d : Disk) (path : List Step) : Except DirectoryError Disk := do
  let above ← d.walk [] path.dropLast
  match path.getLast? with
  | some (.down name) =>
    if d.has (above ++ [name]) then throw .alreadyExists
    return { d with directories := (above ++ [name]) :: d.directories }
  | _ => throw .alreadyExists

/-- The directory is there afterwards, whether it was before or not. -/
def ensure (d : Disk) (path : List Step) : Except DirectoryError Disk :=
  match d.make path with
  | .error .alreadyExists => if d.isDirectory path then .ok d else .error .alreadyExists
  | r => r

/-- Makes a directory and those above it that are missing. -/
def ensureAll (d : Disk) (path : List Step) : Except DirectoryError Disk :=
  match d.ensure path with
  | .error .notFound =>
    if _h : path = [] then .error .notFound
    else do (← d.ensureAll (Step.parent path)).ensure path
  | r => r
termination_by path.length
decreasing_by exact Step.length_parent_lt _h

/-- The names that those of the things have which are right in a directory. -/
def namesIn (place : List String) (things : List (List String)) : List String :=
  things.filterMap fun p => if p.dropLast = place then p.getLast? else none

end Disk

end Refactor
