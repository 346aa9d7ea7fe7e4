import Refactor.Directory

/-!
Where session logs are kept, and which of them are still wanted when a new session begins. A log is
one by its name; logs are kept for a week, and nothing but a plain file is ever removed.
-/

namespace Refactor

namespace SessionLog

/-- The name under a directory. -/
def join (directory name : String) : String :=
  if directory.toList.getLast? = some '/' then directory ++ name else directory ++ "/" ++ name

/-- The directory for session logs: in the user's cache, which is where the environment says as
long as that is an absolute path, and in the home directory otherwise. -/
def defaultDirectory (home cacheHome : Option String) : Option String :=
  let cache := match cacheHome with
    | some path => if path.toList.head? = some '/' then some path else none
    | none => none
  (cache.or (home.map (join · ".cache"))).map (join · "syntax-rewrite")

/-- Something in the directory of session logs. -/
structure LogEntry where
  name : String
  /-- Seconds since the last change, negative if that is yet to come. -/
  age : Int
  isDirectory : Bool := false
  deriving DecidableEq, Inhabited

/-- Seven days in seconds. -/
def retention : Int := 7 * 24 * 60 * 60

def isSessionLog (name : String) : Bool :=
  "session-".toList.isPrefixOf name.toList && ".log".toList.isSuffixOf name.toList

/-- The entry is a session log past its time. -/
def LogEntry.isExpired (e : LogEntry) : Bool := isSessionLog e.name && retention < e.age

/-- The entries that are left after old session logs have been removed. -/
def cleanUp (entries : List LogEntry) : List LogEntry :=
  entries.filter fun e => e.isDirectory || !e.isExpired

/-- What is in a directory, none of it older than the session. -/
def contents (disk : Disk) (place : List String) : List LogEntry :=
  (Disk.namesIn place disk.directories).map (fun name => ⟨name, 0, true⟩) ++
    (Disk.namesIn place disk.files).map (fun name => ⟨name, 0, false⟩)

/-- Puts an entry into a directory, in place of one of the same name. -/
def put (entries : List LogEntry) (e : LogEntry) : List LogEntry :=
  entries.filter (·.name ≠ e.name) ++ [e]

/-- Gets the directory ready for a session: it is there and old logs are gone. A plain file may be
there already, and may be in the way. The entries are put into the directory in turn. Gives what is
left in it, without the log of the new session. -/
def prepare (path : String) (file : Option String) (entries : List LogEntry) :
    Except DirectoryError (List LogEntry) := do
  let before : Disk := match file with
    | none => {}
    | some f => .withFile (Step.ofPath f)
  let disk ← before.ensureAll (Step.ofPath path)
  let place ← disk.walk [] (Step.ofPath path)
  return cleanUp (entries.foldl put (contents disk place))

end SessionLog

end Refactor
