import Refactor.Decimal.Shortest
import Refactor.Json.Basic
import Refactor.Text.Quoted

/-!
The settings of an engine, and what can be wrong with a text that is to hold them.
-/

namespace Refactor

structure Settings where
  maxCycles : Nat := 3
  /-- Trees that do not depend on each other may be run side by side. -/
  parallel : Bool := true
  logLevel : Option String := none
  deriving DecidableEq, Inhabited

namespace Settings

inductive Field where
  | maxCycles
  | parallel
  | logLevel
  deriving DecidableEq, Inhabited

namespace Field

def all : List Field := [maxCycles, parallel, logLevel]

def name : Field → String
  | maxCycles => "max_cycles"
  | parallel => "parallel"
  | logLevel => "log_level"

def ofName? (s : String) : Option Field := all.find? (·.name == s)

end Field

/-- What was found where something else was expected. -/
inductive Found where
  | null
  | bool (value : Bool)
  | number (value : Number)
  | string (value : String)
  | sequence
  | map
  deriving DecidableEq, Inhabited

def Found.text : Found → String
  | null => "null"
  | bool true => "boolean `true`"
  | bool false => "boolean `false`"
  | number (.integer n) => "integer `" ++ toString n ++ "`"
  | number (.float bits) => "floating point `" ++ Decimal.text bits ++ "`"
  | string s => "string " ++ Text.quoted s
  | sequence => "sequence"
  | map => "map"

/-- What a value is expected to be. -/
inductive Expected where
  | count
  | boolean
  | string
  | settings
  deriving DecidableEq, Inhabited

def Expected.text : Expected → String
  | count => "usize"
  | boolean => "a boolean"
  | string => "a string"
  | settings => "struct EngineConfig"

/-- The first problem in a text. -/
inductive Problem where
  | truncated
  | malformed
  | wrongType (found : Found) (expected : Expected)
  | negative (value : Int)
  | unknownField (name : String)
  | duplicateField (field : Field)
  deriving DecidableEq, Inhabited

def Problem.text : Problem → String
  | truncated => "eof"
  | malformed => "syntax"
  | wrongType found expected =>
    "invalid type: " ++ found.text ++ ", expected " ++ expected.text
  | negative n =>
    "invalid value: integer `" ++ toString n ++ "`, expected " ++ Expected.count.text
  | unknownField name =>
    "unknown field `" ++ name ++ "`, expected one of " ++
      ", ".intercalate (Field.all.map fun f => "`" ++ f.name ++ "`")
  | duplicateField f => "duplicate field `" ++ f.name ++ "`"

/-- Why a file could not be read as text. -/
inductive Unreadable where
  | notFound
  | invalidData
  deriving DecidableEq, Inhabited

def Unreadable.text : Unreadable → String
  | notFound => "NotFound"
  | invalidData => "InvalidData"

/-- Why there are no settings. -/
inductive LoadError where
  | parse (problem : Problem)
  | zeroCycles
  | unreadable (path : String) (reason : Unreadable)
  | inFile (path : String) (inner : LoadError)
  deriving DecidableEq, Inhabited

/-- The causes from the outermost to the innermost. -/
def LoadError.message : LoadError → String
  | parse problem => "Failed to parse engine configuration: " ++ problem.text
  | zeroCycles => "max_cycles must be at least 1, got 0"
  | unreadable path reason =>
    "Failed to read engine configuration from " ++ path ++ ": " ++ reason.text
  | inFile path inner => "Invalid configuration in " ++ path ++ ": " ++ inner.message

end Settings

end Refactor
