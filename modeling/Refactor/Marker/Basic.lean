import Refactor.Json.Basic

/-!
Markers: notes that recipes leave on nodes. A marker says who left it and what it says; two markers
are the same note if both agree, where attached data counts as a JSON value.
-/

namespace Refactor

inductive Severity where
  | debug
  | info
  | warning
  | error
  deriving DecidableEq, Inhabited

namespace Severity

def all : List Severity := [debug, info, warning, error]

def name : Severity → String
  | debug => "debug"
  | info => "info"
  | warning => "warning"
  | error => "error"

def ofName? (s : String) : Option Severity := all.find? (·.name == s)

/-- The place in the order from the mildest to the gravest. -/
def rank : Severity → Nat
  | debug => 0
  | info => 1
  | warning => 2
  | error => 3

/-- From the mildest to the gravest. -/
def sorted (xs : List Severity) : List Severity := xs.mergeSort fun a b => a.rank ≤ b.rank

end Severity

/-- What a marker says of its node. -/
inductive Payload where
  | searchResult (description : Option String)
  | diagnostic (severity : Severity) (message : String)
  | custom (kind : String) (data : Json)
  deriving DecidableEq, Inhabited

def Payload.canonical : Payload → Payload
  | custom kind data => custom kind data.canonical
  | p => p

structure Marker where
  /-- The recipe, or other producer, that left the marker. -/
  source : String
  payload : Payload
  deriving DecidableEq, Inhabited

namespace Marker

/-- The marker with its data in canonical form. -/
def canonical (m : Marker) : Marker := { m with payload := m.payload.canonical }

/-- The two are one note. -/
def same (a b : Marker) : Bool := a.canonical = b.canonical

def isSearchResult (m : Marker) : Bool :=
  match m.payload with
  | .searchResult _ => true
  | _ => false

end Marker

/-- The markers of the list from one source. -/
def Marker.fromSource (ms : List Marker) (source : String) : List Marker :=
  ms.filter (·.source = source)

/-- The list has a marker that is the same note. -/
def Marker.isIn (m : Marker) (ms : List Marker) : Bool := ms.any m.same

/-- The list with the marker at its end, unless it is there already. -/
def Marker.addTo (m : Marker) (ms : List Marker) : List Marker :=
  if m.isIn ms then ms else ms ++ [m]

end Refactor
