import Refactor.Marker.Basic

/-!
Markers as JSON. The payload is told by its member `type`. Members that are not known are ignored;
a missing or null description is none, everything else has to be there. An object may also be
written as the list of its members' values, and a severity as an object with that one member.
-/

namespace Refactor

namespace Payload

def toJson : Payload → Json
  | searchResult description =>
    .object [("type", .string "search_result"),
      ("description", description.elim .null .string)]
  | diagnostic severity message =>
    .object [("type", .string "diagnostic"), ("severity", .string severity.name),
      ("message", .string message)]
  | custom kind data =>
    .object [("type", .string "custom"), ("kind", .string kind), ("data", data)]

def textOf? : Json → Option String
  | .string s => some s
  | _ => none

def descriptionOf? : Json → Option (Option String)
  | .null => some none
  | .string s => some (some s)
  | _ => none

def severityOf? : Json → Option Severity
  | .string s => Severity.ofName? s
  | .object [(s, .null)] | .object [(s, .object [])] => Severity.ofName? s
  | _ => none

/-- The payload of a type from the values of its members in order. -/
def ofValues? (type : String) (values : List Json) : Option Payload :=
  match type, values with
  | "search_result", [d] => return searchResult (← descriptionOf? d)
  | "diagnostic", [s, m] => return diagnostic (← severityOf? s) (← textOf? m)
  | "custom", [k, data] => return custom (← textOf? k) data
  | _, _ => none

def ofJson? : Json → Option Payload
  | .array (.string type :: values) => ofValues? type values
  | .object members => do
    let j := Json.object members
    let type ← textOf? (← j.get? "type")
    match type with
    | "search_result" => ofValues? type [(j.get? "description").getD .null]
    | "diagnostic" => ofValues? type [← j.get? "severity", ← j.get? "message"]
    | "custom" => ofValues? type [← j.get? "kind", ← j.get? "data"]
    | _ => none
  | _ => none

end Payload

namespace Marker

def toJson (m : Marker) : Json :=
  .object [("source_id", .string m.source), ("payload", m.payload.toJson)]

def ofJson? : Json → Option Marker
  | .array [source, payload] => return ⟨← Payload.textOf? source, ← Payload.ofJson? payload⟩
  | .object members => do
    let j := Json.object members
    return ⟨← Payload.textOf? (← j.get? "source_id"), ← Payload.ofJson? (← j.get? "payload")⟩
  | _ => none

end Marker

end Refactor
