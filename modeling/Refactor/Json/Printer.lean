import Refactor.Decimal.Shortest
import Refactor.Json.Basic

/-!
Writing JSON text, with nothing between the tokens.
-/

namespace Refactor

def Number.render : Number → String
  | .integer n => toString n
  | .float bits => Decimal.text bits

namespace Json

/-- Four hexadecimal digits. -/
def hexText (n : Nat) : List Char :=
  let digits := Nat.toDigits 16 n
  List.replicate (4 - digits.length) '0' ++ digits

def escapedChar (c : Char) : List Char :=
  if c = '"' then ['\\', '"']
  else if c = '\\' then ['\\', '\\']
  else if c.toNat < 0x20 then ['\\', 'u'] ++ hexText c.toNat
  else [c]

def renderString (s : String) : String :=
  String.ofList (['"'] ++ s.toList.flatMap escapedChar ++ ['"'])

mutual
def render : Json → String
  | .null => "null"
  | .bool true => "true"
  | .bool false => "false"
  | .number n => n.render
  | .string s => renderString s
  | .array items => "[" ++ ",".intercalate (renderItems items) ++ "]"
  | .object members => "\x7b" ++ ",".intercalate (renderMembers members) ++ "\x7d"
def renderItems : List Json → List String
  | [] => []
  | j :: rest => render j :: renderItems rest
def renderMembers : List (String × Json) → List String
  | [] => []
  | (name, j) :: rest => (renderString name ++ ":" ++ render j) :: renderMembers rest
end

end Json

end Refactor
