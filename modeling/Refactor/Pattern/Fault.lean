/-!
What can be wrong with the text of a pattern.
-/

namespace Refactor

inductive PatternFault where
  | emptyType
  | plusWithoutType
  | strayDots
  | threeDots
  | typeChar (c : Char)
  | emptyMethod
  | missingParameters
  | unclosedParameters
  | unbalanced
  | missingName
  | extraWords
  | emptySlot
  | nameChar (c : Char)
  deriving DecidableEq, Inhabited

def PatternFault.reason : PatternFault → String
  | emptyType => "empty type pattern"
  | plusWithoutType => "'+' without a type"
  | strayDots => "'..' must sit between name segments"
  | threeDots => "unexpected '...'"
  | typeChar c => "unexpected character '" ++ c.toString ++ "' in type pattern"
  | emptyMethod => "empty method pattern"
  | missingParameters => "missing parameter list"
  | unclosedParameters => "parameter list is not closed"
  | unbalanced => "unbalanced parentheses"
  | missingName => "missing method name"
  | extraWords => "expected '<type> <name>(<params>)'"
  | emptySlot => "empty parameter slot"
  | nameChar c => "unexpected character '" ++ c.toString ++ "' in method name"

/-- A text that is no pattern, and why. -/
structure MalformedPattern where
  pattern : String
  fault : PatternFault
  deriving DecidableEq, Inhabited

def MalformedPattern.message (e : MalformedPattern) : String :=
  "malformed pattern '" ++ e.pattern ++ "': " ++ e.fault.reason

end Refactor
