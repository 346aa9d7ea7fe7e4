import Refactor.Text.Word

/-!
Patterns over names. A pattern is a list of tokens, and a text is matched by going through it once
with the set of all token lists that could still match the rest. There are never more of those than
twice the tokens.
-/

namespace Refactor

inductive Token where
  /-- The character itself. -/
  | char (c : Char)
  /-- Any run of name characters, the empty one included. -/
  | run
  /-- Any number of segments, each a non-empty run of name characters and a dot. -/
  | segments
  /-- The rest of a segment that has begun, then any number of segments. -/
  | inSegment
  deriving DecidableEq, Inhabited

namespace Token

/-- The characters of names: word characters and the dollar sign. -/
def isNameChar (c : Char) : Bool := Text.isWordChar c || c = '$'

/-- What may be left to match after the pattern has taken the character. -/
def step (c : Char) : List Token → List (List Token)
  | [] => []
  | .char d :: ts => if c = d then [ts] else []
  | .run :: ts => (if isNameChar c then [.run :: ts] else []) ++ step c ts
  | .segments :: ts => (if isNameChar c then [.inSegment :: ts] else []) ++ step c ts
  | .inSegment :: ts =>
    (if isNameChar c then [.inSegment :: ts] else []) ++ (if c = '.' then [.segments :: ts] else [])

/-- The pattern matches the empty text. -/
def nullable : List Token → Bool
  | [] => true
  | .char _ :: _ => false
  | .run :: ts => nullable ts
  | .segments :: ts => nullable ts
  | .inSegment :: _ => false

/-- Some pattern of the list matches the text. -/
def someMatches : List (List Token) → List Char → Bool
  | states, [] => states.any nullable
  | states, c :: cs => someMatches (states.flatMap (step c)).eraseDups cs

/-- The pattern matches the whole text. -/
def matchesAll (ts : List Token) (text : List Char) : Bool := someMatches [ts] text

def isWild : Token → Bool
  | char _ => false
  | _ => true

end Token

end Refactor
