import Refactor.Journal.Basic
import Refactor.Pattern.Glob
import Refactor.Types.Hierarchy

/-!
Patterns for type names, such as `java.util.List`, `java.util.*`, `com..Service` and
`java.util.Collection+`. A star stays within one segment of the name, two dots stand for any number
of whole segments, and a plus at the end takes in subtypes.
-/

namespace Refactor

structure TypePattern where
  /-- The pattern as given, without blanks around it. -/
  text : String
  body : List Char
  tokens : List Token
  subtypes : Bool
  deriving Inhabited

namespace TypePattern

/-- The tokens of a body. -/
def tokenize : List Char → Except PatternFault (List Token)
  | [] => .ok []
  | '.' :: '.' :: cs => return .char '.' :: .segments :: (← tokenize cs)
  | '*' :: cs => return .run :: (← tokenize cs)
  | c :: cs =>
    if c = '.' ∨ c = '[' ∨ c = ']' ∨ c = '$' ∨ c = '_' ∨ Text.isAlphanumeric c then
      return .char c :: (← tokenize cs)
    else .error (.typeChar c)

/-- Three dots in a row stand somewhere. -/
def hasThreeDots : List Char → Bool
  | [] => false
  | '.' :: '.' :: '.' :: _ => true
  | _ :: cs => hasThreeDots cs

/-- The text without a plus at its end, and whether there was one. -/
def splitPlus (cs : List Char) : List Char × Bool :=
  if cs.getLast? = some '+' then (cs.dropLast, true) else (cs, false)

/-- Compiles a text without blanks around it. -/
def compileTrimmed (trimmed : List Char) : Except PatternFault TypePattern := do
  if trimmed = [] then throw .emptyType
  let (body, subtypes) := splitPlus trimmed
  if body = [] then throw .plusWithoutType
  if ['.', '.'].isPrefixOf body ∨ body.getLast? = some '.' then throw .strayDots
  if hasThreeDots body then throw .threeDots
  let tokens ← tokenize body
  return ⟨String.ofList trimmed, body, tokens, subtypes⟩

def compile (text : String) : Except MalformedPattern TypePattern :=
  (compileTrimmed (Text.trim text.toList)).mapError (⟨text, ·⟩)

/-- The pattern has a star or two dots. -/
def hasWildcard (p : TypePattern) : Bool := p.tokens.any (·.isWild)

/-- The type itself matches, whatever its generic arguments. A pattern without wildcards is
compared as text. -/
def matchesName (p : TypePattern) (name : String) : Bool :=
  let erased := eraseChars name.toList
  if p.hasWildcard then Token.matchesAll p.tokens erased else p.body = erased

end TypePattern

/-- Searches the types above a type and reports those come upon again. -/
def Hierarchy.anySupertype (h : Hierarchy) (name : String) (accept : ClassType → Bool) :
    Traced Bool :=
  let s := h.search accept name
  ⟨s.found, s.revisited.map fun again => .event (.supertypeRevisited again name)⟩

/-- The type matches, or the pattern takes in subtypes and some type above it does. -/
def TypePattern.matchesIn (p : TypePattern) (h : Hierarchy) (name : String) : Traced Bool :=
  if p.matchesName name then pure true
  else if p.subtypes then h.anySupertype name fun c => p.matchesName c.name
  else pure false

end Refactor
