import Refactor.Pattern.TypePattern

/-!
Patterns for methods, such as `java.util.List add(..)` or `org.junit..* assert*(*, int)`: a type
pattern, a name in which stars stand for runs of name characters, and slots for the parameters.
-/

namespace Refactor

inductive NamePattern where
  /-- A star alone. -/
  | any
  | exact (name : List Char)
  | glob (tokens : List Token)
  deriving Inhabited

namespace NamePattern

def constructorName : List Char := "<constructor>".toList

def isAllowed (c : Char) : Bool := Text.isAlphanumeric c || c = '_' || c = '$' || c = '*'

def compile (name : List Char) : Except PatternFault NamePattern :=
  if name = ['*'] then .ok any
  else if name = constructorName then .ok (exact name)
  else
    match name.find? (!isAllowed ·) with
    | some c => .error (.nameChar c)
    | none =>
      if '*' ∈ name then .ok (glob (name.map fun c => if c = '*' then .run else .char c))
      else .ok (exact name)

def matchesName (p : NamePattern) (name : String) : Bool :=
  match p with
  | any => true
  | exact expected => expected = name.toList
  | glob tokens => Token.matchesAll tokens name.toList

end NamePattern

inductive ParamSlot where
  | type (pattern : TypePattern)
  /-- Exactly one parameter of any type. -/
  | one
  /-- Any number of parameters, none included. -/
  | rest
  deriving Inhabited

namespace ParamSlot

def compile (text : List Char) : Except PatternFault ParamSlot :=
  let trimmed := Text.trim text
  if trimmed = [] then .error .emptySlot
  else if trimmed = ['.', '.'] then .ok rest
  else if trimmed = ['*'] then .ok one
  else (TypePattern.compileTrimmed trimmed).map type

/-- Some list that is left after dropping items from the front passes the test. -/
def anySuffix {α : Type} (test : List α → Bool) : List α → Bool
  | [] => test []
  | a :: as => test (a :: as) || anySuffix test as

/-- The parameter types can be dealt out to the slots in order. -/
def matchAll : List ParamSlot → List String → Bool
  | [], params => params.isEmpty
  | rest :: slots, params => anySuffix (matchAll slots) params
  | one :: slots, params =>
    match params with
    | [] => false
    | _ :: params => matchAll slots params
  | type p :: slots, params =>
    match params with
    | [] => false
    | param :: params => p.matchesName param && matchAll slots params

end ParamSlot

structure MethodPattern where
  /-- The pattern as given, without blanks around it. -/
  text : String
  declaring : TypePattern
  name : NamePattern
  slots : List ParamSlot
  /-- Methods that override a matching one match too. -/
  overrides : Bool := false
  deriving Inhabited

namespace MethodPattern

/-- The slots of a parameter list, of which the parentheses are off. -/
def compileSlots (text : List Char) : Except PatternFault (List ParamSlot) :=
  if Text.trim text = [] then .ok [] else (Text.pieces ',' text).mapM ParamSlot.compile

/-- Compiles a text without blanks around it. Of several faults the one in the parameters counts
before the one in the type, and that before the one in the name. -/
def compileTrimmed (trimmed : List Char) : Except PatternFault MethodPattern := do
  if trimmed = [] then throw .emptyMethod
  let head := trimmed.takeWhile (· ≠ '(')
  let after := (trimmed.dropWhile (· ≠ '(')).tail
  if '(' ∉ trimmed then throw .missingParameters
  if after.getLast? ≠ some ')' then throw .unclosedParameters
  let params := after.dropLast
  if '(' ∈ params ∨ ')' ∈ params then throw .unbalanced
  match Text.words head with
  | [declaring, name] =>
    let slots ← compileSlots params
    let declaring ← TypePattern.compileTrimmed declaring
    let name ← NamePattern.compile name
    return ⟨String.ofList trimmed, declaring, name, slots, false⟩
  | [] | [_] => throw .missingName
  | _ => throw .extraWords

def compile (text : String) : Except MalformedPattern MethodPattern :=
  (compileTrimmed (Text.trim text.toList)).mapError (⟨text, ·⟩)

def withOverrides (p : MethodPattern) (overrides : Bool) : MethodPattern := { p with overrides }

/-- The method has the name and the parameters that the pattern asks for. -/
def matchesShape (p : MethodPattern) (m : MethodType) : Bool :=
  p.name.matchesName m.name && ParamSlot.matchAll p.slots m.parameterTypes

/-- The method matches: in its own declaring type, or in one above it as far as the pattern takes in
subtypes or overriding methods. -/
def matchesIn (p : MethodPattern) (h : Hierarchy) (m : MethodType) : Traced Bool := do
  if !p.matchesShape m then pure false
  else if ← p.declaring.matchesIn h m.declaringType then pure true
  else if p.overrides then
    h.anySupertype m.declaringType fun c =>
      (c.declaredMethod m).isSome && p.declaring.matchesName c.name
  else pure false

/-- The node has a method type and that matches. -/
def matchesTree {β : Type} (p : MethodPattern) (h : Hierarchy) (t : Labelled β) : Traced Bool :=
  match t.methodType with
  | none => pure false
  | some m => p.matchesIn h m

end MethodPattern

end Refactor
