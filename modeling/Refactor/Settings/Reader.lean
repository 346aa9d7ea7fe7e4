import Refactor.Json.Reader
import Refactor.Settings.Basic

/-!
Reading settings from JSON text, from left to right, so that the first problem in the text is the
one that counts. They are written as an object, or as the list of the values in the order of the
fields; what is left out keeps its default. No field may come twice and none may be unknown.
-/

namespace Refactor

namespace Settings

/-- The values given so far. -/
structure Given where
  maxCycles : Option Nat := none
  parallel : Option Bool := none
  logLevel : Option (Option String) := none
  deriving Inhabited

def Given.has (g : Given) : Field → Bool
  | .maxCycles => g.maxCycles.isSome
  | .parallel => g.parallel.isSome
  | .logLevel => g.logLevel.isSome

def Given.settings (g : Given) : Settings :=
  let standard : Settings := {}
  ⟨g.maxCycles.getD standard.maxCycles, g.parallel.getD standard.parallel,
    g.logLevel.getD standard.logLevel⟩

def ofFault : Json.Fault → Problem
  | .truncated => .truncated
  | .malformed => .malformed

/-- The problem with a value that is not what is expected. Its first token is read to tell. -/
def mismatch (expected : Expected) (cs : List Char) : Problem :=
  let found (r : Except Json.Fault Found) : Problem :=
    match r with
    | .ok f => .wrongType f expected
    | .error e => ofFault e
  match cs with
  | [] => .truncated
  | 'n' :: cs => found ((Json.readWord ['u', 'l', 'l'] cs).map fun _ => .null)
  | 't' :: cs => found ((Json.readWord ['r', 'u', 'e'] cs).map fun _ => .bool true)
  | 'f' :: cs => found ((Json.readWord ['a', 'l', 's', 'e'] cs).map fun _ => .bool false)
  | '-' :: cs => found ((Json.readNumber true cs).map fun r => .number r.1)
  | '"' :: cs => found ((Json.readString cs).map fun r => .string r.1)
  | '[' :: _ => .wrongType .sequence expected
  | '\x7b' :: _ => .wrongType .map expected
  | c :: rest =>
    if c.isDigit then found ((Json.readNumber false (c :: rest)).map fun r => .number r.1)
    else .malformed

/-- A count from a number. -/
def toCount : Number → Except Problem Nat
  | .integer n => if 0 ≤ n then .ok n.toNat else .error (.negative n)
  | .float bits => .error (.wrongType (.number (.float bits)) .count)

def readCount (cs : List Char) : Except Problem (Nat × List Char) :=
  match Json.skipSpace cs with
  | [] => .error .truncated
  | '-' :: cs => do
    let (n, cs) ← (Json.readNumber true cs).mapError ofFault
    return (← toCount n, cs)
  | c :: cs => do
    if c.isDigit then
      let (n, cs) ← (Json.readNumber false (c :: cs)).mapError ofFault
      return (← toCount n, cs)
    else throw (mismatch .count (c :: cs))

def readBool (cs : List Char) : Except Problem (Bool × List Char) :=
  match Json.skipSpace cs with
  | [] => .error .truncated
  | 't' :: cs => do
    let (_, cs) ← (Json.readWord ['r', 'u', 'e'] cs).mapError ofFault
    return (true, cs)
  | 'f' :: cs => do
    let (_, cs) ← (Json.readWord ['a', 'l', 's', 'e'] cs).mapError ofFault
    return (false, cs)
  | cs => .error (mismatch .boolean cs)

def readLevel (cs : List Char) : Except Problem (Option String × List Char) :=
  match Json.skipSpace cs with
  | [] => .error .truncated
  | 'n' :: cs => do
    let (_, cs) ← (Json.readWord ['u', 'l', 'l'] cs).mapError ofFault
    return (none, cs)
  | '"' :: cs => do
    let (s, cs) ← (Json.readString cs).mapError ofFault
    return (some s, cs)
  | cs => .error (mismatch .string cs)

/-- Reads the value of a field. -/
def readField (g : Given) (f : Field) (cs : List Char) : Except Problem (Given × List Char) :=
  match f with
  | .maxCycles => do
    let (n, cs) ← readCount cs
    return ({ g with maxCycles := some n }, cs)
  | .parallel => do
    let (b, cs) ← readBool cs
    return ({ g with parallel := some b }, cs)
  | .logLevel => do
    let (s, cs) ← readLevel cs
    return ({ g with logLevel := some s }, cs)

/-- The end of a list that has as many values as there are fields. -/
def readListEnd (g : Given) (cs : List Char) : Except Problem (Given × List Char) :=
  match Json.skipSpace cs with
  | [] => .error .truncated
  | ']' :: cs => .ok (g, cs)
  | _ => .error .malformed

/-- The values of a list, for the fields that are left. -/
def readList (g : Given) (first : Bool) :
    List Field → List Char → Except Problem (Given × List Char)
  | [], cs => readListEnd g cs
  | f :: fs, cs =>
    match Json.skipSpace cs with
    | [] => .error .truncated
    | ']' :: cs => .ok (g, cs)
    | c :: cs => do
      if first then
        let (g, cs) ← readField g f (c :: cs)
        readList g false fs cs
      else if c = ',' then
        match Json.skipSpace cs with
        | [] => throw .truncated
        | ']' :: _ => throw .malformed
        | cs =>
          let (g, cs) ← readField g f cs
          readList g false fs cs
      else throw .malformed

/-- A member of which the opening quote has been seen. -/
def readMember (g : Given) (cs : List Char) : Except Problem (Given × List Char) := do
  let (name, cs) ← (Json.readString cs).mapError ofFault
  match Field.ofName? name with
  | none => throw (.unknownField name)
  | some f =>
    if g.has f then throw (.duplicateField f)
    match Json.skipSpace cs with
    | [] => throw .truncated
    | ':' :: cs => readField g f cs
    | _ => throw .malformed

/-- The members of an object. No field may come twice, so there is fuel for one member more than
there are fields. -/
def readObject : Nat → Given → Bool → List Char → Except Problem (Given × List Char)
  | 0, _, _, _ => .error .malformed
  | fuel + 1, g, first, cs =>
    match Json.skipSpace cs with
    | [] => .error .truncated
    | '\x7d' :: cs => .ok (g, cs)
    | c :: cs => do
      if first then
        if c = '"' then
          let (g, cs) ← readMember g cs
          readObject fuel g false cs
        else throw .malformed
      else if c = ',' then
        match Json.skipSpace cs with
        | [] => throw .truncated
        | '"' :: cs =>
          let (g, cs) ← readMember g cs
          readObject fuel g false cs
        | _ => throw .malformed
      else throw .malformed

/-- The settings that a text spells, if there is nothing else in it. -/
def readText (cs : List Char) : Except Problem Settings := do
  let (g, rest) ← match Json.skipSpace cs with
    | [] => throw .truncated
    | '[' :: cs => readList {} true Field.all cs
    | '\x7b' :: cs => readObject (Field.all.length + 2) {} true cs
    | cs => throw (mismatch .settings cs)
  if (Json.skipSpace rest).isEmpty then return g.settings else throw .malformed

/-- Settings ask for at least one cycle. -/
def validate (s : Settings) : Except LoadError Settings :=
  if s.maxCycles = 0 then .error .zeroCycles else .ok s

def ofText (text : String) : Except LoadError Settings := do
  let s ← (readText text.toList).mapError .parse
  validate s

/-- The settings in a file of that content, of which there is none if the file does not exist. -/
def ofFile (path : String) (content : Option ByteArray) : Except LoadError Settings :=
  match content with
  | none => .error (.unreadable path .notFound)
  | some bytes =>
    match String.fromUTF8? bytes with
    | none => .error (.unreadable path .invalidData)
    | some text => (ofText text).mapError (.inFile path)

end Settings

end Refactor
