import Refactor.Json.Basic

/-!
Reading JSON text. The readers of the single tokens stand on their own: each takes the characters
from where the token goes on and gives back what it read and the characters after it. A text can be
at fault in two ways: it stops too early, or a character stands where it must not.
-/

namespace Refactor.Json

inductive Fault where
  | truncated
  | malformed
  deriving DecidableEq

def isSpace (c : Char) : Bool := c = ' ' || c = '\n' || c = '\t' || c = '\r'

def skipSpace (cs : List Char) : List Char := cs.dropWhile isSpace

/-- The rest of a word such as `null`, of which the first letter has been seen. -/
def readWord : List Char → List Char → Except Fault (Unit × List Char)
  | [], cs => .ok ((), cs)
  | _ :: _, [] => .error .truncated
  | w :: ws, c :: cs => if c = w then readWord ws cs else .error .malformed

/-! ### Strings -/

def hexDigit (c : Char) : Option Nat :=
  if '0' ≤ c ∧ c ≤ '9' then some (c.toNat - 48)
  else if 'a' ≤ c ∧ c ≤ 'f' then some (c.toNat - 87)
  else if 'A' ≤ c ∧ c ≤ 'F' then some (c.toNat - 55)
  else none

def hexQuad (a b c d : Char) : Option Nat := do
  let a ← hexDigit a
  let b ← hexDigit b
  let c ← hexDigit c
  let d ← hexDigit d
  pure (((a * 16 + b) * 16 + c) * 16 + d)

/-- Why no four hexadecimal digits could be read: fewer than four bytes are left, or they are
something else. -/
def hexFault (cs : List Char) : Fault :=
  if (String.ofList cs).utf8ByteSize < 4 then .truncated else .malformed

def shortEscape (c : Char) : Option Char :=
  match c with
  | '"' => some '"'
  | '\\' => some '\\'
  | '/' => some '/'
  | 'b' => some '\x08'
  | 'f' => some '\x0c'
  | 'n' => some '\n'
  | 'r' => some '\r'
  | 't' => some '\t'
  | _ => none

/-- The rest of a string after its opening quote. The characters read so far come in reverse.
Code points beyond the first plane are written as a pair of surrogates; a surrogate without its
partner is refused. -/
def readChars (seen : List Char) : List Char → Except Fault (String × List Char)
  | [] => .error .truncated
  | '"' :: cs => .ok (String.ofList seen.reverse, cs)
  | '\\' :: cs =>
    match cs with
    | [] => .error .truncated
    | 'u' :: cs =>
      match cs with
      | a :: b :: c :: d :: cs =>
        match hexQuad a b c d with
        | none => .error .malformed
        | some n =>
          if 0xdc00 ≤ n ∧ n ≤ 0xdfff then .error .malformed
          else if 0xd800 ≤ n ∧ n ≤ 0xdbff then
            match cs with
            | [] => .error .truncated
            | '\\' :: cs =>
              match cs with
              | [] => .error .truncated
              | 'u' :: cs =>
                match cs with
                | a :: b :: c :: d :: cs =>
                  match hexQuad a b c d with
                  | none => .error .malformed
                  | some m =>
                    if 0xdc00 ≤ m ∧ m ≤ 0xdfff then
                      let point := (n - 0xd800) * 0x400 + (m - 0xdc00) + 0x10000
                      readChars (Char.ofNat point :: seen) cs
                    else .error .malformed
                | short => .error (hexFault short)
              | _ :: _ => .error .malformed
            | _ :: _ => .error .malformed
          else readChars (Char.ofNat n :: seen) cs
      | short => .error (hexFault short)
    | c :: cs =>
      match shortEscape c with
      | some e => readChars (e :: seen) cs
      | none => .error .malformed
  | c :: cs => if c.toNat < 0x20 then .error .malformed else readChars (c :: seen) cs

def readString (cs : List Char) : Except Fault (String × List Char) := readChars [] cs

/-! ### Numbers -/

def maxWord : Nat := 0xffffffffffffffff

/-- Takes digits into the significand as long as it stays a word of 64 bits. Gives the significand,
the number of digits taken, and the rest. -/
def takeDigits (significand taken : Nat) : List Char → Nat × Nat × List Char
  | [] => (significand, taken, [])
  | c :: cs =>
    if c.isDigit ∧ significand * 10 + (c.toNat - 48) ≤ maxWord then
      takeDigits (significand * 10 + (c.toNat - 48)) (taken + 1) cs
    else (significand, taken, c :: cs)

/-- `significand · 10 ^ exponent` as a double, with one rounding for each factor, the largest of
which is `10 ^ 308`. There is none if the value is too large. -/
def scaled : Nat → Float → Int → Option Float
  | 0, f, _ => some f
  | fuel + 1, f, exponent =>
    if exponent.natAbs ≤ 308 then
      let power := Float.ofScientific 1 false exponent.natAbs
      if 0 ≤ exponent then
        if (f * power).isInf then none else some (f * power)
      else some (f / power)
    else if f == 0 then some f
    else if 0 ≤ exponent then none
    else scaled fuel (f / Float.ofScientific 1 false 308) (exponent + 308)

/-- After two steps by `10 ^ 308` nothing is left of a word. -/
def toFloat (negative : Bool) (significand : Nat) (exponent : Int) : Except Fault Number :=
  match scaled 4 (UInt64.ofNat significand).toFloat exponent with
  | none => .error .malformed
  | some f => .ok (.float (if negative then -f else f).toBits)

/-- An exponent of which the mark has been seen. Past 31 bits it is as good as infinite. -/
def readExponent (negative : Bool) (significand : Nat) (exponent : Int) (cs : List Char) :
    Except Fault (Number × List Char) :=
  let (down, cs) := match cs with
    | '+' :: cs => (false, cs)
    | '-' :: cs => (true, cs)
    | cs => (false, cs)
  match cs with
  | [] => .error .truncated
  | c :: _ =>
    if c.isDigit then
      let digits := cs.takeWhile Char.isDigit
      let rest := cs.dropWhile Char.isDigit
      let value : Nat := digits.foldl (fun n d => n * 10 + (d.toNat - 48)) 0
      if value > 0x7fffffff then
        if significand ≠ 0 ∧ !down then .error .malformed
        else .ok (.float (if negative then -0.0 else 0.0 : Float).toBits, rest)
      else do
        let n ← toFloat negative significand (if down then exponent - value else exponent + value)
        pure (n, rest)
    else .error .malformed

/-- What may follow the digits of a double: an exponent or nothing. -/
def readTail (negative : Bool) (significand : Nat) (exponent : Int) (cs : List Char) :
    Except Fault (Number × List Char) :=
  match cs with
  | 'e' :: cs | 'E' :: cs => readExponent negative significand exponent cs
  | cs => do
    let n ← toFloat negative significand exponent
    pure (n, cs)

/-- The digits after the point. Those that the significand has no room for are skipped. -/
def readFraction (negative : Bool) (significand : Nat) (exponent : Int) (cs : List Char) :
    Except Fault (Number × List Char) :=
  match cs with
  | [] => .error .truncated
  | c :: _ =>
    if c.isDigit then
      let (significand, taken, rest) := takeDigits significand 0 cs
      readTail negative significand (exponent - taken) (rest.dropWhile Char.isDigit)
    else .error .malformed

/-- An integer that fits 64 bits stays one; minus zero is a double. -/
def integerNumber (negative : Bool) (n : Nat) : Number :=
  if !negative then .integer n
  else if n = 0 ∨ n > 0x8000000000000000 then .float (-(UInt64.ofNat n).toFloat).toBits
  else .integer (-n)

/-- A number of which the sign has been seen. -/
def readNumber (negative : Bool) (cs : List Char) : Except Fault (Number × List Char) :=
  match cs with
  | [] => .error .truncated
  | c :: next =>
    if c.isDigit then
      if c = '0' ∧ (next.head?.any Char.isDigit) then .error .malformed
      else
        let (significand, _, rest) := takeDigits 0 0 cs
        let skipped := (rest.takeWhile Char.isDigit).length
        match rest.dropWhile Char.isDigit with
        | '.' :: after => readFraction negative significand skipped after
        | 'e' :: after | 'E' :: after => readExponent negative significand skipped after
        | after =>
          if skipped = 0 then .ok (integerNumber negative significand, after)
          else do
            let n ← toFloat negative significand skipped
            pure (n, after)
    else .error .malformed

/-! ### Values -/

mutual
/-- A value, with fuel for its tokens. -/
def readValue : Nat → List Char → Except Fault (Json × List Char)
  | 0, _ => .error .truncated
  | fuel + 1, cs =>
    match skipSpace cs with
    | [] => .error .truncated
    | 'n' :: cs => do let (_, cs) ← readWord ['u', 'l', 'l'] cs; pure (.null, cs)
    | 't' :: cs => do let (_, cs) ← readWord ['r', 'u', 'e'] cs; pure (.bool true, cs)
    | 'f' :: cs => do let (_, cs) ← readWord ['a', 'l', 's', 'e'] cs; pure (.bool false, cs)
    | '"' :: cs => do let (s, cs) ← readString cs; pure (.string s, cs)
    | '-' :: cs => do let (n, cs) ← readNumber true cs; pure (.number n, cs)
    | '[' :: cs =>
      match skipSpace cs with
      | ']' :: cs => .ok (.array [], cs)
      | cs => readItems fuel [] cs
    | '\x7b' :: cs =>
      match skipSpace cs with
      | '\x7d' :: cs => .ok (.object [], cs)
      | cs => readMembers fuel [] cs
    | cs => do let (n, cs) ← readNumber false cs; pure (.number n, cs)
def readItems : Nat → List Json → List Char → Except Fault (Json × List Char)
  | 0, _, _ => .error .truncated
  | fuel + 1, seen, cs => do
    let (j, cs) ← readValue fuel cs
    match skipSpace cs with
    | [] => .error .truncated
    | ',' :: cs => readItems fuel (j :: seen) cs
    | ']' :: cs => .ok (.array (j :: seen).reverse, cs)
    | _ => .error .malformed
def readMembers : Nat → List (String × Json) → List Char → Except Fault (Json × List Char)
  | 0, _, _ => .error .truncated
  | fuel + 1, seen, cs =>
    match skipSpace cs with
    | [] => .error .truncated
    | '"' :: cs => do
      let (name, cs) ← readString cs
      match skipSpace cs with
      | [] => .error .truncated
      | ':' :: cs =>
        let (j, cs) ← readValue fuel cs
        match skipSpace cs with
        | [] => .error .truncated
        | ',' :: cs => readMembers fuel ((name, j) :: seen) cs
        | '\x7d' :: cs => .ok (.object ((name, j) :: seen).reverse, cs)
        | _ => .error .malformed
      | _ => .error .malformed
    | _ => .error .malformed
end

/-- The value a text spells. Every step of the readers takes a character, so the length of the text
is fuel enough. -/
def parse (s : String) : Except Fault Json := do
  let cs := s.toList
  let (j, rest) ← readValue (2 * cs.length + 2) cs
  if (skipSpace rest).isEmpty then pure j else .error .malformed

end Refactor.Json
