/-!
Tables of characters. A property of characters is written down as a list of spans, each of them
an arithmetic progression of code points, since in many scripts every other letter is a capital.
-/

namespace Refactor.Text

/-- The code points `lo`, `lo + step`, … up to `hi`. -/
structure Span where
  lo : Nat
  hi : Nat
  step : Nat

/-- The character is one of the span. -/
def Span.contains (s : Span) (c : Char) : Bool :=
  s.lo ≤ c.toNat && c.toNat ≤ s.hi && (c.toNat - s.lo) % s.step == 0

/-- Some span of the table has the character. -/
def Span.covers (table : List Span) (c : Char) : Bool := table.any (·.contains c)

end Refactor.Text
