import ScriptCore.Text.Cut

set_option autoImplicit false

/-! Places in a source text. A span counts UTF-8 bytes; it may be empty, turned
around or lie outside the text, and then covers no slice of it. -/

namespace ScriptCore

/-- Byte range in a source text: `start` belongs to it, `stop` does not. -/
structure Span where
  start : UInt32
  stop : UInt32
  deriving DecidableEq, Repr

namespace Span

/-- The span of whatever was not read from a text. -/
def nowhere : Span := ⟨0, 0⟩

/-- Bytes covered; a span that is turned around covers none. -/
def length (span : Span) : Nat :=
  span.stop.toNat - span.start.toNat

def isEmpty (span : Span) : Bool :=
  decide (span.stop ≤ span.start)

/-- The smallest span that covers both. -/
def merge (first second : Span) : Span :=
  ⟨min first.start second.start, max first.stop second.stop⟩

/-- Written `start..stop`. -/
def display (span : Span) : String :=
  s!"{span.start}..{span.stop}"

/-- The slice of `source` that the span covers. There is none when the span is
turned around, passes the end, or has an end inside a character. -/
def text? (span : Span) (source : String) : Option String :=
  if span.start ≤ span.stop then do
    let (_, rest) ← Text.cutAtByte? span.start.toNat source.toList
    let (covered, _) ← Text.cutAtByte? span.length rest
    some (String.ofList covered)
  else
    none

end Span
end ScriptCore
