import ScriptCore.Source.Span
import ScriptCore.Source.Terminal

set_option autoImplicit false

/-! Terminals at their places in a source text. -/

namespace ScriptCore

/-- A terminal and where it was read. -/
structure Lexeme where
  terminal : Terminal
  span : Span
  deriving DecidableEq, Repr

namespace Lexeme

/-- A terminal that was not read from a text. -/
def unplaced (terminal : Terminal) : Lexeme := ⟨terminal, Span.nowhere⟩

end Lexeme
end ScriptCore
