set_option autoImplicit false

/-! The characters with the White_Space property of Unicode, which may stand in
front of a number. -/

namespace ScriptCore.Text

/-- Ranges of code points with the White_Space property, both ends included. -/
def blankRanges : List (Nat × Nat) :=
  [(0x9, 0xD), (0x20, 0x20), (0x85, 0x85), (0xA0, 0xA0), (0x1680, 0x1680),
    (0x2000, 0x200A), (0x2028, 0x2029), (0x202F, 0x202F), (0x205F, 0x205F),
    (0x3000, 0x3000)]

def isBlank (char : Char) : Bool :=
  blankRanges.any fun range => decide (range.1 ≤ char.toNat) && decide (char.toNat ≤ range.2)

/-- The blanks of ASCII are among them. -/
theorem isBlank_of_isWhitespace (char : Char) (blank : char.isWhitespace = true) :
    isBlank char = true := by
  simp only [Char.isWhitespace, Bool.or_eq_true, decide_eq_true_eq] at blank
  rcases blank with ((same | same) | same) | same <;> subst same <;> decide

end ScriptCore.Text
