import ScriptCore.Text.Hidden

set_option autoImplicit false

/-! Characters and texts between quotation marks. A backslash starts every escape
and is itself escaped, so that the closing mark is the first bare one. -/

namespace ScriptCore.Text

/-- One character inside marks of the given kind. The mark of the other kind needs
no escape, and a hidden character is given by its code point. -/
def escaped (mark char : Char) : List Char :=
  if char = '\x00' then ['\\', '0']
  else if char = '\t' then ['\\', 't']
  else if char = '\r' then ['\\', 'r']
  else if char = '\n' then ['\\', 'n']
  else if char = '\\' then ['\\', '\\']
  else if char = mark then ['\\', mark]
  else if isHidden char then
    '\\' :: 'u' :: '\x7b' :: Nat.toDigits 16 char.toNat ++ ['\x7d']
  else [char]

/-- Characters between two marks. -/
def quoted (mark : Char) (chars : List Char) : List Char :=
  mark :: chars.flatMap (escaped mark) ++ [mark]

end ScriptCore.Text
