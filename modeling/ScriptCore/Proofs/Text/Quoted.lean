import Mathlib
import ScriptCore.Proofs.Number.Hexadecimal
import ScriptCore.Text.Quoted

set_option autoImplicit false

/-! What stands between quotation marks ends by itself. A character is read back from what is
written for it, whatever follows, and nothing that is written for a character begins with the mark,
so the first bare mark is the closing one. -/

namespace ScriptCore.Text

open Number.Reading

/-! ### Code points -/

private theorem digitChar_hexadecimal : ∀ digit < 16,
    isHexDigit (Nat.digitChar digit) = true ∧ hexDigitValue (Nat.digitChar digit) = digit := by
  decide

/-- The hexadecimal digits of a number stand for the number. -/
theorem hexadecimal_toDigits (number : Nat) :
    (∀ char, char ∈ Nat.toDigits 16 number → isHexDigit char = true) ∧
      hexNumber (Nat.toDigits 16 number) = number := by
  induction number using Nat.strongRecOn with
  | ind number ih =>
      by_cases small : number < 16
      · obtain ⟨digit, value⟩ := digitChar_hexadecimal number small
        rw [Nat.toDigits_of_lt_base small]
        constructor
        · intro char member
          rw [List.mem_singleton.mp member]
          exact digit
        · rw [← List.nil_append [_], hexNumber_append, value]
          exact Nat.zero_add number
      · have large : 16 ≤ number := Nat.le_of_not_lt small
        obtain ⟨digits, leading⟩ := ih (number / 16) (by omega)
        obtain ⟨digit, value⟩ := digitChar_hexadecimal (number % 16) (Nat.mod_lt _ (by decide))
        rw [Nat.toDigits_of_base_le (by decide) large]
        constructor
        · intro char member
          rcases List.mem_append.mp member with before | last
          · exact digits char before
          · rw [List.mem_singleton.mp last]
            exact digit
        · rw [hexNumber_append, leading, value]
          omega

/-- The character whose code point stands between braces, and what follows. -/
def readCode (text : List Char) : Char × List Char :=
  (Char.ofNat (hexNumber ((text.drop 1).span isHexDigit).1),
    ((text.drop 1).span isHexDigit).2.drop 1)

theorem readCode_toDigits (char : Char) (rest : List Char) :
    readCode ('\x7b' :: (Nat.toDigits 16 char.toNat ++ '\x7d' :: rest)) = (char, rest) := by
  obtain ⟨digits, value⟩ := hexadecimal_toDigits char.toNat
  have closing : Number.Stops isHexDigit ('\x7d' :: rest) := Number.stops_cons rfl
  rw [readCode, List.drop_one, List.tail_cons, Number.span_append_of_stops digits closing, value,
    Char.ofNat_toNat]
  rfl

/-! ### Characters -/

/-- The marks around a character and around a text. -/
def IsMark (mark : Char) : Prop := mark = '\'' ∨ mark = '"'

/-- What a character behind a backslash means. -/
def meaning (kind : Char) : Char :=
  if kind = '0' then '\x00'
  else if kind = 't' then '\t'
  else if kind = 'r' then '\r'
  else if kind = 'n' then '\n'
  else kind

/-- How a character is written between marks. -/
inductive Escape (mark char : Char) : List Char → Prop where
  | letter {kind : Char} (apart : kind ≠ 'u') (means : meaning kind = char) :
      Escape mark char ['\\', kind]
  | code : Escape mark char
      ('\\' :: 'u' :: '\x7b' :: (Nat.toDigits 16 char.toNat ++ ['\x7d']))
  | plain (noSlash : char ≠ '\\') (noMark : char ≠ mark) : Escape mark char [char]

/-- The character that a text between marks begins with, and what follows. -/
def readEscaped : List Char → Option (Char × List Char)
  | '\\' :: kind :: rest => some (if kind = 'u' then readCode rest else (meaning kind, rest))
  | char :: rest => some (char, rest)
  | [] => none

namespace Escape

variable {mark char : Char} {text : List Char} (written : Escape mark char text)

include written

theorem readEscaped_append (rest : List Char) : readEscaped (text ++ rest) = some (char, rest) := by
  cases written with
  | letter apart means =>
      rw [List.cons_append, List.singleton_append, readEscaped, if_neg apart, means]
  | code =>
      simp only [List.cons_append, List.append_assoc, List.nil_append]
      rw [readEscaped, if_pos rfl, readCode_toDigits]
  | plain noSlash _ =>
      rw [List.singleton_append, readEscaped]
      intro _ _ slash
      exact absurd slash noSlash

theorem ne_mark (slash : mark ≠ '\\') (rest rest' : List Char) :
    text ++ rest ≠ mark :: rest' := by
  intro same
  cases written with
  | letter => exact slash (List.cons.inj same).1.symm
  | code => exact slash (List.cons.inj same).1.symm
  | plain _ noMark => exact noMark (List.cons.inj same).1

end Escape

section Marked

variable {mark : Char} (marked : IsMark mark)

include marked

theorem escape_escaped (char : Char) : Escape mark char (escaped mark char) := by
  unfold escaped
  split_ifs with zero tab back line slash same hidden
  · exact .letter (by decide) zero.symm
  · exact .letter (by decide) tab.symm
  · exact .letter (by decide) back.symm
  · exact .letter (by decide) line.symm
  · exact .letter (by decide) slash.symm
  · rcases marked with rfl | rfl
    · exact .letter (by decide) same.symm
    · exact .letter (by decide) same.symm
  · exact .code
  · exact .plain slash same

theorem escaped_append_inj {first second : Char} {rest rest' : List Char}
    (same : escaped mark first ++ rest = escaped mark second ++ rest') :
    first = second ∧ rest = rest' := by
  have read := (escape_escaped marked first).readEscaped_append rest
  rw [same, (escape_escaped marked second).readEscaped_append rest', Option.some.injEq,
    Prod.mk.injEq] at read
  exact ⟨read.1.symm, read.2.symm⟩

theorem escaped_append_ne (char : Char) (rest rest' : List Char) :
    escaped mark char ++ rest ≠ mark :: rest' := by
  apply (escape_escaped marked char).ne_mark
  rcases marked with rfl | rfl
  · decide
  · decide

/-! ### Texts -/

theorem flatMap_escaped_append_inj {first second rest rest' : List Char}
    (same : first.flatMap (escaped mark) ++ mark :: rest =
      second.flatMap (escaped mark) ++ mark :: rest') : first = second ∧ rest = rest' := by
  induction first generalizing second with
  | nil =>
      cases second with
      | nil => exact ⟨rfl, (List.cons.inj same).2⟩
      | cons char second =>
          rw [List.flatMap_cons, List.append_assoc] at same
          exact absurd same.symm (escaped_append_ne marked char _ _)
  | cons char first ih =>
      rw [List.flatMap_cons, List.append_assoc] at same
      cases second with
      | nil => exact absurd same (escaped_append_ne marked char _ _)
      | cons char' second =>
          rw [List.flatMap_cons, List.append_assoc] at same
          obtain ⟨rfl, later⟩ := escaped_append_inj marked same
          obtain ⟨rfl, rests⟩ := ih later
          exact ⟨rfl, rests⟩

theorem quoted_append_inj {first second rest rest' : List Char}
    (same : quoted mark first ++ rest = quoted mark second ++ rest') :
    first = second ∧ rest = rest' := by
  unfold quoted at same
  rw [List.cons_append, List.cons_append, List.append_assoc, List.append_assoc] at same
  exact flatMap_escaped_append_inj marked (List.cons.inj same).2

end Marked

end ScriptCore.Text
