import Mathlib
import ScriptCore.Proofs.Number.Beginnings
import ScriptCore.Proofs.Primitive.Texts

set_option autoImplicit false

/-! The number that a collection of characters begins with: the longest beginning that is a
number, read without regard to anything behind it. -/

namespace ScriptCore.Primitive

open Number Number.Reading

/-- The call answers with a new cell that holds this number. -/
def AnswersWith (heap : Heap) (first : Option Address) (number : Float) : Prop :=
  Catalogue.standard.call "to_numerical" [.collection first] heap =
    .ok (heap.allocate (.number number) none).1 (heap.allocate (.number number) none).2

/-- No offset in bytes at which a text is cut lies inside a character: not the one behind the
sign, nor one up to the end of what is read. For the words, looking so many bytes ahead is
looking so many characters ahead. -/
structure CutBetweenCharacters (sign unsigned : List Char) : Prop where
  sign : Text.cutAtByte? sign.length (sign ++ unsigned) = some (sign, unsigned)
  words : ∀ word, word ∈ [['i', 'n', 'f'], ['n', 'a', 'n']] →
    startsWithWord word unsigned =
      (Text.cutAtByte? word.length unsigned).any fun parts => parts.1.map Char.toLower == word
  chosen : ∀ chosen magnitude, Selected unsigned chosen magnitude →
    ∀ offset, offset ≤ chosen.length →
      Text.cutAtByte? offset unsigned = some (unsigned.take offset, unsigned.drop offset)

theorem cutBetweenCharacters {text blanks sign unsigned : List Char} {negative : Bool}
    (parted : Parted text blanks sign unsigned negative) :
    CutBetweenCharacters sign unsigned where
  sign := parted.cutAtByte?_sign
  words := by
    intro word member
    apply startsWithWord_eq_cutAtByte?
    rcases List.mem_cons.mp member with rfl | last
    · rfl
    · rw [List.mem_singleton.mp last]
      rfl
  chosen := fun _ _ selected _ inside => selected.narrow.cutAtByte? selected.begins inside

section Answers

variable {heap : Heap} {first : Option Address} {elements : List Address} {text : List Char}
  (chain : heap.Chain first elements)

include chain

theorem answersWith_read (spells : heap.Spells elements text) :
    AnswersWith heap first (read text).toFloat := by
  have answered := numberOfText_of_chain_ok (Heap.chain_eq_ok_iff.mpr chain)
  rw [Heap.leadingText_eq spells] at answered
  exact answered

/-- A collection is read as the number that its leading characters begin with: behind blanks and
a sign one of the words, or the longest hexadecimal or decimal numeral, and zero if there is
none. Every other collection in which the same beginning is found behind the same blanks and the
same sign is read as the same number. -/
theorem to_numerical_reads_longest : ∃ text number,
    heap.Spells elements text ∧ AnswersWith heap first number ∧ Reads text (.ofFloat number) ∧
      ∀ blanks sign unsigned negative, Parted text blanks sign unsigned negative →
        CutBetweenCharacters sign unsigned ∧
          ∀ chosen magnitude, Selected unsigned chosen magnitude →
            ∀ (heap' : Heap) first' elements' rest other, heap'.Chain first' elements' →
              heap'.Spells elements' (blanks ++ (sign ++ (chosen ++ rest))) →
              Selected (chosen ++ rest) chosen other → AnswersWith heap' first' number := by
  obtain ⟨text, spells⟩ := Heap.exists_spells chain
  refine ⟨text, (read text).toFloat, spells, answersWith_read chain spells, ?_, ?_⟩
  · rw [Binary64.ofFloat_toFloat (isDouble_read text)]
    exact reads_iff.mpr rfl
  · intro blanks sign unsigned negative parted
    refine ⟨cutBetweenCharacters parted, ?_⟩
    intro chosen magnitude selected heap' first' elements' rest other chain' spells' selected'
    rw [← parted.read_append selected selected']
    exact answersWith_read chain' spells'

end Answers

/-- Behind the number stands a character of two bytes. -/
theorem to_numerical_reads_longest_text :
    let heap := ((Heap.empty {}).newText ['-', '1', '.', '5', 'e', 'é']).2
    let elements : List Address := [⟨5⟩, ⟨4⟩, ⟨3⟩, ⟨2⟩, ⟨1⟩, ⟨0⟩]
    heap.Chain (some ⟨5⟩) elements ∧
      ∃ number, AnswersWith heap (some ⟨5⟩) number ∧
        Binary64.ofFloat number = .finite true (3 * twoTo 1073) := by
  intro heap elements
  have walked : (heap.chain (some ⟨5⟩)).toOption = some elements := by decide +kernel
  have chain : heap.Chain (some ⟨5⟩) elements := by
    cases found : heap.chain (some ⟨5⟩) with
    | error fault =>
        rw [found] at walked
        cases walked
    | ok others =>
        rw [found] at walked
        cases walked
        exact Heap.chain_eq_ok_iff.mp found
  obtain ⟨text, number, spells, answers, reads, _⟩ := to_numerical_reads_longest chain
  have same : leadingText heap elements = ['-', '1', '.', '5', 'e', 'é'] := by decide +kernel
  rw [Heap.leadingText_eq spells] at same
  rw [same] at reads
  have value : read ['-', '1', '.', '5', 'e', 'é'] = .finite true (3 * twoTo 1073) := by
    decide +kernel
  exact ⟨chain, number, answers, (reads_iff.mp reads).trans value⟩

end ScriptCore.Primitive
