import Mathlib
import ScriptCore.Proofs.Number.FixedPlaces
import ScriptCore.Proofs.Primitive.Effects
import ScriptCore.Proofs.Primitive.Reading

set_option autoImplicit false

/-! A number made into a text on the heap, and this text read as a number. -/

namespace ScriptCore.Primitive

open Number Number.Reading

/-- A number is written into a new collection that spells the text, and a new cell holds what is
read from that collection. -/
def RoundTrip (heap : Heap) (number : Float) (text : List Char) (result : Float) : Prop :=
  ∃ address first elements after,
    Catalogue.standard.call "to_string" [.number number] heap = .ok address after ∧
      after.cell? address = some ⟨.collection first, none, 0⟩ ∧ after.Chain first elements ∧
        after.Spells elements text ∧ ∃ answer final,
          Catalogue.standard.call "to_numerical" [.collection first] after = .ok answer final ∧
            final.cell? answer = some ⟨.number result, none, 0⟩

theorem exists_roundTrip {heap : Heap} (listed : heap.FreeListed) (number : Float) :
    RoundTrip heap number (writeFixed 6 (.ofFloat number))
      (read (writeFixed 6 (.ofFloat number))).toFloat := by
  obtain ⟨first, elements, adds, found, chain, spells⟩ :=
    Heap.newText_spells listed (writeFixed 6 (.ofFloat number))
  exact ⟨_, first, elements, _, call_to_string heap number, found, chain, spells, _, _,
    answersWith_read chain spells, Heap.cell?_fresh (adds.works.freeListed listed)⟩

/-- A number with six binary places at most comes back from its text, and so do the infinities and
what is not a number. The text of any other number is read to its end as well, as the double
nearest to the decimal that is written, which has six places and is the nearest such decimal to
the number. The heap is any that calls can lead to (`History.freeListed`). -/
theorem number_survives_text {heap : Heap} (listed : heap.FreeListed) (number : Float) :
    ∃ result, RoundTrip heap number (writeFixed 6 (.ofFloat number)) result ∧
      ((∀ negative units, Binary64.ofFloat number = .finite negative units →
        ∃ whole : Nat, 64 * worth units = whole) → result = number) ∧
      ∀ negative units, Binary64.ofFloat number = .finite negative units →
        ∃ whole fraction magnitude,
          ReadWhole 6 negative units (writeFixed 6 (.ofFloat number)) whole fraction magnitude ∧
            Binary64.ofFloat result = if negative then magnitude.negate else magnitude := by
  refine ⟨_, exists_roundTrip listed number, ?_, ?_⟩
  · intro short
    rw [read_writeFixed_six (Binary64.isDouble_ofFloat number) short, Binary64.toFloat_ofFloat]
  · intro negative units finite
    obtain ⟨whole, fraction, magnitude, reads⟩ := exists_readWhole 6 negative units
    rw [finite, Binary64.ofFloat_toFloat (isDouble_read _)]
    exact ⟨whole, fraction, magnitude, reads, reads.read_eq⟩

/-- The smallest number with six binary places, in slots that were used before. -/
theorem number_survives_text_small :
    let heap := ((Heap.empty {}).newText ['x']).2.sweep.2
    let number := Float.ofBits 0x3f90000000000000
    heap.FreeListed ∧ heap.free = [⟨1⟩, ⟨0⟩] ∧
      RoundTrip heap number ['0', '.', '0', '1', '5', '6', '2', '5'] number := by
  intro heap number
  obtain ⟨_, adds⟩ := Heap.adds_newText (Heap.freeListed_empty {}) ['x']
  have listed : heap.FreeListed := (adds.works.freeListed (Heap.freeListed_empty {})).sweep
  have value : Binary64.ofFloat number = .finite false (twoTo 1068) := by decide +kernel
  have text : writeFixed 6 (.ofFloat number) = ['0', '.', '0', '1', '5', '6', '2', '5'] := by
    decide +kernel
  obtain ⟨result, trip, exact, _⟩ := number_survives_text listed number
  have same : result = number := by
    apply exact
    intro negative units finite
    rw [value, Binary64.finite.injEq] at finite
    have parts : Binary64.unitsPerOne = twoTo 1068 * twoTo 6 := twoTo_add 1068 6
    have last : twoTo 6 = 64 := rfl
    have some : (twoTo 1068 : ℚ) ≠ 0 := by exact_mod_cast (twoTo_pos 1068).ne'
    refine ⟨1, ?_⟩
    rw [← finite.2, worth, parts, last, Nat.cast_mul]
    generalize (twoTo 1068 : ℚ) = power at some
    field_simp
    norm_num
  rw [same, text] at trip
  exact ⟨listed, by decide +kernel, trip⟩

end ScriptCore.Primitive
