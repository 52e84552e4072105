set_option autoImplicit false

/-! Cutting a text at a UTF-8 byte offset. An offset that lies past the end or
inside a character cuts nothing, so a successful cut loses no character. -/

namespace ScriptCore.Text

/-- Bytes that a run of characters takes in UTF-8. -/
def byteLength : List Char → Nat
  | [] => 0
  | char :: rest => char.utf8Size + byteLength rest

/-- The characters before and after a byte offset, if a character ends there. -/
def cutAtByte? : Nat → List Char → Option (List Char × List Char)
  | 0, chars => some ([], chars)
  | _ + 1, [] => none
  | offset + 1, char :: rest =>
      if char.utf8Size ≤ offset + 1 then
        (cutAtByte? (offset + 1 - char.utf8Size) rest).map fun parts =>
          (char :: parts.1, parts.2)
      else
        none

theorem byteLength_cons (char : Char) (chars : List Char) :
    byteLength (char :: chars) = char.utf8Size + byteLength chars := rfl

theorem byteLength_append (first second : List Char) :
    byteLength (first ++ second) = byteLength first + byteLength second := by
  induction first with
  | nil => simp [byteLength]
  | cons char rest inductionHypothesis =>
      rw [List.cons_append, byteLength_cons, byteLength_cons, inductionHypothesis]
      omega

private theorem byteLength_eq_zero (chars : List Char) (none : byteLength chars = 0) :
    chars = [] := by
  cases chars with
  | nil => rfl
  | cons char rest =>
      have positive := char.utf8Size_pos
      rw [byteLength_cons] at none
      omega

/-- A cut at an offset splits the characters where that many bytes come before. -/
theorem cutAtByte?_eq_some_iff (chars before after : List Char) (offset : Nat) :
    cutAtByte? offset chars = some (before, after) ↔
      before ++ after = chars ∧ byteLength before = offset := by
  fun_induction cutAtByte? offset chars generalizing before after with
  | case1 chars =>
      simp only [Option.some.injEq, Prod.mk.injEq]
      constructor
      · rintro ⟨rfl, rfl⟩
        exact ⟨rfl, rfl⟩
      · rintro ⟨same, short⟩
        have nothing := byteLength_eq_zero before short
        subst nothing
        exact ⟨rfl, same.symm⟩
  | case2 offset =>
      simp only [reduceCtorEq, List.append_eq_nil_iff, false_iff, not_and]
      rintro ⟨rfl, rfl⟩
      simp [byteLength]
  | case3 offset char rest fits inductionHypothesis =>
      simp only [Option.map_eq_some_iff, Prod.mk.injEq]
      constructor
      · rintro ⟨⟨first, second⟩, cut, rfl, rfl⟩
        obtain ⟨joined, short⟩ := (inductionHypothesis first second).mp cut
        refine ⟨by simp [joined], ?_⟩
        simp only [byteLength_cons, short]
        omega
      · rintro ⟨joined, short⟩
        cases before with
        | nil => simp [byteLength] at short
        | cons first more =>
            simp only [List.cons_append, List.cons.injEq] at joined
            obtain ⟨rfl, joined⟩ := joined
            rw [byteLength_cons] at short
            exact ⟨(more, after),
              (inductionHypothesis more after).mpr ⟨joined, by omega⟩, rfl, rfl⟩
  | case4 offset char rest tooWide =>
      simp only [reduceCtorEq, false_iff, not_and]
      intro joined short
      cases before with
      | nil => simp [byteLength] at short
      | cons first more =>
          simp only [List.cons_append, List.cons.injEq] at joined
          obtain ⟨rfl, joined⟩ := joined
          rw [byteLength_cons] at short
          omega

end ScriptCore.Text
