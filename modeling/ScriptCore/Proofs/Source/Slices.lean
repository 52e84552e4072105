import ScriptCore.Source.Span

set_option autoImplicit false

/-! The slice of a source text that a span covers, byte by byte. Characters take one to four
bytes, and a slice is there exactly if both ends of the span stand between characters. -/

namespace ScriptCore

namespace Text

theorem byteLength_eq (chars : List Char) :
    byteLength chars = (String.ofList chars).utf8ByteSize := by
  induction chars with
  | nil => rfl
  | cons char rest ih =>
      rw [byteLength_cons, ih, ← List.singleton_append, String.ofList_append,
        String.utf8ByteSize_append, ← String.singleton_eq_ofList, String.utf8ByteSize_singleton]

/-! ### Beginnings of a text -/

/-- Of two beginnings of a text, the one with fewer bytes begins the other one. -/
theorem exists_between {before after before' after' : String}
    (same : before ++ after = before' ++ after')
    (fewer : before.utf8ByteSize ≤ before'.utf8ByteSize) :
    ∃ between, before' = before ++ between := by
  have chars := congrArg String.toList same
  rw [String.toList_append, String.toList_append] at chars
  rcases List.append_eq_append_iff.mp chars with ⟨between, longer, _⟩ | ⟨between, longer, _⟩
  · refine ⟨String.ofList between, String.toList_inj.mp ?_⟩
    rw [String.toList_append, String.toList_ofList, longer]
  · have joined : before = before' ++ String.ofList between := by
      apply String.toList_inj.mp
      rw [String.toList_append, String.toList_ofList, longer]
    have size := congrArg String.utf8ByteSize joined
    rw [String.utf8ByteSize_append] at size
    have nothing : String.ofList between = "" := String.utf8ByteSize_eq_zero_iff.mp (by omega)
    refine ⟨"", ?_⟩
    rw [joined, nothing, String.append_empty, String.append_empty]

/-- A beginning of a text is known by its number of bytes. -/
theorem beginning_unique {before after before' after' : String}
    (same : before ++ after = before' ++ after')
    (size : before.utf8ByteSize = before'.utf8ByteSize) : before = before' := by
  obtain ⟨between, longer⟩ := exists_between same (Nat.le_of_eq size)
  have total := congrArg String.utf8ByteSize longer
  rw [String.utf8ByteSize_append] at total
  have nothing : between = "" := String.utf8ByteSize_eq_zero_iff.mp (by omega)
  rw [longer, nothing, String.append_empty]

end Text

namespace Span

/-! ### Slices -/

/-- The span is not turned around and ends within the source, and no character of the source
reaches over either end. -/
structure Fits (span : Span) (source : String) : Prop where
  ordered : span.start ≤ span.stop
  within : span.stop.toNat ≤ source.utf8ByteSize
  startBoundary : String.Pos.Raw.IsValid source ⟨span.start.toNat⟩
  stopBoundary : String.Pos.Raw.IsValid source ⟨span.stop.toNat⟩

/-- The text stands in the source where the span says, and has as many bytes as the span. -/
structure Covers (span : Span) (source text : String) : Prop where
  ordered : span.start ≤ span.stop
  parts : ∃ before after, before ++ text ++ after = source ∧
    before.utf8ByteSize = span.start.toNat ∧ text.utf8ByteSize = span.length

variable {span : Span} {source text : String}

theorem text?_eq_some_iff : span.text? source = some text ↔ span.Covers source text := by
  unfold text?
  by_cases ordered : span.start ≤ span.stop
  · rw [if_pos ordered]
    constructor
    · intro found
      obtain ⟨⟨before, rest⟩, first, found⟩ := Option.bind_eq_some_iff.mp found
      obtain ⟨⟨covered, after⟩, second, same⟩ := Option.bind_eq_some_iff.mp found
      obtain ⟨joined, bytesBefore⟩ := (Text.cutAtByte?_eq_some_iff ..).mp first
      obtain ⟨joinedRest, bytes⟩ := (Text.cutAtByte?_eq_some_iff ..).mp second
      cases same
      refine ⟨ordered, String.ofList before, String.ofList after, ?_, ?_, ?_⟩
      · rw [← String.ofList_append, ← String.ofList_append, List.append_assoc, joinedRest, joined,
          String.ofList_toList]
      · rw [← Text.byteLength_eq, bytesBefore]
      · rw [← Text.byteLength_eq, bytes]
    · rintro ⟨_, before, after, rfl, bytesBefore, bytes⟩
      have first : Text.cutAtByte? span.start.toNat (before ++ text ++ after).toList =
          some (before.toList, text.toList ++ after.toList) := by
        rw [Text.cutAtByte?_eq_some_iff, Text.byteLength_eq, String.ofList_toList,
          String.toList_append, String.toList_append, List.append_assoc]
        exact ⟨rfl, bytesBefore⟩
      have second : Text.cutAtByte? span.length (text.toList ++ after.toList) =
          some (text.toList, after.toList) := by
        rw [Text.cutAtByte?_eq_some_iff, Text.byteLength_eq, String.ofList_toList]
        exact ⟨rfl, bytes⟩
      simp only [first, second, bind, Option.bind, String.ofList_toList]
  · rw [if_neg ordered]
    constructor
    · intro impossible
      cases impossible
    · intro covers
      exact absurd covers.ordered ordered

namespace Covers

variable (covers : span.Covers source text)

include covers

/-- Where the span stops, counted from the start of the source. -/
theorem exists_parts : ∃ before after, before ++ text ++ after = source ∧
    before.utf8ByteSize = span.start.toNat ∧ (before ++ text).utf8ByteSize = span.stop.toNat := by
  obtain ⟨before, after, joined, bytesBefore, bytes⟩ := covers.parts
  have ordered := UInt32.le_iff_toNat_le.mp covers.ordered
  refine ⟨before, after, joined, bytesBefore, ?_⟩
  rw [String.utf8ByteSize_append, bytesBefore, bytes, length]
  omega

theorem fits : span.Fits source := by
  obtain ⟨before, after, rfl, bytesBefore, bytes⟩ := covers.exists_parts
  refine ⟨covers.ordered, ?_, ?_, ?_⟩
  · rw [String.utf8ByteSize_append, ← bytes]
    omega
  · rw [String.Pos.Raw.isValid_iff_exists_append]
    exact ⟨before, text ++ after, String.append_assoc, congrArg String.Pos.Raw.mk bytesBefore.symm⟩
  · rw [String.Pos.Raw.isValid_iff_exists_append]
    exact ⟨before ++ text, after, rfl, congrArg String.Pos.Raw.mk bytes.symm⟩

/-- The bytes of the text are those of the source from one end of the span to the other. -/
theorem toByteArray_eq :
    text.toByteArray = source.toByteArray.extract span.start.toNat span.stop.toNat := by
  obtain ⟨before, after, rfl, bytesBefore, bytes⟩ := covers.exists_parts
  rw [String.utf8ByteSize_append] at bytes
  have window : (before.toByteArray ++ (text ++ after).toByteArray).extract
      (before.toByteArray.size + 0) (before.toByteArray.size + text.toByteArray.size) =
        text.toByteArray := by
    rw [ByteArray.extract_append_size_add, String.toByteArray_append,
      ByteArray.extract_append_eq_left rfl]
  rw [String.append_assoc, String.toByteArray_append, ← bytesBefore, ← bytes]
  exact window.symm

/-- What a span covers holds what is covered by a span within it, as many bytes from its start as
the two spans start apart. -/
theorem within {inner : Span} {part : String} (inside : inner.Covers source part)
    (start : span.start ≤ inner.start) (stop : inner.stop ≤ span.stop) :
    ∃ before after, before ++ part ++ after = text ∧
      span.start.toNat + before.utf8ByteSize = inner.start.toNat := by
  obtain ⟨before, after, joined, bytesBefore, bytes⟩ := covers.exists_parts
  obtain ⟨before', after', joined', bytesBefore', bytes'⟩ := inside.exists_parts
  rw [UInt32.le_iff_toNat_le] at start stop
  have sameStart : before ++ (text ++ after) = before' ++ (part ++ after') := by
    rw [← String.append_assoc, ← String.append_assoc, joined, joined']
  have sameStop : (before' ++ part) ++ after' = (before ++ text) ++ after := joined'.trans joined.symm
  obtain ⟨leading, rfl⟩ := Text.exists_between sameStart (by omega)
  obtain ⟨trailing, longer⟩ := Text.exists_between sameStop (by omega)
  refine ⟨leading, trailing, ?_, ?_⟩
  · rw [String.append_assoc, String.append_assoc, String.append_right_inj] at longer
    rw [longer, String.append_assoc]
  · rw [← bytesBefore, ← bytesBefore', String.utf8ByteSize_append]

end Covers

namespace Fits

theorem exists_covers (fits : span.Fits source) : ∃ text, span.Covers source text := by
  obtain ⟨before, rest, split, start⟩ := String.Pos.Raw.isValid_iff_exists_append.mp
    fits.startBoundary
  obtain ⟨longer, after, split', stop⟩ := String.Pos.Raw.isValid_iff_exists_append.mp
    fits.stopBoundary
  have bytesBefore : before.utf8ByteSize = span.start.toNat :=
    (congrArg String.Pos.Raw.byteIdx start).symm
  have bytes : longer.utf8ByteSize = span.stop.toNat := (congrArg String.Pos.Raw.byteIdx stop).symm
  have ordered := UInt32.le_iff_toNat_le.mp fits.ordered
  obtain ⟨text, rfl⟩ := Text.exists_between (split.symm.trans split') (by omega)
  rw [String.utf8ByteSize_append] at bytes
  exact ⟨text, fits.ordered, before, after, split'.symm, bytesBefore, by rw [length]; omega⟩

end Fits

/-! ### Spans that are merged -/

theorem toNat_start_merge (first second : Span) :
    (first.merge second).start.toNat = min first.start.toNat second.start.toNat := by
  change (if first.start ≤ second.start then first.start else second.start).toNat = _
  by_cases earlier : first.start ≤ second.start
  · rw [if_pos earlier]
    exact (Nat.min_eq_left (UInt32.le_iff_toNat_le.mp earlier)).symm
  · rw [if_neg earlier]
    rw [UInt32.le_iff_toNat_le] at earlier
    omega

theorem toNat_stop_merge (first second : Span) :
    (first.merge second).stop.toNat = max first.stop.toNat second.stop.toNat := by
  change (if first.stop ≤ second.stop then second.stop else first.stop).toNat = _
  by_cases earlier : first.stop ≤ second.stop
  · rw [if_pos earlier]
    exact (Nat.max_eq_right (UInt32.le_iff_toNat_le.mp earlier)).symm
  · rw [if_neg earlier]
    rw [UInt32.le_iff_toNat_le] at earlier
    omega

section Merged

variable {first second : Span} {x y : String}

theorem Fits.merge (fits : first.Fits source) (fits' : second.Fits source) :
    (first.merge second).Fits source := by
  have start := toNat_start_merge first second
  have stop := toNat_stop_merge first second
  have ordered := UInt32.le_iff_toNat_le.mp fits.ordered
  have within := fits.within
  have within' := fits'.within
  refine ⟨?_, ?_, ?_, ?_⟩
  · rw [UInt32.le_iff_toNat_le]
    omega
  · omega
  · rw [start]
    rcases Nat.le_total first.start.toNat second.start.toNat with earlier | later
    · rw [Nat.min_eq_left earlier]
      exact fits.startBoundary
    · rw [Nat.min_eq_right later]
      exact fits'.startBoundary
  · rw [stop]
    rcases Nat.le_total first.stop.toNat second.stop.toNat with earlier | later
    · rw [Nat.max_eq_right earlier]
      exact fits'.stopBoundary
    · rw [Nat.max_eq_left later]
      exact fits.stopBoundary

variable (covers : first.Covers source x) (covers' : second.Covers source y)

include covers covers'

theorem Covers.merge_adjacent (adjacent : first.stop = second.start) :
    (first.merge second).Covers source (x ++ y) := by
  obtain ⟨before, after, joined, bytesBefore, bytes⟩ := covers.exists_parts
  obtain ⟨before', after', joined', bytesBefore', bytes'⟩ := covers'.exists_parts
  have meet := congrArg UInt32.toNat adjacent
  have same : before ++ x = before' := by
    apply Text.beginning_unique (joined.trans (joined'.symm.trans String.append_assoc))
    rw [bytes, bytesBefore', meet]
  subst same
  have ordered := UInt32.le_iff_toNat_le.mp covers.ordered
  have ordered' := UInt32.le_iff_toNat_le.mp covers'.ordered
  have start := toNat_start_merge first second
  have stop := toNat_stop_merge first second
  rw [String.utf8ByteSize_append] at bytes bytes'
  refine ⟨(covers.fits.merge covers'.fits).ordered, before, after', ?_, ?_, ?_⟩
  · rw [← String.append_assoc, joined']
  · rw [bytesBefore, start]
    omega
  · rw [String.utf8ByteSize_append, length, start, stop]
    omega

theorem Covers.merge : ∃ merged, (first.merge second).Covers source merged ∧
    (∃ before after, before ++ x ++ after = merged ∧
      (first.merge second).start.toNat + before.utf8ByteSize = first.start.toNat) ∧
    ∃ before after, before ++ y ++ after = merged ∧
      (first.merge second).start.toNat + before.utf8ByteSize = second.start.toNat := by
  obtain ⟨merged, outer⟩ := (covers.fits.merge covers'.fits).exists_covers
  have start := toNat_start_merge first second
  have stop := toNat_stop_merge first second
  refine ⟨merged, outer, outer.within covers ?_ ?_, outer.within covers' ?_ ?_⟩
  all_goals
    rw [UInt32.le_iff_toNat_le]
    omega

end Merged

/-! ### All slices of a source -/

/-- A span has a text exactly if it fits the source, and the text is then made of the bytes of the
source between both ends. Where one span stops and the next one starts, their texts are joined in
the text of the merged span; and whenever two spans have a text, so has the merged one, with both
texts in their places. -/
theorem text_exact (source : String) :
    (∀ span : Span, ((∃ text, span.text? source = some text) ↔ span.Fits source) ∧
      ∀ text, span.text? source = some text →
        text.toByteArray = source.toByteArray.extract span.start.toNat span.stop.toNat ∧
        ∃ before after, before ++ text ++ after = source ∧
          before.utf8ByteSize = span.start.toNat ∧ text.utf8ByteSize = span.length) ∧
    ∀ (first second : Span) x y, first.text? source = some x → second.text? source = some y →
      (first.stop = second.start → (first.merge second).text? source = some (x ++ y)) ∧
      ∃ merged, (first.merge second).text? source = some merged ∧
        (∃ before after, before ++ x ++ after = merged ∧
          (first.merge second).start.toNat + before.utf8ByteSize = first.start.toNat) ∧
        ∃ before after, before ++ y ++ after = merged ∧
          (first.merge second).start.toNat + before.utf8ByteSize = second.start.toNat := by
  constructor
  · intro span
    constructor
    · constructor
      · rintro ⟨text, found⟩
        exact (text?_eq_some_iff.mp found).fits
      · intro fits
        obtain ⟨text, covers⟩ := fits.exists_covers
        exact ⟨text, text?_eq_some_iff.mpr covers⟩
    · intro text found
      have covers := text?_eq_some_iff.mp found
      exact ⟨covers.toByteArray_eq, covers.parts⟩
  · intro first second x y found found'
    have covers := text?_eq_some_iff.mp found
    have covers' := text?_eq_some_iff.mp found'
    constructor
    · intro adjacent
      exact text?_eq_some_iff.mpr (covers.merge_adjacent covers' adjacent)
    · obtain ⟨merged, outer, both⟩ := covers.merge covers'
      exact ⟨merged, text?_eq_some_iff.mpr outer, both⟩

/-- Characters of two, three and four bytes; a span into the middle of one has no text, and two
spans that meet behind it share their texts with the merged span. -/
theorem text_exact_wide : ¬ (⟨1, 2⟩ : Span).Fits "aé漢😀" ∧
    (⟨1, 3⟩ : Span).text? "aé漢😀" = some "é" ∧ (⟨3, 10⟩ : Span).text? "aé漢😀" = some "漢😀" ∧
    (⟨1, 10⟩ : Span).text? "aé漢😀" = some "é漢😀" := by
  obtain ⟨slices, merges⟩ := text_exact "aé漢😀"
  have first : (⟨1, 3⟩ : Span).text? "aé漢😀" = some "é" := by decide +kernel
  have second : (⟨3, 10⟩ : Span).text? "aé漢😀" = some "漢😀" := by decide +kernel
  have cut : (⟨1, 2⟩ : Span).text? "aé漢😀" = none := by decide +kernel
  refine ⟨?_, first, second, (merges _ _ _ _ first second).1 rfl⟩
  intro fits
  obtain ⟨text, found⟩ := (slices ⟨1, 2⟩).1.mpr fits
  rw [cut] at found
  cases found

end Span
end ScriptCore
