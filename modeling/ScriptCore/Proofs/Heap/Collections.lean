import Mathlib.Data.List.Forall2
import ScriptCore.Proofs.Heap.Readers
import ScriptCore.Proofs.Primitive.Effects

set_option autoImplicit false

/-! Collections that are built and read back. The cells of a collection are taken from the last
element to the first, wherever the free slots happen to be, and are linked in the other direction;
a reader that follows the links finds the values in order. -/

namespace ScriptCore.Heap

/-! ### Reading -/

section Reading

variable {heap : Heap} {address : Address}

theorem characterIn_eq_ok_iff {char : Char} :
    heap.characterIn address = .ok char ↔ heap.value? address = some (.character char) := by
  unfold characterIn Heap.cell value?
  cases heap.cell? address with
  | none => simp [bind, Except.bind]
  | some cell =>
      cases holds : cell.value with
      | character other => simp [bind, Except.bind, holds]
      | null | number | collection | record => simp [bind, Except.bind, holds]

theorem characterIn_eq_error_iff {value : Value} (holds : heap.value? address = some value)
    {fault : Fault} : heap.characterIn address = .error fault ↔
      (∀ char, value ≠ .character char) ∧
        fault = .wrongKind "collection_to_string" .character value.kind := by
  obtain ⟨cell, found, rfl⟩ := Option.map_eq_some_iff.mp holds
  unfold characterIn Heap.cell
  rw [found]
  cases kind : cell.value with
  | character char => simp [bind, Except.bind, kind]
  | null | number | collection | record => simp [bind, Except.bind, kind, eq_comm]

variable {elements : List Address} (reads : heap.elements address = .ok elements)

include reads

theorem elementAt_eq_ok_iff {index : Nat} {element : Address} :
    heap.elementAt address index = .ok element ↔ elements[index]? = some element := by
  simp only [elementAt, reads, bind, Except.bind]
  cases elements[index]? <;> simp

theorem elementAt_eq_error {index : Nat} (behind : elements.length ≤ index) :
    heap.elementAt address index = .error (.outOfBounds index elements.length) := by
  simp only [elementAt, reads, bind, Except.bind, List.getElem?_eq_none behind]

theorem exists_value_of_mem {element : Address} (member : element ∈ elements) :
    ∃ value, heap.value? element = some value := by
  obtain ⟨_, _, _, _, chain⟩ := chain_of_elements reads
  obtain ⟨cell, found⟩ := chain.cell?_of_mem element member
  exact ⟨cell.value, value?_eq found⟩

theorem spelled_eq_mapM : heap.spelled address = elements.mapM heap.characterIn := by
  rw [spelled, reads]
  rfl

theorem spelled_eq_ok_iff {chars : List Char} : heap.spelled address = .ok chars ↔
    List.Forall₂ (fun element char => heap.value? element = some (.character char)) elements
      chars := by
  rw [spelled_eq_mapM reads, mapM_eq_ok_iff]
  simp only [characterIn_eq_ok_iff]

/-- A collection spells nothing because of its first element that is no character. -/
theorem spelled_eq_error_iff {fault : Fault} : heap.spelled address = .error fault ↔
    ∃ earlier element later value, elements = earlier ++ element :: later ∧
      (∀ other ∈ earlier, ∃ char, heap.value? other = some (.character char)) ∧
      heap.value? element = some value ∧ (∀ char, value ≠ .character char) ∧
        fault = .wrongKind "collection_to_string" .character value.kind := by
  rw [spelled_eq_mapM reads, mapM_eq_error_iff]
  simp only [characterIn_eq_ok_iff]
  constructor
  · rintro ⟨earlier, element, later, split, before, failed⟩
    obtain ⟨value, holds⟩ := exists_value_of_mem reads
      (split ▸ List.mem_append_right _ (List.mem_cons_self ..) : element ∈ elements)
    obtain ⟨other, kind⟩ := (characterIn_eq_error_iff holds).mp failed
    exact ⟨earlier, element, later, value, split, before, holds, other, kind⟩
  · rintro ⟨earlier, element, later, value, split, before, holds, other, kind⟩
    exact ⟨earlier, element, later, split, before,
      (characterIn_eq_error_iff holds).mpr ⟨other, kind⟩⟩

end Reading

/-! ### Building -/

theorem Hold.length_eq {heap : Heap} {addresses : List Address} {values : List Value}
    (hold : Hold heap addresses values) : addresses.length = values.length := by
  induction hold with
  | nil => rfl
  | cons _ _ ih => exact congrArg Nat.succ ih

theorem Hold.forall₂_characters {heap : Heap} {addresses : List Address} {chars : List Char}
    (hold : Hold heap addresses (chars.map Value.character)) :
    List.Forall₂ (fun element char => heap.value? element = some (.character char)) addresses
      chars := by
  induction chars generalizing addresses with
  | nil =>
      cases hold
      exact .nil
  | cons char chars ih =>
      cases hold with
      | cons found rest => exact .cons (value?_eq found) (ih rest)

/-- A heap after a collection of values was built on it: the head and the elements are distinct
new cells that nothing holds, the elements hold the values in order, and all else is as it was. -/
structure BuiltFrom (heap : Heap) (values : List Value) (head : Address) (elements : List Address)
    (after : Heap) : Prop where
  fresh : ∀ address ∈ head :: elements, heap.cell? address = none
  distinct : (head :: elements).Nodup
  size : elements.length = values.length
  live : ∃ first, after.cell? head = some ⟨.collection first, none, 0⟩
  reads : after.elements head = .ok elements
  holds : Hold after elements values
  kept : Grows heap after
  listed : after.FreeListed

theorem builtFrom_newCollection {heap : Heap} (listed : heap.FreeListed) (values : List Value) :
    ∃ elements, BuiltFrom heap values (heap.newCollection values).1 elements
      (heap.newCollection values).2 := by
  obtain ⟨first, elements, adds, found, chain, hold⟩ := newCollection_holds listed values
  -- The cells are taken in the opposite order, the head last.
  rw [← List.reverse_cons] at adds
  exact ⟨elements, {
    fresh := fun address member => (adds.fresh listed (List.mem_reverse.mpr member)).1
    distinct := List.nodup_reverse.mp (adds.nodup listed)
    size := hold.length_eq
    live := ⟨first, found⟩
    reads := (elements_eq found rfl).trans (chain_eq_ok_iff.mpr chain)
    holds := hold
    kept := adds.grows listed
    listed := adds.works.freeListed listed }⟩

theorem builtFrom_newText {heap : Heap} (listed : heap.FreeListed) (text : String) :
    ∃ elements, BuiltFrom heap (text.toList.map Value.character) (heap.newText text.toList).1 elements
      (heap.newText text.toList).2 := builtFrom_newCollection listed _

/-- Whatever slots are free, a collection that is built reads back as what it was built from, and
a text as itself. A collection spells a text when all its elements are characters, and otherwise
names the kind of the first that is not. -/
theorem collection_read_back (heap : Heap) :
    (heap.FreeListed → ∀ values, ∃ elements,
      BuiltFrom heap values (heap.newCollection values).1 elements (heap.newCollection values).2) ∧
    (heap.FreeListed → ∀ text : String,
      let head := (heap.newText text.toList).1
      let after := (heap.newText text.toList).2
      (after.spelled head).map String.ofList = .ok text ∧
        (after.elements head).map List.length = .ok text.length ∧
        ∀ index, (∃ element, after.elementAt head index = .ok element) ↔ index < text.length) ∧
    ∀ head elements, heap.elements head = .ok elements →
      (∀ index element,
        heap.elementAt head index = .ok element ↔ elements[index]? = some element) ∧
      (∀ index, elements.length ≤ index →
        heap.elementAt head index = .error (.outOfBounds index elements.length)) ∧
      (∀ chars, heap.spelled head = .ok chars ↔
        List.Forall₂ (fun element char => heap.value? element = some (.character char)) elements
          chars) ∧
      ∀ fault, heap.spelled head = .error fault ↔
        ∃ earlier element later value, elements = earlier ++ element :: later ∧
          (∀ other ∈ earlier, ∃ char, heap.value? other = some (.character char)) ∧
          heap.value? element = some value ∧ (∀ char, value ≠ .character char) ∧
            fault = .wrongKind "collection_to_string" .character value.kind := by
  refine ⟨builtFrom_newCollection, fun listed text => ?_, fun head elements reads =>
    ⟨fun _ _ => elementAt_eq_ok_iff reads, fun _ => elementAt_eq_error reads,
      fun _ => spelled_eq_ok_iff reads, fun _ => spelled_eq_error_iff reads⟩⟩
  intro head after
  obtain ⟨elements, built⟩ := builtFrom_newText listed text
  have reads : after.elements head = .ok elements := built.reads
  have spells : after.spelled head = .ok text.toList :=
    (spelled_eq_ok_iff reads).mpr built.holds.forall₂_characters
  have size : elements.length = text.length := by
    rw [built.size, List.length_map, String.length_toList]
  refine ⟨?_, ?_, fun index => ?_⟩
  · rw [spells, Except.map, String.ofList_toList]
  · rw [reads, Except.map, size]
  · simp only [elementAt_eq_ok_iff reads, ← size]
    exact ⟨fun ⟨_, found⟩ => (List.getElem?_eq_some_iff.mp found).1,
      fun inside => ⟨_, List.getElem?_eq_getElem inside⟩⟩

/-- The cells of a collection go into two free slots around a live one and into a new slot; its
second element is what it cannot spell. -/
theorem collection_read_back_reused :
    let heap := (((Heap.empty {}).newCollection [.null, .null]).2.modifyCell ⟨1⟩
      fun cell => { cell with references := 1 }).sweep.2
    let head := (heap.newCollection [.character 'a', .null]).1
    let after := (heap.newCollection [.character 'a', .null]).2
    let text := heap.newText "ab".toList
    heap.FreeListed ∧ heap.free = [⟨2⟩, ⟨0⟩] ∧ head = ⟨3⟩ ∧
      (∃ elements, BuiltFrom heap [.character 'a', .null] head elements after) ∧
      after.spelled head = .error (.wrongKind "collection_to_string" .character .null) ∧
      (text.2.spelled text.1).map String.ofList = .ok "ab" := by
  intro heap head after text
  obtain ⟨_, adds, _⟩ := adds_newCollection (freeListed_empty {}) [.null, .null]
  have listed : heap.FreeListed :=
    ((adds.works.freeListed (freeListed_empty {})).modifyCell ⟨1⟩ _).sweep
  obtain ⟨builds, reads, _⟩ := collection_read_back heap
  obtain ⟨elements, built⟩ := builds listed [.character 'a', .null]
  refine ⟨listed, by decide +kernel, by decide +kernel, ⟨elements, built⟩, ?_,
    (reads listed "ab").1⟩
  obtain ⟨_, _, _, fails⟩ := (collection_read_back after).2.2 head elements built.reads
  have holds := built.holds
  cases holds with
  | @cons first _ _ _ _ found rest =>
      cases rest with
      | @cons second _ _ _ _ found' rest =>
          cases rest
          refine (fails _).mpr ⟨[first], second, [], .null, rfl, ?_, value?_eq found', nofun, rfl⟩
          exact List.forall_mem_singleton.mpr ⟨'a', value?_eq found⟩

end ScriptCore.Heap
