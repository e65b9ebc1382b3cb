import LoxCalc.Source.Cursor
import Mathlib.Data.String.Basic

/-!
Contract: places in characters and byte offsets address the same text.

Owns:
- `getElem?_indexed`, what stands at a place of a text;
- `byteOffset_eq`, that the byte offset of a place is the size of the text in front of it;
- `ExactSlice` with `exactSlice`, that cutting at byte offsets takes the characters between
  the places.

Does **not** own: which places a scan cuts at.
-/

set_option autoImplicit false

namespace LoxCalc

/-! ## Places -/

theorem length_indexed (text : List Char) :
    ∀ offset : Nat, (indexed offset text).length = text.length := by
  induction text with
  | nil =>
      intro offset
      rfl
  | cons c rest inductionHypothesis =>
      intro offset
      rw [indexed, List.length_cons, List.length_cons, inductionHypothesis]

/-- At a place stands the character there, with the size of the characters in front of it. -/
theorem getElem?_indexed (text : List Char) :
    ∀ offset place : Nat, (indexed offset text)[place]? =
      text[place]?.map fun c => (offset + String.utf8Len (text.take place), c) := by
  induction text with
  | nil =>
      intro offset place
      rfl
  | cons c rest inductionHypothesis =>
      intro offset place
      cases place with
      | zero => rfl
      | succ place =>
          rw [indexed, List.getElem?_cons_succ, List.getElem?_cons_succ, inductionHypothesis,
            List.take_succ_cons, String.utf8Len_cons, Nat.add_assoc,
            Nat.add_comm c.utf8Size]

theorem charAt_eq (source : String) (place : Nat) :
    Cursor.charAt source place = (source.toList[place]?).getD '\x00' := by
  rw [Cursor.charAt, getElem?_indexed]
  cases source.toList[place]? <;> rfl

/-- The byte offset of a place is the size of the text in front of it. -/
theorem byteOffset_eq (source : String) (place : Nat) :
    byteOffset source place = String.utf8Len (source.toList.take place) := by
  rw [byteOffset, getElem?_indexed]
  cases found : source.toList[place]? with
  | some c => exact Nat.zero_add _
  | none =>
      rw [List.take_of_length_le (List.getElem?_eq_none_iff.mp found),
        ← String.utf8ByteSize_ofList, String.ofList_toList]
      rfl

/-! ## Stretches of text -/

/-- Two places of a text are in order, and what is cut out between their byte offsets are the
characters between them, whatever the sizes of characters. -/
structure ExactSlice (source : String) (first last : Nat) : Prop where
  ordered : first ≤ last
  inside : last ≤ source.length
  bytesOrdered : byteOffset source first ≤ byteOffset source last
  startsCharacter : String.Pos.Raw.IsValid source ⟨byteOffset source first⟩
  endsCharacter : String.Pos.Raw.IsValid source ⟨byteOffset source last⟩
  bytes : source.toByteArray.extract (byteOffset source first) (byteOffset source last) =
    (String.ofList (source.toList.extract first last)).toByteArray
  cut : byteSlice? source (byteOffset source first) (byteOffset source last) =
    some (String.ofList (source.toList.extract first last))

/-- The byte offset of every place stands where characters meet. -/
theorem isValid_byteOffset (source : String) (place : Nat) :
    String.Pos.Raw.IsValid source ⟨byteOffset source place⟩ := by
  refine String.Pos.Raw.isValid_iff_exists_append.mpr
    ⟨String.ofList (source.toList.take place), String.ofList (source.toList.drop place), ?_, ?_⟩
  · rw [← String.ofList_append, List.take_append_drop, String.ofList_toList]
  · rw [byteOffset_eq, ← String.utf8ByteSize_ofList]
    rfl

/-- A text as what stands in front of two places, between them and behind them, and the byte
offsets as sizes of these parts. -/
theorem exists_parts (source : String) {first last : Nat} (ordered : first ≤ last) :
    ∃ front behind, source = String.ofList (front ++ source.toList.extract first last ++ behind) ∧
      byteOffset source first = String.utf8Len front ∧
      byteOffset source last =
        String.utf8Len front + String.utf8Len (source.toList.extract first last) := by
  have upTo : source.toList.take last =
      source.toList.take first ++ source.toList.extract first last := by
    rw [List.extract_eq_take_drop, List.take_drop, Nat.add_sub_cancel' ordered]
    conv_lhs => rw [← List.take_append_drop first (source.toList.take last)]
    rw [List.take_take, Nat.min_eq_left ordered]
  refine ⟨source.toList.take first, source.toList.drop last, ?_, byteOffset_eq source first, ?_⟩
  · rw [← upTo, List.take_append_drop, String.ofList_toList]
  · rw [byteOffset_eq, upTo, String.utf8Len_append]

theorem extract_between (front body behind : String) :
    (front ++ (body ++ behind)).toByteArray.extract front.utf8ByteSize
      (front.utf8ByteSize + body.utf8ByteSize) = body.toByteArray := by
  have fromFront := ByteArray.extract_append_size_add (a := front.toByteArray)
    (b := body.toByteArray ++ behind.toByteArray) (i := 0) (j := body.utf8ByteSize)
  rw [String.size_toByteArray, Nat.add_zero,
    ByteArray.extract_append_eq_left String.size_toByteArray.symm] at fromFront
  rw [String.toByteArray_append, String.toByteArray_append, fromFront]

/-- Any two places that are in order and inside a text can be cut at. -/
theorem exactSlice {source : String} {first last : Nat} (ordered : first ≤ last)
    (inside : last ≤ source.length) : ExactSlice source first last := by
  obtain ⟨front, behind, whole, firstOffset, lastOffset⟩ := exists_parts source ordered
  have bytesOrdered : byteOffset source first ≤ byteOffset source last := by
    rw [firstOffset, lastOffset]
    exact Nat.le_add_right _ _
  have startsCharacter := isValid_byteOffset source first
  have endsCharacter := isValid_byteOffset source last
  refine ⟨ordered, inside, bytesOrdered, startsCharacter, endsCharacter, ?_, ?_⟩
  · generalize source.toList.extract first last = body at *
    rw [firstOffset, lastOffset, whole, List.append_assoc, String.ofList_append,
      String.ofList_append, ← String.utf8ByteSize_ofList, ← String.utf8ByteSize_ofList]
    exact extract_between _ _ _
  · rw [byteSlice?, if_pos ⟨bytesOrdered, startsCharacter, endsCharacter⟩, firstOffset, lastOffset]
    generalize source.toList.extract first last = body at *
    rw [whole, String.extract_of_valid]

example : byteSlice? "aé" 0 3 = some "aé" ∧ byteSlice? "aé" 0 2 = none ∧
    byteSlice? "aé" 1 0 = none := by
  decide

end LoxCalc
