import Mathlib

/-!
# Positional writes

What a file holds after `pwrite`: the written bytes at their offset, the old bytes
elsewhere, zeros in a gap between the old end and the offset. A write of no bytes has no
effect. A buffer that is padded and then overwritten holds the same, except that a write
of no bytes past the end leaves the padding.
-/

namespace EventFs.Library

variable {α : Type} [Zero α]

/-- The byte at a position after a write. -/
def byteAfter (content : List α) (offset : Nat) (data : List α) (i : Nat) : α :=
  if offset ≤ i ∧ i < offset + data.length then data.getD (i - offset) 0 else content.getD i 0

def pwrite [DecidableEq α] (content : List α) (offset : Nat) (data : List α) : List α :=
  if data = [] then content
  else (List.range (max content.length (offset + data.length))).map
    (byteAfter content offset data)

/-- The old bytes up to a length that is not smaller, then zeros. -/
def zeroPadded (length : Nat) (bytes : List α) : List α :=
  bytes ++ List.replicate (length - bytes.length) 0

theorem length_zeroPadded (length : Nat) (bytes : List α) :
    (zeroPadded length bytes).length = max bytes.length length := by
  rw [zeroPadded, List.length_append, List.length_replicate]
  omega

theorem getD_zeroPadded (length : Nat) (bytes : List α) (i : Nat) :
    (zeroPadded length bytes).getD i 0 = bytes.getD i 0 := by
  rw [zeroPadded]
  by_cases h : i < bytes.length
  · exact List.getD_append _ _ _ _ h
  · have hEnd : bytes.length ≤ i := Nat.not_lt.mp h
    rw [List.getD_append_right _ _ _ _ hEnd, List.getD_eq_default bytes 0 hEnd]
    by_cases hGap : i - bytes.length < length - bytes.length
    · exact List.getD_replicate 0 hGap
    · exact List.getD_eq_default _ _ (by simpa using hGap)

/-- The bytes from `offset` on replaced by `data`. -/
def splice (bytes : List α) (offset : Nat) (data : List α) : List α :=
  bytes.take offset ++ data ++ bytes.drop (offset + data.length)

omit [Zero α] in
theorem length_splice {bytes data : List α} {offset : Nat}
    (h : offset + data.length ≤ bytes.length) :
    (splice bytes offset data).length = bytes.length := by
  simp only [splice, List.length_append, List.length_take, List.length_drop]
  omega

theorem getD_splice {bytes data : List α} {offset : Nat}
    (h : offset + data.length ≤ bytes.length) (i : Nat) :
    (splice bytes offset data).getD i 0 = byteAfter bytes offset data i := by
  have hTake : (bytes.take offset).length = offset := List.length_take_of_le (by omega)
  have hFront : (bytes.take offset ++ data).length = offset + data.length := by
    rw [List.length_append, hTake]
  rw [splice, byteAfter]
  by_cases hBefore : i < offset
  · rw [if_neg (by omega), List.getD_append _ _ _ _ (by omega), List.getD_append _ _ _ _ (by omega)]
    simp only [List.getD_eq_getElem?_getD, List.getElem?_take_of_lt hBefore]
  · by_cases hInside : i < offset + data.length
    · rw [if_pos (by omega), List.getD_append _ _ _ _ (by omega),
        List.getD_append_right _ _ _ _ (by omega), hTake]
    · rw [if_neg (by omega), List.getD_append_right _ _ _ _ (by omega), hFront]
      simp only [List.getD_eq_getElem?_getD, List.getElem?_drop]
      congr 2
      omega

/-- Padding up to the end of the write and overwriting is the write, if there is something
to write or no gap before it. -/
theorem splice_zeroPadded [DecidableEq α] {content data : List α} {offset : Nat}
    (h : data ≠ [] ∨ offset ≤ content.length) :
    splice (zeroPadded (offset + data.length) (zeroPadded offset content)) offset data =
      pwrite content offset data := by
  by_cases hData : data = []
  · have hOffset := h.resolve_left fun hne => hne hData
    subst hData
    have hPadded : zeroPadded offset content = content := by
      rw [zeroPadded, Nat.sub_eq_zero_of_le hOffset, List.replicate_zero, List.append_nil]
    rw [List.length_nil, Nat.add_zero, hPadded, hPadded, splice, pwrite, if_pos rfl,
      List.length_nil, Nat.add_zero, List.append_nil, List.take_append_drop]
  · have hPositive : 0 < data.length := List.length_pos_iff.mpr hData
    have hLength : (zeroPadded (offset + data.length) (zeroPadded offset content)).length =
        max content.length (offset + data.length) := by
      rw [length_zeroPadded, length_zeroPadded]
      omega
    have hRoom : offset + data.length ≤
        (zeroPadded (offset + data.length) (zeroPadded offset content)).length := by
      rw [hLength]
      omega
    rw [pwrite, if_neg hData]
    refine List.ext_getElem ?_ ?_
    · rw [length_splice hRoom, hLength, List.length_map, List.length_range]
    · intro i hLeft hRight
      rw [← List.getD_eq_getElem _ 0 hLeft, getD_splice hRoom, List.getElem_map,
        List.getElem_range]
      simp only [byteAfter, getD_zeroPadded]

end EventFs.Library
