import EventFs.Library.Text

/-!
# Parts behind their lengths

A part is written as a mark, its length in bytes, a colon and its text. The length says
where the part ends, so the text may hold marks, digits and colons itself.
-/

namespace EventFs.Library.Text

def framed (mark : Char) (part : Str) : Str :=
  mark :: decimal (asBytes part).length ++ ':' :: part

def frames (mark : Char) (parts : List Str) : Str := parts.flatMap (framed mark)

theorem eq_nil_of_asBytes {s : Str} (h : (asBytes s).length = 0) : s = [] :=
  List.length_eq_zero_iff.mp (Nat.le_zero.mp (h ▸ length_le_asBytes s))

/-- Texts with as many bytes as each other, whatever follows them. -/
theorem eq_of_append_of_bytes {s t x y : Str}
    (hLength : (asBytes s).length = (asBytes t).length) (h : s ++ x = t ++ y) :
    s = t ∧ x = y := by
  rcases List.append_eq_append_iff.mp h with ⟨gap, rfl, rfl⟩ | ⟨gap, rfl, rfl⟩
  · rw [asBytes_append, List.length_append] at hLength
    have hGap : gap = [] := eq_nil_of_asBytes (by omega)
    rw [hGap]
    simp
  · rw [asBytes_append, List.length_append] at hLength
    have hGap : gap = [] := eq_nil_of_asBytes (by omega)
    rw [hGap]
    simp

variable {mark : Char}

/-- The first colon ends the length, and the length ends the part. -/
theorem framed_append_inj {part part' rest rest' : Str}
    (h : framed mark part ++ rest = framed mark part' ++ rest') :
    part = part' ∧ rest = rest' := by
  simp only [framed, List.cons_append, List.append_assoc, List.cons.injEq, true_and] at h
  have hSplit := congrArg (splitOnce ':') h
  rw [splitOnce_append (colon_notMem_decimal _), splitOnce_append (colon_notMem_decimal _)]
    at hSplit
  obtain ⟨hLength, hRest⟩ := Prod.mk.inj (Option.some.inj hSplit)
  exact eq_of_append_of_bytes (decimal_injective hLength) hRest

theorem frames_injective {parts parts' : List Str} (h : frames mark parts = frames mark parts') :
    parts = parts' := by
  induction parts generalizing parts' with
  | nil =>
      cases parts' with
      | nil => rfl
      | cons part' rest' => cases h
  | cons part rest ih =>
      cases parts' with
      | nil => cases h
      | cons part' rest' =>
          simp only [frames, List.flatMap_cons] at h
          obtain ⟨rfl, hRest⟩ := framed_append_inj h
          rw [ih hRest]

/-- What stands before the first mark, where there are parts. -/
theorem takeWhile_frames {front : Str} (hFront : mark ∉ front) (parts : List Str) :
    (front ++ frames mark parts).takeWhile (· != mark) = front := by
  have hNone : (frames mark parts).takeWhile (· != mark) = [] := by
    cases parts with
    | nil => rfl
    | cons part rest => simp [frames, framed]
  have hAll : ∀ c ∈ front, (c != mark) = true := by
    intro c hMem
    rw [bne_iff_ne]
    rintro rfl
    exact hFront hMem
  rw [List.takeWhile_append_of_pos hAll, hNone, List.append_nil]

/-- A text without the mark and the parts behind it can be told apart. -/
theorem front_frames_injective {front front' : Str} {parts parts' : List Str}
    (hFront : mark ∉ front) (hFront' : mark ∉ front')
    (h : front ++ frames mark parts = front' ++ frames mark parts') :
    front = front' ∧ parts = parts' := by
  have hSame := congrArg (List.takeWhile (· != mark)) h
  rw [takeWhile_frames hFront, takeWhile_frames hFront'] at hSame
  subst hSame
  exact ⟨rfl, frames_injective (List.append_cancel_left h)⟩

end EventFs.Library.Text
