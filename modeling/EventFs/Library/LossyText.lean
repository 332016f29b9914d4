import EventFs.Library.Text

/-!
# Text from bytes that may not be text

Bytes are read as characters and, where no character begins, as the longest run of bytes that
could still have become one. `toStringLossy` keeps the characters and writes the replacement
character for every other run, so that two byte strings are confused exactly if they agree chunk
by chunk up to what is replaced.
-/

namespace EventFs.Library.Text

inductive Chunk
  | char (c : Char)
  | invalid (bytes : Bytes)
deriving DecidableEq, Repr

namespace Chunk

def replacement : Char := '\uFFFD'

/-- The bytes that a chunk was read from. -/
def bytes : Chunk → Bytes
  | char c => String.utf8EncodeChar c
  | invalid bytes => bytes

/-- The character that is kept of a chunk. -/
def text : Chunk → Char
  | char c => c
  | invalid _ => replacement

def isReplaced : Chunk → Bool
  | char c => c == replacement
  | invalid _ => true

/-- The chunks are equal, or both read as the replacement character. -/
def Similar (left right : Chunk) : Prop :=
  left = right ∨ left.isReplaced = true ∧ right.isReplaced = true

theorem text_eq_iff {left right : Chunk} : left.text = right.text ↔ Similar left right := by
  cases left with
  | char c =>
    cases right with
    | char d =>
      simp only [text, Similar, char.injEq, isReplaced, beq_iff_eq]
      constructor
      · exact .inl
      · rintro (h | ⟨rfl, rfl⟩)
        · exact h
        · rfl
    | invalid bytes => simp [text, Similar, isReplaced]
  | invalid bytes =>
    cases right with
    | char d =>
      simp only [text, Similar, isReplaced, reduceCtorEq, false_or, true_and, beq_iff_eq]
      exact eq_comm
    | invalid other => simp [text, Similar, isReplaced]

end Chunk

/-! ## Reading chunks -/

def isContinuation (byte : UInt8) : Bool := byte &&& 0xc0 == 0x80

/-- A first byte that announces three or four bytes may be followed by this one. -/
def secondFits (first second : UInt8) : Bool :=
  (first == 0xe0 && 0xa0 ≤ second && second ≤ 0xbf) ||
    (0xe1 ≤ first && first ≤ 0xec && 0x80 ≤ second && second ≤ 0xbf) ||
    (first == 0xed && 0x80 ≤ second && second ≤ 0x9f) ||
    (0xee ≤ first && first ≤ 0xef && 0x80 ≤ second && second ≤ 0xbf) ||
    (first == 0xf0 && 0x90 ≤ second && second ≤ 0xbf) ||
    (0xf1 ≤ first && first ≤ 0xf3 && 0x80 ≤ second && second ≤ 0xbf) ||
    (first == 0xf4 && 0x80 ≤ second && second ≤ 0x8f)

/-- How many bytes are replaced together where no character begins. -/
def invalidLength : Bytes → Nat
  | first :: second :: rest =>
      if secondFits first second then
        match rest with
        | third :: _ => if 0xf0 ≤ first && isContinuation third then 3 else 2
        | [] => 2
      else 1
  | _ => 1

theorem invalidLength_pos (bytes : Bytes) : 0 < invalidLength bytes := by
  rw [invalidLength.eq_def]
  split
  · split_ifs
    · split
      · split_ifs <;> decide
      · decide
    · decide
  · decide

/-- The character whose encoding begins the bytes. -/
def nextChar (bytes : Bytes) : Option Char := ByteArray.utf8DecodeChar? ⟨bytes.toArray⟩ 0

theorem nextChar_append (c : Char) (rest : Bytes) :
    nextChar (String.utf8EncodeChar c ++ rest) = some c := by
  have hBytes : (⟨(String.utf8EncodeChar c ++ rest).toArray⟩ : ByteArray) =
      (String.utf8EncodeChar c).toByteArray ++ ⟨rest.toArray⟩ := by
    ext1
    simp
  rw [nextChar, hBytes, ByteArray.utf8DecodeChar?_utf8EncodeChar_append]

theorem nextChar_eq_some {bytes : Bytes} {c : Char} (h : nextChar bytes = some c) :
    ∃ rest, bytes = String.utf8EncodeChar c ++ rest := by
  obtain ⟨rest, hBytes⟩ := ByteArray.exists_of_utf8DecodeChar?_eq_some h
  refine ⟨rest.data.toList, ?_⟩
  have hList := congrArg (fun b : ByteArray => b.data.toList) hBytes
  simpa using hList

def readChunk (bytes : Bytes) : Chunk :=
  match nextChar bytes with
  | some c => .char c
  | none => .invalid (bytes.take (invalidLength bytes))

theorem readChunk_append (c : Char) (rest : Bytes) :
    readChunk (String.utf8EncodeChar c ++ rest) = .char c := by
  rw [readChunk, nextChar_append]

theorem readChunk_spec {bytes : Bytes} (hne : bytes ≠ []) :
    ∃ rest, bytes = (readChunk bytes).bytes ++ rest ∧ (readChunk bytes).bytes ≠ [] := by
  rw [readChunk]
  cases h : nextChar bytes with
  | some c =>
    obtain ⟨rest, hBytes⟩ := nextChar_eq_some h
    refine ⟨rest, hBytes, ?_⟩
    rw [← List.length_pos_iff, Chunk.bytes, String.length_utf8EncodeChar]
    exact c.utf8Size_pos
  | none =>
    refine ⟨bytes.drop (invalidLength bytes), (List.take_append_drop _ _).symm, ?_⟩
    have hLength := List.length_pos_iff.mpr hne
    have hInvalid := invalidLength_pos bytes
    rw [← List.length_pos_iff, Chunk.bytes, List.length_take]
    omega

/-- The chunks of the bytes. Each takes at least one byte. -/
def chunksFrom : Nat → Bytes → List Chunk
  | _, [] => []
  | 0, _ :: _ => []
  | fuel + 1, byte :: rest =>
      let chunk := readChunk (byte :: rest)
      chunk :: chunksFrom fuel ((byte :: rest).drop chunk.bytes.length)

def chunks (bytes : Bytes) : List Chunk := chunksFrom bytes.length bytes

theorem chunksFrom_succ (fuel : Nat) {bytes : Bytes} (hne : bytes ≠ []) :
    chunksFrom (fuel + 1) bytes =
      readChunk bytes :: chunksFrom fuel (bytes.drop (readChunk bytes).bytes.length) := by
  obtain ⟨byte, rest, rfl⟩ := List.exists_cons_of_ne_nil hne
  rfl

theorem flatMap_chunksFrom {fuel : Nat} {bytes : Bytes} (h : bytes.length ≤ fuel) :
    (chunksFrom fuel bytes).flatMap Chunk.bytes = bytes := by
  induction fuel generalizing bytes with
  | zero =>
    obtain rfl : bytes = [] := List.length_eq_zero_iff.mp (Nat.le_zero.mp h)
    rfl
  | succ fuel ih =>
    by_cases hne : bytes = []
    · subst hne
      rfl
    · obtain ⟨rest, hBytes, hChunk⟩ := readChunk_spec hne
      have hLength := congrArg List.length hBytes
      have hPos := List.length_pos_iff.mpr hChunk
      rw [List.length_append] at hLength
      have hRest := congrArg (List.drop (readChunk bytes).bytes.length) hBytes
      rw [List.drop_left] at hRest
      rw [chunksFrom_succ fuel hne, List.flatMap_cons, hRest, ih (by omega), ← hBytes]

/-- The chunks are the bytes, cut into pieces. -/
theorem flatMap_chunks (bytes : Bytes) : (chunks bytes).flatMap Chunk.bytes = bytes :=
  flatMap_chunksFrom le_rfl

theorem chunksFrom_asBytes {fuel : Nat} {s : Str} (h : (asBytes s).length ≤ fuel) :
    chunksFrom fuel (asBytes s) = s.map .char := by
  induction s generalizing fuel with
  | nil => cases fuel <;> rfl
  | cons c s ih =>
    have hCons : asBytes (c :: s) = String.utf8EncodeChar c ++ asBytes s := rfl
    have hPos := c.utf8Size_pos
    rw [hCons, List.length_append, String.length_utf8EncodeChar] at h
    obtain ⟨fuel, rfl⟩ := Nat.exists_eq_succ_of_ne_zero (Nat.ne_of_gt (by omega : 0 < fuel))
    have hne : String.utf8EncodeChar c ++ asBytes s ≠ [] := by
      rw [← List.length_pos_iff, List.length_append, String.length_utf8EncodeChar]
      omega
    rw [hCons, Nat.succ_eq_add_one, chunksFrom_succ fuel hne, readChunk_append, Chunk.bytes,
      List.drop_left, ih (by omega), List.map_cons]

theorem chunks_asBytes (s : Str) : chunks (asBytes s) = s.map .char := chunksFrom_asBytes le_rfl

/-! ## The lossy text -/

def toStringLossy (bytes : Bytes) : Str := (chunks bytes).map Chunk.text

/-- Text is read as itself. -/
theorem toStringLossy_asBytes (s : Str) : toStringLossy (asBytes s) = s := by
  rw [toStringLossy, chunks_asBytes, List.map_map]
  exact List.map_id s

theorem toStringLossy_eq_iff {left right : Bytes} :
    toStringLossy left = toStringLossy right ↔
      List.Forall₂ Chunk.Similar (chunks left) (chunks right) := by
  rw [toStringLossy, toStringLossy]
  generalize chunks left = lefts
  generalize chunks right = rights
  induction lefts generalizing rights with
  | nil => cases rights <;> simp
  | cons first rest ih =>
    cases rights with
    | nil => simp
    | cons other others =>
      rw [List.map_cons, List.map_cons, List.cons.injEq, List.forall₂_cons, ih,
        Chunk.text_eq_iff]

/-- A character other than the replacement stands in the bytes as well. -/
theorem char_mem_chunks {bytes : Bytes} {c : Char} (h : c ∈ toStringLossy bytes)
    (hc : c ≠ Chunk.replacement) : Chunk.char c ∈ chunks bytes := by
  obtain ⟨chunk, hChunk, hText⟩ := List.mem_map.mp h
  cases chunk with
  | char d =>
    obtain rfl : d = c := hText
    exact hChunk
  | invalid other => exact absurd hText.symm hc

theorem eq_map_char_of_text {pieces : List Chunk} {s : Str} (h : pieces.map Chunk.text = s)
    (hKept : Chunk.replacement ∉ s) : pieces = s.map .char := by
  induction pieces generalizing s with
  | nil =>
    subst h
    rfl
  | cons chunk rest ih =>
    subst h
    rw [List.map_cons, List.mem_cons, not_or] at hKept
    rw [List.map_cons, List.map_cons, ← ih rfl hKept.2]
    cases chunk with
    | char c => rfl
    | invalid bytes => exact absurd rfl hKept.1

/-- Where nothing was replaced, the bytes are those of the text. -/
theorem eq_asBytes_of_toStringLossy {bytes : Bytes} {s : Str} (h : toStringLossy bytes = s)
    (hKept : Chunk.replacement ∉ s) : bytes = asBytes s := by
  rw [← flatMap_chunks bytes, eq_map_char_of_text h hKept, List.flatMap_map]
  rfl

end EventFs.Library.Text
