import Mathlib

/-!
# Text as lists of characters

Strings are lists of characters and byte strings are lists of bytes, with the
operations of a string library on them: prefixes, splitting and joining at a
separator, lines, trimming and UTF-8.
-/

namespace EventFs.Library

abbrev Str := List Char

abbrev Bytes := List UInt8

namespace Text

/-! ## Prefixes and suffixes -/

def stripPrefix (pre s : Str) : Option Str := s.dropPrefix? pre

def stripSuffix (suffix s : Str) : Option Str :=
  (s.reverse.dropPrefix? suffix.reverse).map List.reverse

def startsWith (pre s : Str) : Bool := pre.isPrefixOf s

def endsWith (suffix s : Str) : Bool := suffix.isSuffixOf s

/-- `needle` occurs in `s` as a run of consecutive characters. -/
def contains (needle : Str) : Str → Bool
  | [] => needle.isEmpty
  | c :: s => startsWith needle (c :: s) || contains needle s

theorem stripPrefix_eq_some {pre s rest : Str} :
    stripPrefix pre s = some rest ↔ s = pre ++ rest := by
  rw [stripPrefix, List.dropPrefix?_eq_some_iff]
  constructor
  · rintro ⟨p, hs, hp⟩
    rwa [eq_of_beq hp] at hs
  · intro hs
    exact ⟨pre, hs, beq_self_eq_true pre⟩

@[simp] theorem stripPrefix_append (pre rest : Str) :
    stripPrefix pre (pre ++ rest) = some rest :=
  stripPrefix_eq_some.mpr rfl

theorem stripPrefix_eq_none {pre s : Str} : stripPrefix pre s = none ↔ ¬ pre <+: s := by
  rw [Option.eq_none_iff_forall_ne_some]
  constructor
  · rintro h ⟨rest, rfl⟩
    exact h rest (stripPrefix_append pre rest)
  · intro h rest hrest
    exact h ⟨rest, (stripPrefix_eq_some.mp hrest).symm⟩

theorem stripSuffix_eq_some {suffix s rest : Str} :
    stripSuffix suffix s = some rest ↔ s = rest ++ suffix := by
  simp only [stripSuffix, Option.map_eq_some_iff]
  constructor
  · rintro ⟨r, hr, rfl⟩
    have h := stripPrefix_eq_some.mp hr
    rw [← List.reverse_reverse s, h]
    simp
  · rintro rfl
    refine ⟨rest.reverse, ?_, List.reverse_reverse rest⟩
    rw [List.reverse_append]
    exact stripPrefix_append suffix.reverse rest.reverse

/-! ## Splitting and joining -/

def trimStartMatches (c : Char) (s : Str) : Str := s.dropWhile (· == c)

def trimEndMatches (c : Char) (s : Str) : Str := (s.reverse.dropWhile (· == c)).reverse

def trimMatches (c : Char) (s : Str) : Str := trimEndMatches c (trimStartMatches c s)

/-- The part before the first `c` and the part after it. -/
def splitOnce (c : Char) : Str → Option (Str × Str)
  | [] => none
  | x :: s => if x = c then some ([], s) else (splitOnce c s).map fun (a, b) => (x :: a, b)

theorem splitOnce_append {c : Char} {s : Str} (h : c ∉ s) (t : Str) :
    splitOnce c (s ++ c :: t) = some (s, t) := by
  induction s with
  | nil => simp [splitOnce]
  | cons x s ih =>
      rw [List.mem_cons, not_or] at h
      rw [List.cons_append, splitOnce, if_neg (Ne.symm h.1), ih h.2]
      rfl

theorem splitOnce_eq_some {c : Char} {s a b : Str} (h : splitOnce c s = some (a, b)) :
    c ∉ a ∧ s = a ++ c :: b := by
  induction s generalizing a with
  | nil => cases h
  | cons x s ih =>
      rw [splitOnce] at h
      split at h
      · next hx =>
        cases h
        exact ⟨List.not_mem_nil, by rw [hx]; rfl⟩
      · next hx =>
        obtain ⟨⟨front, back⟩, hRest, hEq⟩ := Option.map_eq_some_iff.mp h
        cases hEq
        obtain ⟨hFront, rfl⟩ := ih hRest
        refine ⟨?_, rfl⟩
        rw [List.mem_cons, not_or]
        exact ⟨Ne.symm hx, hFront⟩

theorem not_mem_of_mem_splitOn {c : Char} {s piece : Str} (h : piece ∈ s.splitOn c) :
    c ∉ piece := by
  induction s generalizing piece with
  | nil => simp_all
  | cons x s ih =>
      rw [List.splitOn_cons_eq_if_modifyHead] at h
      cases hs : s.splitOn c with
      | nil => exact absurd hs (List.splitOn_ne_nil c s)
      | cons first rest =>
          rw [hs] at h ih
          split at h
          · rcases List.mem_cons.mp h with rfl | h
            · simp
            · exact ih h
          · next hx =>
            rw [List.modifyHead_cons, List.mem_cons] at h
            rcases h with rfl | h
            · have hFirst := ih List.mem_cons_self
              simp only [beq_iff_eq] at hx
              simp [hFirst, Ne.symm hx]
            · exact ih (List.mem_cons_of_mem first h)

theorem mem_intercalate_of_mem {c d : Char} {pieces : List Str} {piece : Str}
    (hPiece : piece ∈ pieces) (hMem : c ∈ piece) : c ∈ [d].intercalate pieces := by
  induction pieces with
  | nil => cases hPiece
  | cons first rest ih =>
      cases rest with
      | nil =>
          rw [List.mem_singleton.mp hPiece] at hMem
          simpa using hMem
      | cons next rest =>
          rw [List.intercalate_cons_cons, List.append_assoc]
          rcases List.mem_cons.mp hPiece with rfl | hPiece
          · exact List.mem_append_left _ hMem
          · exact List.mem_append_right _ (List.mem_append_right _ (ih hPiece))

theorem mem_of_mem_splitOn {c d : Char} {s piece : Str} (hPiece : piece ∈ s.splitOn d)
    (hMem : c ∈ piece) : c ∈ s := by
  have hJoin : [d].intercalate (s.splitOn d) = s := List.intercalate_splitOn d
  rw [← hJoin]
  exact mem_intercalate_of_mem hPiece hMem

theorem intercalate_append {c : Char} {front back : List Str} (hf : front ≠ [])
    (hb : back ≠ []) :
    [c].intercalate (front ++ back) = [c].intercalate front ++ c :: [c].intercalate back := by
  induction front with
  | nil => exact absurd rfl hf
  | cons piece rest ih =>
      cases rest with
      | nil => simp [List.intercalate_cons_of_ne_nil hb]
      | cons next rest =>
          rw [List.cons_append, List.cons_append, List.intercalate_cons_cons, ← List.cons_append,
            ih (by simp), List.intercalate_cons_cons]
          simp

theorem mem_intercalate {c x : Char} {pieces : List Str} (h : x ∈ [c].intercalate pieces) :
    x = c ∨ ∃ piece ∈ pieces, x ∈ piece := by
  induction pieces with
  | nil => simp at h
  | cons piece rest ih =>
      cases rest with
      | nil => exact Or.inr ⟨piece, List.mem_cons_self, by simpa using h⟩
      | cons next rest =>
          rw [List.intercalate_cons_cons, List.append_assoc, List.mem_append] at h
          rcases h with h | h
          · exact Or.inr ⟨piece, List.mem_cons_self, h⟩
          · rcases List.mem_append.mp h with h | h
            · exact Or.inl (by simpa using h)
            · rcases ih h with h | ⟨p, hp, h⟩
              · exact Or.inl h
              · exact Or.inr ⟨p, List.mem_cons_of_mem piece hp, h⟩

/-! ## Lines and blanks -/

/-- Unicode `White_Space`. -/
def isWhitespace (c : Char) : Bool :=
  (0x9 ≤ c.val && c.val ≤ 0xd) || c.val == 0x20 || c.val == 0x85 || c.val == 0xa0 ||
    c.val == 0x1680 || (0x2000 ≤ c.val && c.val ≤ 0x200a) || c.val == 0x2028 ||
    c.val == 0x2029 || c.val == 0x202f || c.val == 0x205f || c.val == 0x3000

/-- Unicode general category `Cc`. -/
def isControl (c : Char) : Bool := c.val ≤ 0x1f || (0x7f ≤ c.val && c.val ≤ 0x9f)

/-- What no character of a text satisfies, as a scan of the text. -/
theorem forall_eq_false {p : Char → Bool} {s : Str} (h : s.any p = false) :
    ∀ c ∈ s, p c = false := by
  intro c hMem
  exact Bool.eq_false_iff.mpr (List.any_eq_false.mp h c hMem)

def isAsciiAlphanumeric (c : Char) : Bool :=
  ('0' ≤ c && c ≤ '9') || ('A' ≤ c && c ≤ 'Z') || ('a' ≤ c && c ≤ 'z')

def trim (s : Str) : Str := ((s.dropWhile isWhitespace).reverse.dropWhile isWhitespace).reverse

def stripCarriageReturn (line : Str) : Str := (stripSuffix ['\r'] line).getD line

/-- The lines of a text: `\n` and `\r\n` end a line, and the last line may be open. -/
def lines (s : Str) : List Str :=
  let pieces := s.splitOn '\n'
  pieces.dropLast.map stripCarriageReturn ++ (pieces.getLast?.filter (· ≠ [])).toList

theorem lines_nil : lines [] = [] := by
  simp [lines]

theorem lines_open {line : Str} (hBreak : '\n' ∉ line) (hNonempty : line ≠ []) :
    lines line = [line] := by
  simp [lines, List.splitOn_eq_singleton hBreak, hNonempty]

/-- A closed line in front of a text. -/
theorem lines_cons {line rest : Str} (hBreak : '\n' ∉ line) (hReturn : line.getLast? ≠ some '\r') :
    lines (line ++ '\n' :: rest) = line :: lines rest := by
  have hStrip : stripCarriageReturn line = line := by
    cases hSuffix : stripSuffix ['\r'] line with
    | none => rw [stripCarriageReturn, hSuffix, Option.getD_none]
    | some front =>
        rw [stripSuffix_eq_some.mp hSuffix] at hReturn
        simp at hReturn
  obtain ⟨first, pieces, hPieces⟩ := List.exists_cons_of_ne_nil (List.splitOn_ne_nil '\n' rest)
  simp only [lines, List.splitOn_append_cons_self_of_not_mem hBreak, hPieces]
  simp [hStrip]

/-- A line without blanks around it. -/
structure IsTrimmed (line : Str) : Prop where
  nonempty : line ≠ []
  trimmed : trim line = line
  oneLine : '\n' ∉ line

theorem trim_eq (s : Str) : trim s = (s.dropWhile isWhitespace).rdropWhile isWhitespace := rfl

theorem mem_of_mem_trim {c : Char} {s : Str} (h : c ∈ trim s) : c ∈ s := by
  rw [trim_eq] at h
  exact (List.dropWhile_sublist _).mem ((List.rdropWhile_prefix _ _).sublist.mem h)

theorem trim_trim (s : Str) : trim (trim s) = trim s := by
  have hFront : (trim s).dropWhile isWhitespace = trim s := by
    rw [List.dropWhile_eq_self_iff]
    intro hLength
    have hPrefix : trim s <+: s.dropWhile isWhitespace := List.rdropWhile_prefix _ _
    rw [hPrefix.getElem hLength]
    exact List.dropWhile_get_zero_not isWhitespace s (hLength.trans_le hPrefix.length_le)
  rw [trim_eq (trim s), hFront, trim_eq s, List.rdropWhile_idempotent]

namespace IsTrimmed

theorem of_trim {line : Str} (hBreak : '\n' ∉ line) (hNonempty : trim line ≠ []) :
    IsTrimmed (trim line) := ⟨hNonempty, trim_trim line, fun h => hBreak (mem_of_mem_trim h)⟩

theorem getLast?_ne {line : Str} (h : IsTrimmed line) {c : Char} (hBlank : isWhitespace c = true) :
    line.getLast? ≠ some c := by
  intro hLast
  have hTrim := h.trimmed
  rw [trim_eq] at hTrim
  have hFront : line.dropWhile isWhitespace = line := by
    refine ((List.dropWhile_suffix _).eq_of_length_le ?_)
    have hLength := (List.rdropWhile_prefix isWhitespace (line.dropWhile isWhitespace)).length_le
    rwa [hTrim] at hLength
  rw [hFront, List.rdropWhile_eq_self_iff] at hTrim
  have hNot := hTrim h.nonempty
  rw [List.getLast?_eq_getLast_of_ne_nil h.nonempty, Option.some.injEq] at hLast
  exact hNot (hLast ▸ hBlank)

end IsTrimmed

/-- The lines of a text that are left when blanks around them are removed. -/
def trimmedLines (s : Str) : List Str := ((lines s).map trim).filter fun line => !line.isEmpty

theorem not_mem_of_mem_lines {s line : Str} (h : line ∈ lines s) : '\n' ∉ line := by
  simp only [lines, List.mem_append, List.mem_map, Option.mem_toList,
    Option.filter_eq_some_iff] at h
  rcases h with ⟨piece, hPiece, rfl⟩ | ⟨hPiece, -⟩
  · have hNot := not_mem_of_mem_splitOn (List.dropLast_subset _ hPiece)
    rw [stripCarriageReturn]
    cases hStrip : stripSuffix ['\r'] piece with
    | none => exact hNot
    | some front =>
        rw [stripSuffix_eq_some.mp hStrip] at hNot
        exact fun hIn => hNot (List.mem_append_left _ hIn)
  · exact not_mem_of_mem_splitOn (List.mem_of_getLast? hPiece)

theorem isTrimmed_of_mem {s line : Str} (h : line ∈ trimmedLines s) : IsTrimmed line := by
  simp only [trimmedLines, List.mem_filter, List.mem_map, Bool.not_eq_true',
    List.isEmpty_eq_false_iff] at h
  obtain ⟨⟨raw, hRaw, rfl⟩, hNonempty⟩ := h
  exact .of_trim (not_mem_of_mem_lines hRaw) hNonempty

/-- Every line closed by a newline. -/
def closeLines (lines : List Str) : Str := lines.flatMap fun line => line ++ ['\n']

/-- Behind a closed line the lines of a text start afresh. -/
theorem lines_append {s t : Str} (h : s = [] ∨ s.getLast? = some '\n') :
    lines (s ++ t) = lines s ++ lines t := by
  rcases h with rfl | h
  · rw [lines_nil]
    rfl
  · obtain ⟨front, rfl⟩ := List.getLast?_eq_some_iff.mp h
    have hNonempty := List.splitOn_ne_nil '\n' t
    simp only [lines, List.append_assoc, List.cons_append, List.nil_append,
      List.splitOn_append_cons_self, List.splitOn_nil, List.dropLast_append_of_ne_nil hNonempty,
      List.getLast?_append_of_ne_nil _ hNonempty, List.map_append]
    simp

theorem trimmedLines_append {s t : Str} (h : s = [] ∨ s.getLast? = some '\n') :
    trimmedLines (s ++ t) = trimmedLines s ++ trimmedLines t := by
  rw [trimmedLines, lines_append h, List.map_append, List.filter_append]
  rfl

theorem trimmedLines_closeLines {lines : List Str} (h : ∀ line ∈ lines, IsTrimmed line) :
    trimmedLines (closeLines lines) = lines := by
  induction lines with
  | nil => rfl
  | cons line rest ih =>
      have hLine := h line List.mem_cons_self
      have hRest := ih fun l hl => h l (List.mem_cons_of_mem line hl)
      have hSplit : closeLines (line :: rest) = line ++ '\n' :: closeLines rest := by
        simp [closeLines]
      rw [trimmedLines, hSplit, lines_cons hLine.oneLine (hLine.getLast?_ne (by decide)),
        List.map_cons, hLine.trimmed, List.filter_cons_of_pos (by simp [hLine.nonempty])]
      exact congrArg (line :: ·) hRest

/-! ## Numbers -/

def isDigit (c : Char) : Bool := '0' ≤ c && c ≤ '9'

def digitsValue (s : Str) : Nat := s.foldl (fun n c => 10 * n + (c.toNat - '0'.toNat)) 0

/-- A decimal number below `2 ^ 64`, with an optional leading plus sign. -/
def parseU64 (s : Str) : Option Nat :=
  let digits := (stripPrefix ['+'] s).getD s
  if digits.isEmpty || !digits.all isDigit || 2 ^ 64 ≤ digitsValue digits then none
  else some (digitsValue digits)

/-- The decimal digits of a number. -/
def decimal (n : Nat) : Str := Nat.toDigits 10 n

theorem isDigit_of_mem_decimal {n : Nat} {c : Char} (h : c ∈ decimal n) : isDigit c = true := by
  have hDigit := Nat.isDigit_of_mem_toDigits (by omega) (Nat.le_refl 10) h
  simpa [isDigit, Char.isDigit, Char.le_def] using hDigit

theorem digitsValue_decimal (n : Nat) : digitsValue (decimal n) = n := by
  have h := @Nat.ofDigitChars_ten_toDigits n
  rwa [Nat.ofDigitChars] at h

theorem decimal_injective {n m : Nat} (h : decimal n = decimal m) : n = m := by
  rw [← digitsValue_decimal n, h, digitsValue_decimal]

theorem colon_notMem_decimal (n : Nat) : ':' ∉ decimal n :=
  fun h => absurd (isDigit_of_mem_decimal h) (by decide)

theorem stripPrefix_plus_decimal (n : Nat) : stripPrefix ['+'] (decimal n) = none := by
  rw [stripPrefix_eq_none]
  rintro ⟨rest, hRest⟩
  have hMem : '+' ∈ decimal n := hRest ▸ List.mem_cons_self
  exact absurd (isDigit_of_mem_decimal hMem) (by decide)

theorem eq_of_parseU64_decimal {n m : Nat} (h : parseU64 (decimal n) = some m) : m = n := by
  simp only [parseU64, stripPrefix_plus_decimal, Option.getD_none, digitsValue_decimal] at h
  split_ifs at h
  exact (Option.some.inj h).symm

theorem parseU64_decimal {n : Nat} (h : n < 2 ^ 64) : parseU64 (decimal n) = some n := by
  have hAll : (decimal n).all isDigit = true := List.all_eq_true.mpr fun _ => isDigit_of_mem_decimal
  have hEmpty : (decimal n).isEmpty = false := by
    rw [List.isEmpty_eq_false_iff]
    exact Nat.toDigits_ne_nil
  simp only [parseU64, stripPrefix_plus_decimal, Option.getD_none, hAll, hEmpty,
    digitsValue_decimal]
  simp only [Bool.not_true, Bool.false_or, decide_eq_true_eq, Bool.or_false, ite_eq_right_iff,
    reduceCtorEq, imp_false, not_le]
  exact h

/-! ## UTF-8 -/

def asBytes (s : Str) : Bytes := s.flatMap String.utf8EncodeChar

theorem asBytes_injective {s t : Str} (h : asBytes s = asBytes t) : s = t := by
  have hEncode : s.utf8Encode = t.utf8Encode := congrArg List.toByteArray h
  have hDecode := congrArg ByteArray.utf8Decode? hEncode
  rw [List.utf8Decode?_utf8Encode, List.utf8Decode?_utf8Encode] at hDecode
  simpa using hDecode

theorem length_le_asBytes (s : Str) : s.length ≤ (asBytes s).length := by
  induction s with
  | nil => exact Nat.le_refl 0
  | cons c s ih =>
      have hChar : 0 < (String.utf8EncodeChar c).length := by
        rw [String.length_utf8EncodeChar]
        exact Char.utf8Size_pos c
      simp only [asBytes, List.flatMap_cons, List.length_append, List.length_cons] at ih ⊢
      omega

def fromUtf8 (bytes : Bytes) : Option Str :=
  (ByteArray.utf8Decode? ⟨bytes.toArray⟩).map Array.toList

theorem asBytes_append (s t : Str) : asBytes (s ++ t) = asBytes s ++ asBytes t :=
  List.flatMap_append

theorem fromUtf8_eq_some {bytes : Bytes} {s : Str} :
    fromUtf8 bytes = some s ↔ bytes = asBytes s := by
  constructor
  · intro h
    rw [fromUtf8, Option.map_eq_some_iff] at h
    obtain ⟨chars, hDecode, rfl⟩ := h
    have hEncode := @ByteArray.utf8Encode_get_utf8Decode? ⟨bytes.toArray⟩ (by simp [hDecode])
    simp only [hDecode, Option.get_some] at hEncode
    have hBytes := congrArg (fun b : ByteArray => b.data.toList) hEncode
    simpa [List.utf8Encode, asBytes] using hBytes.symm
  · rintro rfl
    have hEncode : (⟨(asBytes s).toArray⟩ : ByteArray) = s.utf8Encode := by
      ext1
      simp [asBytes, List.utf8Encode]
    rw [fromUtf8, hEncode, List.utf8Decode?_utf8Encode]
    simp

/-- The encoding of a character ends where its own bytes say. -/
theorem encodeChar_append_inj {c d : Char} {x y : Bytes}
    (h : String.utf8EncodeChar c ++ x = String.utf8EncodeChar d ++ y) : c = d ∧ x = y := by
  have hFirst := @ByteArray.utf8DecodeChar?_utf8EncodeChar_append ⟨x.toArray⟩ c
  have hSecond := @ByteArray.utf8DecodeChar?_utf8EncodeChar_append ⟨y.toArray⟩ d
  have hBytes : ((String.utf8EncodeChar c).toByteArray ++ ⟨x.toArray⟩ : ByteArray) =
      (String.utf8EncodeChar d).toByteArray ++ ⟨y.toArray⟩ := by
    ext1
    simpa using h
  rw [hBytes, hSecond] at hFirst
  cases hFirst
  exact ⟨rfl, List.append_cancel_left h⟩

/-- A text whose bytes begin with those of another text begins with it. -/
theorem eq_append_of_asBytes {s t : Str} {rest : Bytes} (h : asBytes s ++ rest = asBytes t) :
    ∃ u, t = s ++ u ∧ rest = asBytes u := by
  induction s generalizing t with
  | nil => exact ⟨t, rfl, h⟩
  | cons c s ih =>
      cases t with
      | nil =>
          have hEmpty := congrArg List.length h
          simp only [asBytes, List.flatMap_cons, List.length_append, List.flatMap_nil,
            List.length_nil, String.length_utf8EncodeChar] at hEmpty
          have hSize := c.utf8Size_pos
          omega
      | cons d t =>
          simp only [asBytes, List.flatMap_cons, List.append_assoc] at h
          obtain ⟨rfl, hRest⟩ := encodeChar_append_inj h
          obtain ⟨u, rfl, hu⟩ := ih hRest
          exact ⟨u, rfl, hu⟩

theorem getLast?_encodeChar {c : Char} (h : (String.utf8EncodeChar c).getLast? = some 10) :
    c = '\n' := by
  have hContinued (n : Nat) : (UInt8.ofNat (n % 64 + 128)) ≠ 10 := by
    intro hEq
    have hNat := congrArg UInt8.toNat hEq
    simp only [UInt8.toNat_ofNat'] at hNat
    have : (10 : UInt8).toNat = 10 := rfl
    omega
  simp only [String.utf8EncodeChar] at h
  split at h
  · next hSmall =>
    have hByte : UInt8.ofNat c.val.toNat = 10 := by simpa using h
    have hNat := congrArg UInt8.toNat hByte
    simp only [UInt8.toNat_ofNat'] at hNat
    have hTen : (10 : UInt8).toNat = 10 := rfl
    apply Char.ext
    apply UInt32.toNat_inj.mp
    show c.val.toNat = 10
    omega
  · have hLast : UInt8.ofNat (c.val.toNat % 64 + 128) = 10 := by
      split at h
      · simpa using h
      · split at h <;> simpa using h
    exact absurd hLast (hContinued _)

/-- The byte of a newline never ends another character. -/
theorem getLast?_asBytes {s : Str} :
    (asBytes s).getLast? = some 10 ↔ s.getLast? = some '\n' := by
  induction s using List.reverseRecOn with
  | nil => simp [asBytes]
  | append_singleton front c _ =>
      have hNonempty : asBytes [c] ≠ [] := by
        have hSize := c.utf8Size_pos
        rw [← List.length_pos_iff_ne_nil]
        simpa [asBytes] using hSize
      have hLast : (asBytes [c]).getLast? = (String.utf8EncodeChar c).getLast? := by
        simp [asBytes]
      rw [asBytes_append, List.getLast?_append_of_ne_nil _ hNonempty, hLast, List.getLast?_concat,
        Option.some.injEq]
      constructor
      · exact getLast?_encodeChar
      · rintro rfl
        decide

/-- Bytes that end inside a character are not the bytes of a text. -/
theorem asBytes_ne_of_cut {front s : Str} {c : Char} {x y : Bytes}
    (hChar : String.utf8EncodeChar c = x ++ y) (hx : x ≠ []) (hy : y ≠ []) :
    asBytes front ++ x ≠ asBytes s := by
  intro h
  obtain ⟨u, -, hu⟩ := eq_append_of_asBytes h
  cases u with
  | nil => exact hx hu
  | cons d u =>
      have hEncode : String.utf8EncodeChar d ++ (asBytes u ++ y) =
          String.utf8EncodeChar c ++ [] := by
        rw [List.append_nil, hChar, hu, ← List.append_assoc]
        rfl
      obtain ⟨-, hRest⟩ := encodeChar_append_inj hEncode
      exact hy (List.append_eq_nil_iff.mp hRest).2

end Text

end EventFs.Library
