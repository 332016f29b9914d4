import EventFs.Protocol.Basic

/-!
# File names of stream subjects

A subject whose characters are safe in a file name is its own stem; every other
subject is written in hexadecimal behind a fixed prefix.
-/

namespace EventFs.Protocol

open Library

def encodedSubjectPrefix : Str := "__eventfs_subject_hex_".toList

def jsonlSuffix : Str := ".jsonl".toList

def isPlainSubjectFileStem (subject : Str) : Bool :=
  !Text.startsWith encodedSubjectPrefix subject && !subject.isEmpty &&
    !Text.startsWith ['.'] subject && !Text.endsWith ['.'] subject &&
    !Text.contains "..".toList subject &&
    subject.all fun ch => Text.isAsciiAlphanumeric ch || ch == '_' || ch == '-' || ch == '.'

def hexDigit (nibble : Nat) : Char := "0123456789abcdef".toList.getD nibble '0'

def hexEncode (bytes : Bytes) : Str :=
  bytes.flatMap fun (byte : UInt8) =>
    [hexDigit (byte >>> 4).toNat, hexDigit (byte &&& 0x0f).toNat]

theorem toNat_high (byte : UInt8) : (byte >>> 4).toNat = byte.toNat / 16 := by
  simp [UInt8.toNat_shiftRight, Nat.shiftRight_eq_div_pow]

theorem toNat_low (byte : UInt8) : (byte &&& 0x0f).toNat = byte.toNat % 16 :=
  Nat.and_two_pow_sub_one_eq_mod byte.toNat 4

theorem high_lt (byte : UInt8) : (byte >>> 4).toNat < 16 := by
  have hByte := byte.toNat_lt
  rw [toNat_high]
  omega

theorem low_lt (byte : UInt8) : (byte &&& 0x0f).toNat < 16 := by
  rw [toNat_low]
  omega

theorem hexEncode_length (bytes : Bytes) : (hexEncode bytes).length = 2 * bytes.length := by
  induction bytes with
  | nil => rfl
  | cons byte rest ih =>
      simp only [hexEncode, List.flatMap_cons, List.length_append, List.length_cons] at ih ⊢
      simp only [List.length_nil]
      omega

def streamSubjectFileNameFromStr (subject : Str) : Str :=
  if isPlainSubjectFileStem subject then subject ++ jsonlSuffix
  else encodedSubjectPrefix ++ hexEncode (Text.asBytes subject) ++ jsonlSuffix

def invalidEncodedSubject : EventFsError := .invalidPathText "invalid encoded subject".toList

def hexValue (byte : UInt8) : Except EventFsError UInt8 :=
  if 0x30 ≤ byte ∧ byte ≤ 0x39 then .ok (byte - 0x30)
  else if 0x61 ≤ byte ∧ byte ≤ 0x66 then .ok (byte - 0x61 + 10)
  else if 0x41 ≤ byte ∧ byte ≤ 0x46 then .ok (byte - 0x41 + 10)
  else .error invalidEncodedSubject

def hexDecodePairs : Bytes → Except EventFsError Bytes
  | high :: low :: rest => do
      let high ← hexValue high
      let low ← hexValue low
      let decoded ← hexDecodePairs rest
      return ((high <<< 4) ||| low) :: decoded
  | _ => .ok []

theorem hexByte_eq (byte : UInt8) : ((byte >>> 4) <<< 4) ||| (byte &&& 0x0f) = byte := by
  have hAll : ∀ n < 256, ((UInt8.ofNat n >>> 4) <<< 4) ||| (UInt8.ofNat n &&& 0x0f) =
      UInt8.ofNat n := by
    decide +kernel
  simpa using hAll byte.toNat byte.toNat_lt

theorem hexDigit_value : ∀ n < 16,
    (String.utf8EncodeChar (hexDigit n)).map hexValue = [.ok (UInt8.ofNat n)] := by decide

/-- A hexadecimal digit is one byte, which has the value of the digit. -/
theorem asBytes_hexDigit {nibble : UInt8} (h : nibble.toNat < 16) :
    ∃ digit, Text.asBytes [hexDigit nibble.toNat] = [digit] ∧ hexValue digit = .ok nibble := by
  obtain ⟨digit, hBytes, hValue⟩ := List.map_eq_singleton_iff.mp (hexDigit_value nibble.toNat h)
  exact ⟨digit, by simpa [Text.asBytes] using hBytes, by simpa using hValue⟩

theorem asBytes_hexEncode_cons (byte : UInt8) (rest : Bytes) :
    ∃ high low, Text.asBytes (hexEncode (byte :: rest)) =
        high :: low :: Text.asBytes (hexEncode rest) ∧
      hexValue high = .ok (byte >>> 4) ∧ hexValue low = .ok (byte &&& 0x0f) := by
  obtain ⟨high, hHigh, hHighValue⟩ := asBytes_hexDigit (high_lt byte)
  obtain ⟨low, hLow, hLowValue⟩ := asBytes_hexDigit (low_lt byte)
  refine ⟨high, low, ?_, hHighValue, hLowValue⟩
  have hSplit : hexEncode (byte :: rest) =
      [hexDigit (byte >>> 4).toNat] ++ ([hexDigit (byte &&& 0x0f).toNat] ++ hexEncode rest) := rfl
  rw [hSplit, Text.asBytes_append, Text.asBytes_append, hHigh, hLow]
  rfl

theorem hexDecodePairs_hexEncode (bytes : Bytes) :
    hexDecodePairs (Text.asBytes (hexEncode bytes)) = .ok bytes := by
  induction bytes with
  | nil => rfl
  | cons byte rest ih =>
      obtain ⟨high, low, hBytes, hHigh, hLow⟩ := asBytes_hexEncode_cons byte rest
      rw [hBytes, hexDecodePairs, hHigh, hLow, ih]
      show Except.ok _ = _
      rw [hexByte_eq]

theorem hexEncode_injective {left right : Bytes} (h : hexEncode left = hexEncode right) :
    left = right := by
  have hLeft := hexDecodePairs_hexEncode left
  rw [h, hexDecodePairs_hexEncode] at hLeft
  exact (Except.ok.inj hLeft).symm

theorem asBytes_hexEncode_length (bytes : Bytes) :
    (Text.asBytes (hexEncode bytes)).length = 2 * bytes.length := by
  induction bytes with
  | nil => rfl
  | cons byte rest ih =>
      obtain ⟨high, low, hBytes, -, -⟩ := asBytes_hexEncode_cons byte rest
      rw [hBytes, List.length_cons, List.length_cons, List.length_cons, ih]
      omega

def hexDecode (value : Str) : Except EventFsError Bytes :=
  if value.isEmpty || (Text.asBytes value).length % 2 ≠ 0 then .error invalidEncodedSubject
  else hexDecodePairs (Text.asBytes value)

/-- Decoding takes back the encoding of any bytes but none. -/
theorem hexDecode_hexEncode {bytes : Bytes} (hne : bytes ≠ []) :
    hexDecode (hexEncode bytes) = .ok bytes := by
  have hLength : 0 < (hexEncode bytes).length := by
    rw [hexEncode_length]
    have hPos := List.length_pos_iff.mpr hne
    omega
  have hText : (hexEncode bytes).isEmpty = false := by
    rw [List.isEmpty_eq_false_iff, ← List.length_pos_iff]
    exact hLength
  rw [hexDecode, hText, asBytes_hexEncode_length, if_neg (by simp), hexDecodePairs_hexEncode]

def parseStreamSubjectFileName (name : Str) : Except EventFsError Str :=
  match Text.stripSuffix jsonlSuffix name with
  | none => .error (.invalidPathText "stream subject files must end in .jsonl".toList)
  | some stem =>
      match Text.stripPrefix encodedSubjectPrefix stem with
      | some hex => do
          let bytes ← hexDecode hex
          match Text.fromUtf8 bytes with
          | some subject => .ok subject
          | none => .error invalidEncodedSubject
      | none =>
          if isPlainSubjectFileStem stem then .ok stem
          else .error (.invalidPathText "invalid stream subject file name".toList)

end EventFs.Protocol
