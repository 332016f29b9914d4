import EventFs.Protocol.Basic

/-!
# JSON documents and JSON lines

The JSON parser is not part of the repository: `Serde` is what the code uses of it,
whether a text or a byte string is a JSON value and the message when it is not,
together with the text of a UTF-8 error.
-/

namespace EventFs.Protocol

open Library

class Serde where
  fromStr : Str → Except Str Unit
  fromSlice : Bytes → Except Str Unit
  utf8Error : Bytes → Str

variable [Serde]

def validateJsonDocument (path : Str) (bytes : Bytes) : Except EventFsError Unit :=
  match Serde.fromSlice bytes with
  | .ok _ => .ok ()
  | .error message => .error (.invalidJsonAt path message)

/-- The non-blank lines of a payload, trimmed. -/
def jsonLines (path : Str) (bytes : Bytes) : Except EventFsError (List Str) :=
  match Text.fromUtf8 bytes with
  | none => .error (.invalidJsonAt path (Serde.utf8Error bytes))
  | some text => .ok (((Text.lines text).map Text.trim).filter fun line => !line.isEmpty)

def validateLines (path : Str) : List Str → Except EventFsError Unit
  | [] => .ok ()
  | line :: rest =>
      match Serde.fromStr line with
      | .ok _ => validateLines path rest
      | .error message => .error (.invalidJsonAt path message)

def validateJsonLines (path : Str) (bytes : Bytes) : Except EventFsError Unit := do
  validateLines path (← jsonLines path bytes)

theorem jsonLines_eq_ok {path : Str} {bytes : Bytes} {lines : List Str} :
    jsonLines path bytes = .ok lines ↔
      ∃ text, bytes = Text.asBytes text ∧ lines = Text.trimmedLines text := by
  cases hDecode : Text.fromUtf8 bytes with
  | none =>
      simp only [jsonLines, hDecode, reduceCtorEq, false_iff]
      rintro ⟨text, hText, -⟩
      rw [Text.fromUtf8_eq_some.mpr hText] at hDecode
      cases hDecode
  | some text =>
      have hText := Text.fromUtf8_eq_some.mp hDecode
      simp only [jsonLines, hDecode, Except.ok.injEq]
      constructor
      · rintro rfl
        exact ⟨text, hText, rfl⟩
      · rintro ⟨other, hOther, rfl⟩
        rw [Text.asBytes_injective (hText.symm.trans hOther)]
        rfl

theorem jsonLines_asBytes (path text : Str) :
    jsonLines path (Text.asBytes text) = .ok (Text.trimmedLines text) :=
  jsonLines_eq_ok.mpr ⟨text, rfl, rfl⟩

/-- Whether a payload splits into lines, and into which, does not depend on its path. -/
theorem jsonLines_ok_path {path path' : Str} {bytes : Bytes} {lines : List Str}
    (h : jsonLines path bytes = .ok lines) : jsonLines path' bytes = .ok lines :=
  jsonLines_eq_ok.mpr (jsonLines_eq_ok.mp h)

theorem jsonLines_of_validateJsonLines {path : Str} {bytes : Bytes}
    (h : validateJsonLines path bytes = .ok ()) : ∃ lines, jsonLines path bytes = .ok lines := by
  cases hl : jsonLines path bytes with
  | ok lines => exact ⟨lines, rfl⟩
  | error e => simp [validateJsonLines, hl, bind, Except.bind] at h

/-- Every line of a payload that passes its check is JSON. -/
theorem fromStr_of_validateLines {path : Str} {lines : List Str}
    (h : validateLines path lines = .ok ()) : ∀ line ∈ lines, Serde.fromStr line = .ok () := by
  induction lines with
  | nil =>
      intro line hMem
      cases hMem
  | cons first rest ih =>
      unfold validateLines at h
      split at h
      · next hFirst =>
        intro line hMem
        rcases List.mem_cons.mp hMem with rfl | hMem
        · exact hFirst
        · exact ih h line hMem
      · cases h

theorem fromStr_of_validateJsonLines {path : Str} {bytes : Bytes} {lines : List Str}
    (h : validateJsonLines path bytes = .ok ()) (hLines : jsonLines path bytes = .ok lines) :
    ∀ line ∈ lines, Serde.fromStr line = .ok () := by
  unfold validateJsonLines at h
  rw [hLines] at h
  exact fromStr_of_validateLines h

/-- In JSON a letter can only begin one of the literals true, false and null. -/
def LiteralsOnly : Prop :=
  ∀ (c : Char) (rest : Str), c.isAlpha = true → Serde.fromStr (c :: rest) = .ok () →
    c ∈ ['t', 'f', 'n']

end EventFs.Protocol
