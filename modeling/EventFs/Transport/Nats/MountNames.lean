import EventFs.Library.Tokens
import EventFs.Protocol.PlannedKeys
import EventFs.Transport.Nats.KvOnce

/-!
# Names of the mount on the broker

No operation that the mount plans names a marker, in whatever way its key is put together.
The subject of what a path shows has the form the broker asks for, unless a component of
the path has two dots in a row.
-/

namespace EventFs.Transport.Nats

open Library Protocol

/-! ## Markers -/

def Kv.markerKeys (idempotencyKey : Str) : List Str :=
  [Kv.writebackMarkerKey idempotencyKey, Kv.appliedMarkerKey idempotencyKey]

theorem Kv.markerKeys_reserved {idempotencyKey marker : Str}
    (h : marker ∈ Kv.markerKeys idempotencyKey) : isReservedKvKey marker = true := by
  rcases List.mem_pair.mp h with rfl | rfl
  · exact Kv.writebackMarkerKey_reserved
  · exact Kv.appliedMarkerKey_reserved

theorem slash_notMem_hexEncode (bytes : Bytes) : '/' ∉ hexEncode bytes := fun h =>
  absurd (hexEncode_chars _ _ h) (by decide)

theorem Kv.slash_notMem_markerKeys {idempotencyKey marker : Str}
    (h : marker ∈ Kv.markerKeys idempotencyKey) : '/' ∉ marker := by
  have hMarker : ∀ pre : Str, '/' ∉ pre →
      '/' ∉ pre ++ '.' :: hexEncode (Text.asBytes idempotencyKey) := by
    intro pre hPre
    rw [List.mem_append, List.mem_cons, not_or, not_or]
    exact ⟨hPre, by decide, slash_notMem_hexEncode _⟩
  rcases List.mem_pair.mp h with rfl | rfl
  · exact hMarker _ (by decide)
  · exact hMarker _ (by decide)

theorem planned_names_no_marker {s : Str} {parsed : JetStreamPath} {intent : FileIntent}
    {action : JetStreamAction} (hParse : JetStreamPath.parse s = .ok parsed)
    (hDst : ∀ dst, intent = .rename dst → ∃ t, JetStreamPath.parse t = .ok dst)
    (hPlan : planOperation intent parsed = .ok action) :
    (∀ key ∈ action.kvKeys, isReservedKvKey key = false) ∧
      (∀ pre ∈ action.kvPrefixes, pre ≠ [] → isReservedKvKey pre = false) ∧
      ∀ idempotencyKey, ∀ marker ∈ Kv.markerKeys idempotencyKey,
        isReservedKvKey marker = true ∧ marker ∉ action.kvKeys ∧
          ∀ pre ∈ action.kvPrefixes, pre ≠ [] →
            marker ≠ pre ∧ ∀ rest, marker ≠ pre ++ '/' :: rest := by
  have hNames := planOperation_names hPlan
  have hFree : ∀ {s : Str} {parsed : JetStreamPath}, JetStreamPath.parse s = .ok parsed →
      ∀ name ∈ parsed.kvNames, isReservedKvKey name = false := fun hParse => by
    obtain ⟨_, -, hParses⟩ := parses_of_parse hParse
    exact hParses.kvNames_free
  have hAll : ∀ name ∈ parsed.kvNames ++ intent.kvNames, isReservedKvKey name = false := by
    intro name hMem
    rcases List.mem_append.mp hMem with hMem | hMem
    · exact hFree hParse name hMem
    · cases intent with
      | rename dst =>
          obtain ⟨t, hOther⟩ := hDst dst rfl
          exact hFree hOther name hMem
      | _ => cases hMem
  have hKeys : ∀ key ∈ action.kvKeys, isReservedKvKey key = false := fun key hMem =>
    hAll key (hNames.1 key hMem)
  have hPrefixes : ∀ pre ∈ action.kvPrefixes, pre ≠ [] → isReservedKvKey pre = false :=
    fun pre hMem hne => hAll pre (hNames.2 pre hMem hne)
  refine ⟨hKeys, hPrefixes, fun idempotencyKey marker hMarker => ?_⟩
  have hReserved := Kv.markerKeys_reserved hMarker
  refine ⟨hReserved, fun hMem => ?_, fun pre hMem hne => ⟨?_, fun rest hBelow => ?_⟩⟩
  · rw [hKeys marker hMem] at hReserved
    cases hReserved
  · rintro rfl
    rw [hPrefixes marker hMem hne] at hReserved
    cases hReserved
  · exact Kv.slash_notMem_markerKeys hMarker (hBelow ▸ by simp)

theorem rename_plan_no_marker : ∃ parsed dst action,
    JetStreamPath.parse "/kv/config/app".toList = .ok parsed ∧
      JetStreamPath.parse "/kv/config/__eventfs_writebacks".toList = .ok dst ∧
      planOperation (.rename dst) parsed = .ok action ∧
      (∀ key ∈ action.kvKeys, isReservedKvKey key = false) ∧
      (∀ pre ∈ action.kvPrefixes, pre ≠ [] → isReservedKvKey pre = false) ∧
      ∀ idempotencyKey, ∀ marker ∈ Kv.markerKeys idempotencyKey,
        isReservedKvKey marker = true ∧ marker ∉ action.kvKeys ∧
          ∀ pre ∈ action.kvPrefixes, pre ≠ [] →
            marker ≠ pre ∧ ∀ rest, marker ≠ pre ++ '/' :: rest := by
  have hParse : JetStreamPath.parse "/kv/config/app".toList =
      .ok (.kvKey "config".toList "app".toList) := by decide
  have hOther : JetStreamPath.parse "/kv/config/__eventfs_writebacks".toList =
      .ok (.kvKey "config".toList "__eventfs_writebacks".toList) := by decide
  have hPlan : planOperation (.rename (.kvKey "config".toList "__eventfs_writebacks".toList))
      (.kvKey "config".toList "app".toList) = .ok (.rename (.kv "config".toList "app".toList
        "config".toList "__eventfs_writebacks".toList)) := rfl
  refine ⟨_, _, _, hParse, hOther, hPlan, planned_names_no_marker hParse ?_ hPlan⟩
  rintro dst hDst
  cases hDst
  exact ⟨_, hOther⟩

/-! ## Subjects -/

/-- The form the broker asks of the subject of a message. -/
structure WellFormedSubject (subject : Str) : Prop where
  tokens : ∀ token ∈ subject.splitOn '.', token ≠ []
  wildcards : ∀ token ∈ subject.splitOn '.', token ≠ ['*'] ∧ token ≠ ['>']
  chars : ∀ ch ∈ subject, Text.isControl ch = false ∧ Text.isWhitespace ch = false

/-- The subject under which the broker has what a path shows. -/
def natsSubject : JetStreamPath → Option Str
  | .kvHistoryKey bucket key | .kvRevision bucket key _ => some (Kv.subject bucket key)
  | path =>
      match StorageFact.fromJetstreamPath path with
      | some (.kv bucket key) => some (Kv.subject bucket key)
      | some (.streamSubject _ subject) => some subject
      | _ => none

def isPlainChar (ch : Char) : Bool :=
  !Text.isControl ch && !Text.isWhitespace ch && ch != '*' && ch != '>'

theorem isPlainChar_of_val {ch : Char} (hLow : 0x21 ≤ ch.val.toNat) (hHigh : ch.val.toNat ≤ 0x7e)
    (hStar : ch ≠ '*') (hTail : ch ≠ '>') : isPlainChar ch = true := by
  have hControl : Text.isControl ch = false := by
    simp only [Text.isControl, UInt32.le_iff_toNat_le, Bool.or_eq_false_iff,
      Bool.and_eq_false_iff, decide_eq_false_iff_not, UInt32.reduceToNat]
    omega
  have hWhitespace : Text.isWhitespace ch = false := by
    simp only [Text.isWhitespace, UInt32.le_iff_toNat_le, Bool.or_eq_false_iff,
      Bool.and_eq_false_iff, decide_eq_false_iff_not, UInt32.reduceToNat, beq_eq_false_iff_ne,
      ne_eq, ← UInt32.toNat_inj]
    omega
  simp [isPlainChar, hControl, hWhitespace, hStar, hTail]

theorem isPlainChar_of_alphanumeric {ch : Char} (h : Text.isAsciiAlphanumeric ch = true) :
    isPlainChar ch = true := by
  simp only [Text.isAsciiAlphanumeric, Bool.or_eq_true, Bool.and_eq_true, decide_eq_true_eq,
    Char.le_def, UInt32.le_iff_toNat_le, Char.reduceVal, UInt32.reduceToNat] at h
  have hNot : ∀ other : Char, other.val.toNat < 48 ∨ other.val.toNat = 62 → ch ≠ other := by
    rintro other hOther rfl
    omega
  exact isPlainChar_of_val (by omega) (by omega) (hNot '*' (by decide)) (hNot '>' (by decide))

theorem isPlainChar_of_kvKeyChar {ch : Char} (h : isKvKeyChar ch = true) :
    isPlainChar ch = true := by
  simp only [isKvKeyChar, Bool.or_eq_true, beq_iff_eq] at h
  rcases h with ((((h | rfl) | rfl) | rfl) | rfl) | rfl
  · exact isPlainChar_of_alphanumeric h
  all_goals decide

theorem isKvKeyChar_of_token {value : Str} (h : IsToken value) :
    ∀ ch ∈ value, isKvKeyChar ch = true := by
  intro ch hMem
  have hChar := h.2 ch hMem
  simp only [Bool.or_eq_true, beq_iff_eq] at hChar
  rcases hChar with (hChar | rfl) | rfl
  · simp [isKvKeyChar, hChar]
  all_goals decide

/-- A subject of plain characters is well formed if it has no empty token. -/
theorem wellFormedSubject_iff {subject : Str} (hChars : ∀ ch ∈ subject, isPlainChar ch = true) :
    WellFormedSubject subject ↔ ∀ token ∈ subject.splitOn '.', token ≠ [] := by
  refine ⟨WellFormedSubject.tokens, fun hTokens => ⟨hTokens, ?_, ?_⟩⟩
  · intro token hToken
    constructor
    · rintro rfl
      have hStar := hChars '*' (Text.mem_of_mem_splitOn hToken (by simp))
      exact absurd hStar (by decide)
    · rintro rfl
      have hTail := hChars '>' (Text.mem_of_mem_splitOn hToken (by simp))
      exact absurd hTail (by decide)
  · intro ch hMem
    have hPlain := hChars ch hMem
    simp only [isPlainChar, Bool.and_eq_true, Bool.not_eq_true'] at hPlain
    exact hPlain.1.1

/-- What every key behind a path has, with or without doubled dots. -/
structure IsKeyText (key : Str) : Prop where
  nonempty : key ≠ []
  start : Text.startsWith ['.'] key = false
  stop : Text.endsWith ['.'] key = false
  chars : ∀ ch ∈ key, isKvKeyChar ch = true

theorem isKeyText_of_validated {key : Str} (h : validateKvKey key = .ok ()) : IsKeyText key := by
  obtain ⟨⟨hne, hStart, hEnd⟩, -, hChars⟩ := validateKvKey_eq_ok.mp h
  exact ⟨hne, hStart, hEnd, hChars⟩

theorem IsKeyText.below {name key : Str} (hName : IsToken name) (h : IsKeyText key) :
    IsKeyText (name ++ '/' :: key) where
  nonempty := by simp
  start := by
    rw [Text.startsWith_append_cons (by decide)]
    cases name with
    | nil => rfl
    | cons a name =>
        rw [Text.startsWith_singleton_cons, beq_false_of_ne]
        rintro rfl
        exact hName.not_mem (by decide) List.mem_cons_self
  stop := by
    rw [Text.endsWith_append (by simp), Text.endsWith_cons h.nonempty]
    exact h.stop
  chars := by
    intro ch hMem
    rcases List.mem_append.mp hMem with hMem | hMem
    · exact isKvKeyChar_of_token hName ch hMem
    · rcases List.mem_cons.mp hMem with rfl | hMem
      · decide
      · exact h.chars ch hMem

theorem kvSubject_wellFormed_iff {bucket key : Str} (hBucket : IsToken bucket)
    (hKey : IsKeyText key) :
    WellFormedSubject (Kv.subject bucket key) ↔ Text.contains ['.', '.'] key = false := by
  have hSplit : (Kv.subject bucket key).splitOn '.' =
      "$KV".toList :: bucket :: key.splitOn '.' := by
    rw [Kv.subject, show "$KV.".toList ++ bucket ++ '.' :: key =
      "$KV".toList ++ '.' :: (bucket ++ '.' :: key) by simp,
      List.splitOn_append_cons_self_of_not_mem (by decide),
      List.splitOn_append_cons_self_of_not_mem (hBucket.not_mem (by decide))]
  have hChars : ∀ ch ∈ Kv.subject bucket key, isPlainChar ch = true := by
    intro ch hMem
    rw [Kv.subject, List.mem_append, List.mem_append, List.mem_cons] at hMem
    rcases hMem with (hMem | hMem) | rfl | hMem
    · have hFixed : "$KV.".toList.all isPlainChar = true := by decide
      exact List.all_eq_true.mp hFixed ch hMem
    · exact isPlainChar_of_kvKeyChar (isKvKeyChar_of_token hBucket ch hMem)
    · decide
    · exact isPlainChar_of_kvKeyChar (hKey.chars ch hMem)
  rw [wellFormedSubject_iff hChars, hSplit, List.forall_mem_cons, List.forall_mem_cons,
    Text.forall_splitOn_ne_nil]
  simp [hBucket.1, hKey.nonempty, hKey.start, hKey.stop]

/-! ## Doubled dots -/

abbrev doubledDot (s : Str) : Bool := Text.contains ['.', '.'] s

theorem doubledDot_components {s : Str} {parts : List Str} (h : components s = .ok parts) :
    doubledDot s = parts.any doubledDot := by
  rw [components] at h
  split_ifs at h
  simp only at h
  have hTrim := Text.contains_double_trimMatches (c := '.') s (show '/' ≠ '.' by decide)
  split_ifs at h with hEmpty
  · cases h
    rw [List.isEmpty_iff.mp hEmpty] at hTrim
    exact hTrim.symm
  · cases h
    rw [← Text.contains_double_intercalate _ (show '/' ≠ '.' by decide),
      List.intercalate_splitOn, hTrim]

theorem doubledDot_joined {parts : List Str} {key : Str} (h : joinKvKey parts = .ok key) :
    parts.any doubledDot = doubledDot key := by
  rw [(joinKvKey_eq_ok h).2, ← Text.contains_double_intercalate _ (show '/' ≠ '.' by decide)]

theorem doubledDot_token {value : Str} (h : IsToken value) : doubledDot value = false :=
  Text.contains_double_of_notMem (h.not_mem (by decide))

theorem doubledDot_below {name : Str} (rest : Str) (h : IsToken name) :
    doubledDot (name ++ '/' :: rest) = doubledDot rest := by
  rw [doubledDot, Text.contains_double_append _ _ (show '/' ≠ '.' by decide)]
  rw [show Text.contains ['.', '.'] name = false from doubledDot_token h]
  rfl

theorem dot_notMem_decoded {digits bytes : Bytes} (hEven : digits.length % 2 = 0)
    (h : hexDecodePairs digits = .ok bytes) : 0x2e ∉ digits := by
  induction digits using hexDecodePairs.induct generalizing bytes with
  | case1 high low rest ih =>
      rw [hexDecodePairs, except_bind_eq_ok] at h
      obtain ⟨highValue, hHigh, h⟩ := h
      obtain ⟨lowValue, hLow, h⟩ := except_bind_eq_ok.mp h
      obtain ⟨decoded, hRest, -⟩ := except_bind_eq_ok.mp h
      have hDot : ∀ {byte value : UInt8}, hexValue byte = .ok value → (0x2e : UInt8) ≠ byte := by
        rintro byte value hValue rfl
        cases hValue
      rw [List.mem_cons, List.mem_cons, not_or, not_or]
      refine ⟨hDot hHigh, hDot hLow, ih ?_ hRest⟩
      simp only [List.length_cons] at hEven
      omega
  | case2 digits hShort =>
      cases digits with
      | nil => simp
      | cons a rest =>
          cases rest with
          | nil => simp at hEven
          | cons b rest => exact absurd rfl (hShort a b rest)

theorem doubledDot_stem {stem : Str} (hStop : Text.endsWith ['.'] stem = false) :
    doubledDot (stem ++ jsonlSuffix) = doubledDot stem := by
  have hSuffix : jsonlSuffix = '.' :: "jsonl".toList := rfl
  rw [doubledDot, hSuffix, Text.contains_double_join hStop (by decide)]
  have hRest : Text.contains ['.', '.'] "jsonl".toList = false := by decide
  rw [hRest, Bool.or_false]

theorem doubledDot_file {file subject : Str} (hFile : parseStreamSubjectFileName file = .ok subject)
    (hSubject : validateSubject subject = .ok ()) : doubledDot file = false := by
  obtain ⟨⟨-, -, hStop, hDouble⟩, -⟩ := validateSubject_eq_ok.mp hSubject
  rw [parseStreamSubjectFileName] at hFile
  split at hFile
  · cases hFile
  · next stem hStem =>
    rw [Text.stripSuffix_eq_some.mp hStem]
    split at hFile
    · next hex hHex =>
      rw [Text.stripPrefix_eq_some.mp hHex]
      obtain ⟨bytes, hDecode, -⟩ := except_bind_eq_ok.mp hFile
      have hDot : '.' ∉ encodedSubjectPrefix ++ hex := by
        rw [List.mem_append, not_or]
        refine ⟨by decide, fun hMem => ?_⟩
        rw [hexDecode] at hDecode
        split_ifs at hDecode with hBad
        have hEven : (Text.asBytes hex).length % 2 = 0 := by
          simp only [Bool.or_eq_true, decide_eq_true_eq, not_or, not_not] at hBad
          exact hBad.2
        exact dot_notMem_decoded hEven hDecode (List.mem_flatMap.mpr ⟨'.', hMem, by decide⟩)
      rw [doubledDot_stem (Text.endsWith_of_notMem hDot)]
      exact Text.contains_double_of_notMem hDot
    · split_ifs at hFile
      cases hFile
      rw [doubledDot_stem hStop]
      exact hDouble

theorem dot_notMem_number {s : Str} {n : Nat} (h : Text.parseU64 s = some n) : '.' ∉ s := by
  have hDigits : '.' ∉ (Text.stripPrefix ['+'] s).getD s := by
    intro hMem
    simp only [Text.parseU64] at h
    split_ifs at h with hBad
    simp only [Bool.or_eq_true, not_or, Bool.not_eq_true', Bool.not_eq_false] at hBad
    exact absurd (List.all_eq_true.mp hBad.1.2 '.' hMem) (by decide)
  cases hSign : Text.stripPrefix ['+'] s with
  | none => simpa [hSign] using hDigits
  | some digits =>
      rw [hSign] at hDigits
      rw [Text.stripPrefix_eq_some.mp hSign, List.singleton_append, List.mem_cons, not_or]
      exact ⟨by decide, hDigits⟩

theorem doubledDot_revisionMarker {marker : Str} {revision : Nat}
    (h : parseKvRevisionMarker marker = .ok (some revision)) : doubledDot marker = false := by
  rw [parseKvRevisionMarker] at h
  split at h
  · cases h
  · next digits hMarker =>
    rw [Text.stripPrefix_eq_some.mp hMarker]
    split_ifs at h
    split at h
    · next value hValue =>
      refine Text.contains_double_of_notMem ?_
      rw [List.singleton_append, List.mem_cons, not_or]
      exact ⟨by decide, dot_notMem_number hValue⟩
    · cases h

theorem wellFormedSubject_of_validated {subject : Str} (h : validateSubject subject = .ok ()) :
    WellFormedSubject subject := by
  obtain ⟨⟨hne, hStart, hStop, hDouble⟩, hChars⟩ := validateSubject_eq_ok.mp h
  have hPlain : ∀ ch ∈ subject, isPlainChar ch = true := by
    intro ch hMem
    have hChar := hChars ch hMem
    simp only [Bool.or_eq_false_iff, beq_eq_false_iff_ne] at hChar
    simp [isPlainChar, hChar]
  rw [wellFormedSubject_iff hPlain, Text.forall_splitOn_ne_nil]
  exact ⟨⟨hne, hStart, hStop⟩, hDouble⟩

theorem isPlainChar_of_token {value : Str} (h : IsToken value) :
    ∀ ch ∈ value, isPlainChar ch = true := fun ch hMem =>
  isPlainChar_of_kvKeyChar (isKvKeyChar_of_token h ch hMem)

/-- Tokens joined by dots are well formed. -/
theorem wellFormedSubject_of_tokens {tokens : List Str} (hne : tokens ≠ [])
    (h : ∀ token ∈ tokens, IsToken token) : WellFormedSubject (['.'].intercalate tokens) := by
  have hChars : ∀ ch ∈ ['.'].intercalate tokens, isPlainChar ch = true := by
    intro ch hMem
    rcases Text.mem_intercalate hMem with hMem | ⟨token, hToken, hMem⟩
    · rw [hMem]
      decide
    · exact isPlainChar_of_token (h token hToken) ch hMem
  rw [wellFormedSubject_iff hChars, List.splitOn_intercalate '.'
    (fun token hToken => (h token hToken).not_mem (by decide)) hne]
  exact fun token hToken => (h token hToken).1

theorem isToken_of_stream {value : Str} (h : validateStream value = .ok ()) : IsToken value :=
  validateToken_eq_ok.mp h

theorem isToken_agentArea (area : AgentArea) : IsToken area.asStr := by
  cases area <;> exact isToken_of_stream (by decide)

theorem isToken_semanticArea (area : SemanticArea) : IsToken area.asStr := by
  cases area <;> exact isToken_of_stream (by decide)

theorem validateKvKey_of_jsonFile {file label : Str} (h : validateJsonFile file label = .ok ()) :
    validateKvKey file = .ok () := by
  rw [validateJsonFile] at h
  split_ifs at h
  obtain ⟨⟨⟩, -, hKey⟩ := except_bind_eq_ok.mp h
  exact hKey

theorem doubledDot_dropLast {parts : List Str} (h : doubledDot (parts.getLastD []) = false) :
    parts.any doubledDot = parts.dropLast.any doubledDot := by
  rcases List.eq_nil_or_concat parts with rfl | ⟨init, last, rfl⟩
  · rfl
  · rw [List.concat_eq_append, List.getLastD_concat] at h
    simp [h]

theorem eventsSubject_wellFormed {log : Str} (hLog : IsToken log) :
    WellFormedSubject ("events.".toList ++ log) := by
  have hText : ['.'].intercalate ["events".toList, log] = "events.".toList ++ log := by simp
  rw [← hText]
  refine wellFormedSubject_of_tokens (by simp) ?_
  rw [List.forall_mem_cons, List.forall_mem_singleton]
  exact ⟨isToken_of_stream (by decide), hLog⟩

theorem mailboxSubject_wellFormed {agent : Str} (hAgent : IsToken agent) (area : AgentArea) :
    WellFormedSubject ("agents.".toList ++ agent ++ '.' :: area.asStr) := by
  have hText : ['.'].intercalate ["agents".toList, agent, area.asStr] =
      "agents.".toList ++ agent ++ '.' :: area.asStr := by
    simp [List.intercalate_cons_cons]
  rw [← hText]
  refine wellFormedSubject_of_tokens (by simp) ?_
  rw [List.forall_mem_cons, List.forall_mem_cons, List.forall_mem_singleton]
  exact ⟨isToken_of_stream (by decide), hAgent, isToken_agentArea area⟩

/-- The subject of what a path with these components shows: one made of a key, which has
doubled dots where the path has them, or one that is well formed. -/
inductive SubjectOf (parts : List Str) : Str → Prop
  | kv {bucket key : Str} (hBucket : IsToken bucket) (hKey : IsKeyText key)
      (hDots : parts.any doubledDot = doubledDot key) : SubjectOf parts (Kv.subject bucket key)
  | stream {subject : Str} (hForm : WellFormedSubject subject)
      (hDots : parts.any doubledDot = false) : SubjectOf parts subject

theorem SubjectOf.wellFormed_iff {parts : List Str} {subject : Str} (h : SubjectOf parts subject) :
    WellFormedSubject subject ↔ parts.any doubledDot = false := by
  cases h with
  | kv hBucket hKey hDots => rw [kvSubject_wellFormed_iff hBucket hKey, hDots]
  | stream hForm hDots => exact iff_of_true hForm hDots

theorem subjectOf_parses {parts : List Str} {subject : Str} {parsed : JetStreamPath}
    (h : Parses parts parsed) (hSubject : natsSubject parsed = some subject) :
    SubjectOf parts subject := by
  cases h with
  | kvKey hBucket hFirst hKey =>
      cases hSubject
      refine .kv hBucket (isKeyText_of_validated (validateKvKey_of_joinKvKey hKey)) ?_
      rw [List.any_cons, List.any_cons, doubledDot_joined hKey, doubledDot_token hBucket]
      rfl
  | kvHistoryKey hBucket hMarker hKey =>
      cases hSubject
      refine .kv hBucket (isKeyText_of_validated (validateKvKey_of_joinKvKey hKey)) ?_
      rw [List.any_cons, List.any_cons, List.any_cons, doubledDot_joined hKey,
        doubledDot_token hBucket]
      rfl
  | kvRevision hBucket hMarker hKey =>
      cases hSubject
      refine .kv hBucket (isKeyText_of_validated (validateKvKey_of_joinKvKey hKey)) ?_
      rw [List.any_cons, List.any_cons, List.any_cons,
        doubledDot_dropLast (doubledDot_revisionMarker hMarker), doubledDot_joined hKey,
        doubledDot_token hBucket]
      rfl
  | streamSubject hStream hFile =>
      cases hSubject
      obtain ⟨hText, hValid⟩ := parseFileName_eq_ok.mp hFile
      refine .stream (wellFormedSubject_of_validated hValid) ?_
      simp only [List.any_cons, List.any_nil, doubledDot_token hStream,
        doubledDot_file hText hValid]
      rfl
  | @eventLog log hStream =>
      cases hSubject
      refine .stream (eventsSubject_wellFormed hStream) ?_
      have hDot : '.' ∉ log := hStream.not_mem (by decide)
      have hFile : doubledDot (log ++ ".jsonl".toList) = false := by
        rw [show ".jsonl".toList = jsonlSuffix from rfl,
          doubledDot_stem (Text.endsWith_of_notMem hDot), doubledDot_token hStream]
      rw [List.any_cons, List.any_cons, hFile]
      rfl
  | task hName hReserved hTask =>
      cases hSubject
      have hKey := isKeyText_of_validated (validateKvKey_of_jsonFile hTask)
      refine .kv (isToken_of_stream (by decide)) (hKey.below hName) ?_
      rw [List.any_cons, List.any_cons, List.any_cons, List.any_nil, Bool.or_false,
        doubledDot_token hName, doubledDot_below _ hName]
      rfl
  | @agentMailbox agent area hName hReserved hArea =>
      simp only [natsSubject, StorageFact.fromJetstreamPath, MaterializedTarget.fromPath,
        agentSubject, hArea, if_true, Option.map_some, StorageFact.fromMaterializedTarget,
        Option.some.injEq] at hSubject
      subst hSubject
      refine .stream (mailboxSubject_wellFormed hName area) ?_
      rw [List.any_cons, List.any_cons, List.any_cons, doubledDot_token hName,
        doubledDot_token (isToken_agentArea area)]
      rfl
  | @agentRecord agent key area parts hName hReserved hArea hKey =>
      have hSame : agent ++ '/' :: area.asStr ++ '/' :: key =
          agent ++ '/' :: (area.asStr ++ '/' :: key) := by simp
      cases hSubject
      have hText := isKeyText_of_validated (validateKvKey_of_joinKvKey hKey)
      rw [hSame]
      refine .kv (isToken_of_stream (by decide))
        ((hText.below (isToken_agentArea area)).below hName) ?_
      rw [List.any_cons, List.any_cons, List.any_cons, doubledDot_joined hKey,
        doubledDot_token hName, doubledDot_token (isToken_agentArea area),
        doubledDot_below _ hName, doubledDot_below _ (isToken_agentArea area)]
      rfl
  | semanticRecord area hKey =>
      cases hSubject
      have hText := isKeyText_of_validated (validateKvKey_of_joinKvKey hKey)
      refine .kv (isToken_of_stream (by decide)) (hText.below (isToken_semanticArea area)) ?_
      rw [List.any_cons, List.any_cons, doubledDot_joined hKey,
        doubledDot_token (isToken_semanticArea area),
          doubledDot_below _ (isToken_semanticArea area)]
      rfl
  | _ => cases hSubject

/-- Two dots in a row are what the checks of a key let through. -/
theorem subject_wellFormed_iff {s subject : Str} {parsed : JetStreamPath}
    (hParse : JetStreamPath.parse s = .ok parsed) (hSubject : natsSubject parsed = some subject) :
    WellFormedSubject subject ↔ Text.contains "..".toList s = false := by
  obtain ⟨parts, hParts, hComponents⟩ := except_bind_eq_ok.mp hParse
  rw [(subjectOf_parses (parseComponents_cases hComponents) hSubject).wellFormed_iff,
    ← doubledDot_components hParts]
  rfl

theorem history_subject_wellFormed :
    WellFormedSubject "$KV.config.app/main".toList ↔
      Text.contains "..".toList "/kv/config/.history/app/main/@7".toList = false := by
  have hParse : JetStreamPath.parse "/kv/config/.history/app/main/@7".toList =
      .ok (.kvRevision "config".toList "app/main".toList 7) := by decide
  exact subject_wellFormed_iff hParse rfl

/-- A key may have an empty token, which the subject of a stream may not. -/
theorem doubled_dot_accepted : ∃ parsed,
    JetStreamPath.parse "/kv/b/a..b".toList = .ok parsed ∧
      natsSubject parsed = some "$KV.b.a..b".toList ∧
      ¬ WellFormedSubject "$KV.b.a..b".toList := by
  refine ⟨.kvKey "b".toList "a..b".toList, by decide, rfl, fun h => ?_⟩
  have hToken := h.tokens [] (by decide)
  exact hToken rfl

end EventFs.Transport.Nats
