import EventFs.Protocol.SubjectPaths

/-!
# Parsed paths and their canonical mount paths

What parses determines a mount path of its own, which parses to the same again. The
spelling of a subject's file name, a revision and a sequence is the only thing lost: the
canonical path writes them anew.
-/

namespace EventFs.Protocol

open Library

/-! ## The components of a string -/

theorem mem_of_mem_trimMatches {c d : Char} {s : Str} (h : c ∈ Text.trimMatches d s) : c ∈ s := by
  rw [Text.trimMatches, Text.trimEndMatches, List.mem_reverse] at h
  have hStart := (List.dropWhile_sublist _).mem h
  rw [List.mem_reverse] at hStart
  exact (List.dropWhile_sublist _).mem hStart

/-- The components of any string the parser accepts are those of a mount path. -/
theorem components_valid {s : Str} {parts : List Str} (h : components s = .ok parts) :
    MountPath.Valid parts := by
  rw [components] at h
  split_ifs at h with hNul
  simp only at h
  split_ifs at h with hEmpty hDots
  · cases h
    simp [MountPath.Valid]
  · cases h
    intro part hPart
    have hShape : ¬ (part.isEmpty || part == ['.'] || part == ['.', '.']) = true := fun hBad =>
      hDots (List.any_eq_true.mpr ⟨part, hPart, hBad⟩)
    simp only [Bool.or_eq_true, List.isEmpty_iff, beq_iff_eq, not_or] at hShape
    rw [MountPath.validMountComponent_iff]
    refine ⟨hShape.1.1, hShape.1.2, hShape.2, ?_, Text.not_mem_of_mem_splitOn hPart⟩
    intro hMem
    exact hNul (by simpa using mem_of_mem_trimMatches (Text.mem_of_mem_splitOn hPart hMem))

theorem parses_of_parse {s : Str} {parsed : JetStreamPath}
    (h : JetStreamPath.parse s = .ok parsed) :
    ∃ parts, MountPath.Valid parts ∧ Parses parts parsed := by
  obtain ⟨parts, hParts, hParse⟩ := except_bind_eq_ok.mp h
  exact ⟨parts, components_valid hParts, parseComponents_cases hParse⟩

/-! ## Parsing what is one of the cases -/

theorem validateBucket_of_token {value : Str} (h : IsToken value) : validateBucket value = .ok () :=
  validateToken_eq_ok.mpr h

theorem validateStream_of_token {value : Str} (h : IsToken value) : validateStream value = .ok () :=
  validateToken_eq_ok.mpr h

theorem ne_nil_of_joinKvKey {parts : List Str} {key : Str} (h : joinKvKey parts = .ok key) :
    parts ≠ [] := (joinKvKey_eq_ok h).1

theorem parseKv_history (bucket : Str) (parts : List Str) :
    parseKv (bucket :: ".history".toList :: parts) = parseKvHistory bucket parts := by
  rw [parseKv, if_pos rfl]

theorem parseKvHistory_key {bucket key : Str} {parts : List Str} (hBucket : IsToken bucket)
    (hMarker : parseKvRevisionMarker (parts.getLastD []) = .ok none)
    (hKey : joinKvKey parts = .ok key) :
    parseKvHistory bucket parts = .ok (.kvHistoryKey bucket key) := by
  rw [parseKvHistory]
  refine except_bind_eq_ok.mpr ⟨(), validateBucket_of_token hBucket, ?_⟩
  rw [if_neg (by simpa using ne_nil_of_joinKvKey hKey)]
  exact except_bind_eq_ok.mpr ⟨none, hMarker, except_bind_eq_ok.mpr ⟨key, hKey, rfl⟩⟩

theorem parseKvHistory_revision {bucket key : Str} {parts : List Str} {revision : Nat}
    (hBucket : IsToken bucket)
    (hMarker : parseKvRevisionMarker (parts.getLastD []) = .ok (some revision))
    (hKey : joinKvKey parts.dropLast = .ok key) :
    parseKvHistory bucket parts = .ok (.kvRevision bucket key revision) := by
  have hFront := ne_nil_of_joinKvKey hKey
  have hne : parts ≠ [] := by
    rintro rfl
    exact hFront rfl
  have hLength : ¬ parts.length = 1 := by
    intro hOne
    apply hFront
    rw [← List.length_eq_zero_iff, List.length_dropLast, hOne]
  rw [parseKvHistory]
  refine except_bind_eq_ok.mpr ⟨(), validateBucket_of_token hBucket, ?_⟩
  rw [if_neg (by simpa using hne)]
  refine except_bind_eq_ok.mpr ⟨some revision, hMarker, ?_⟩
  simp only [if_neg hLength]
  exact except_bind_eq_ok.mpr ⟨key, hKey, rfl⟩

/-- `Parses` has no case that the parser does not accept. -/
theorem Parses.parseComponents {parts : List Str} {parsed : JetStreamPath}
    (h : Parses parts parsed) : JetStreamPath.parseComponents parts = .ok parsed := by
  cases h with
  | root => rfl
  | kvRoot => rfl
  | kvBucket hBucket => exact except_bind_eq_ok.mpr ⟨(), validateBucket_of_token hBucket, rfl⟩
  | @kvKey bucket first key rest hBucket hFirst hKey =>
      show parseKv (bucket :: first :: rest) = _
      rw [parseKv, if_neg hFirst]
      exact except_bind_eq_ok.mpr ⟨(), validateBucket_of_token hBucket,
        except_bind_eq_ok.mpr ⟨key, hKey, rfl⟩⟩
  | @kvHistoryRoot bucket hBucket =>
      show parseKv (bucket :: ".history".toList :: []) = _
      rw [parseKv_history]
      exact except_bind_eq_ok.mpr ⟨(), validateBucket_of_token hBucket, rfl⟩
  | @kvHistoryKey bucket key parts hBucket hMarker hKey =>
      show parseKv (bucket :: ".history".toList :: parts) = _
      rw [parseKv_history, parseKvHistory_key hBucket hMarker hKey]
  | @kvRevision bucket key parts revision hBucket hMarker hKey =>
      show parseKv (bucket :: ".history".toList :: parts) = _
      rw [parseKv_history, parseKvHistory_revision hBucket hMarker hKey]
  | streamsRoot => rfl
  | streamRoot hStream => exact except_bind_eq_ok.mpr ⟨(), validateStream_of_token hStream, rfl⟩
  | streamMessages hStream =>
      exact except_bind_eq_ok.mpr ⟨(), validateStream_of_token hStream, rfl⟩
  | streamMessage hStream hFile =>
      exact except_bind_eq_ok.mpr ⟨(), validateStream_of_token hStream,
        except_bind_eq_ok.mpr ⟨_, hFile, rfl⟩⟩
  | streamSubjects hStream =>
      exact except_bind_eq_ok.mpr ⟨(), validateStream_of_token hStream, rfl⟩
  | streamSubject hStream hFile =>
      exact except_bind_eq_ok.mpr ⟨(), validateStream_of_token hStream,
        except_bind_eq_ok.mpr ⟨_, hFile, rfl⟩⟩
  | objectsRoot => rfl
  | objectBucket hBucket => exact except_bind_eq_ok.mpr ⟨(), validateBucket_of_token hBucket, rfl⟩
  | @object bucket name parts hBucket hName =>
      obtain ⟨first, rest, rfl⟩ := List.exists_cons_of_ne_nil (joinPath_eq_ok hName).1
      exact except_bind_eq_ok.mpr ⟨(), validateBucket_of_token hBucket,
        except_bind_eq_ok.mpr ⟨name, hName, rfl⟩⟩
  | eventsRoot => rfl
  | @eventLog stream hStream =>
      refine except_bind_eq_ok.mpr ⟨stream, ?_, rfl⟩
      rw [parseJsonlStem, Text.stripSuffix_eq_some.mpr rfl]
      exact except_bind_eq_ok.mpr ⟨(), validateStream_of_token hStream, rfl⟩
  | tasksRoot => rfl
  | taskNamespace hName hReserved =>
      exact except_bind_eq_ok.mpr
        ⟨(), validateMaterializedRootName_eq_ok.mpr ⟨hName, hReserved⟩, rfl⟩
  | task hName hReserved hTask =>
      exact except_bind_eq_ok.mpr
        ⟨(), validateMaterializedRootName_eq_ok.mpr ⟨hName, hReserved⟩,
          except_bind_eq_ok.mpr ⟨(), hTask, rfl⟩⟩
  | agentsRoot => rfl
  | agentRoot hName hReserved =>
      exact except_bind_eq_ok.mpr
        ⟨(), validateMaterializedRootName_eq_ok.mpr ⟨hName, hReserved⟩, rfl⟩
  | @agentMailbox agent area hName hReserved hArea =>
      refine except_bind_eq_ok.mpr
        ⟨(), validateMaterializedRootName_eq_ok.mpr ⟨hName, hReserved⟩, ?_⟩
      simp only [AgentArea.parse_eq_some.mpr rfl, if_pos hArea]
      rfl
  | @agentDirectory agent area hName hReserved hArea =>
      refine except_bind_eq_ok.mpr
        ⟨(), validateMaterializedRootName_eq_ok.mpr ⟨hName, hReserved⟩, ?_⟩
      simp only [AgentArea.parse_eq_some.mpr rfl, hArea]
      rfl
  | @agentRecord agent key area parts hName hReserved hArea hKey =>
      obtain ⟨first, rest, rfl⟩ := List.exists_cons_of_ne_nil (ne_nil_of_joinKvKey hKey)
      refine except_bind_eq_ok.mpr
        ⟨(), validateMaterializedRootName_eq_ok.mpr ⟨hName, hReserved⟩, ?_⟩
      simp only [AgentArea.parse_eq_some.mpr rfl, hArea]
      exact except_bind_eq_ok.mpr ⟨key, hKey, rfl⟩
  | semanticRoot => rfl
  | semanticArea area =>
      show parseSemantic [area.asStr] = _
      simp only [parseSemantic, SemanticArea.parse_eq_some.mpr rfl]
      rfl
  | @semanticRecord area key parts hKey =>
      obtain ⟨first, rest, rfl⟩ := List.exists_cons_of_ne_nil (ne_nil_of_joinKvKey hKey)
      show parseSemantic (area.asStr :: first :: rest) = _
      simp only [parseSemantic, SemanticArea.parse_eq_some.mpr rfl]
      exact except_bind_eq_ok.mpr ⟨key, hKey, rfl⟩
  | metadataRoot => rfl
  | @metadataFile name file hFile =>
      show parseMetadata [name] = _
      rw [parseMetadata, hFile]

/-! ## Canonical paths -/

theorem parseU64_lt {s : Str} {n : Nat} (h : Text.parseU64 s = some n) : n < 2 ^ 64 := by
  simp only [Text.parseU64] at h
  split_ifs at h with hBad
  cases h
  simp only [Bool.or_eq_true, decide_eq_true_eq, not_or, not_le] at hBad
  exact hBad.2

theorem parseSequenceFile_lt {file : Str} {sequence : Nat}
    (h : parseSequenceFile file = .ok sequence) : sequence < 2 ^ 64 := by
  rw [parseSequenceFile] at h
  split at h
  · cases h
  · split at h
    · next hNumber =>
      cases h
      exact parseU64_lt hNumber
    · cases h

theorem parseSequenceFile_decimal {sequence : Nat} (h : sequence < 2 ^ 64) :
    parseSequenceFile (Text.decimal sequence ++ ".json".toList) = .ok sequence := by
  rw [parseSequenceFile, Text.stripSuffix_eq_some.mpr rfl]
  simp only [Text.parseU64_decimal h]

theorem parseKvRevisionMarker_lt {marker : Str} {revision : Nat}
    (h : parseKvRevisionMarker marker = .ok (some revision)) : revision < 2 ^ 64 := by
  rw [parseKvRevisionMarker] at h
  split at h
  · cases h
  · split_ifs at h
    split at h
    · next hNumber =>
      cases h
      exact parseU64_lt hNumber
    · cases h

theorem parseKvRevisionMarker_decimal {revision : Nat} (h : revision < 2 ^ 64) :
    parseKvRevisionMarker ('@' :: Text.decimal revision) = .ok (some revision) := by
  have hne : ¬ (Text.decimal revision).isEmpty = true := by
    rw [List.isEmpty_iff]
    exact Nat.toDigits_ne_nil
  have hStrip : Text.stripPrefix ['@'] ('@' :: Text.decimal revision) =
      some (Text.decimal revision) := Text.stripPrefix_append ['@'] _
  simp only [parseKvRevisionMarker, hStrip, if_neg hne, Text.parseU64_decimal h]

theorem validateSubject_eq_ok {subject : Str} :
    validateSubject subject = .ok () ↔
      (subject ≠ [] ∧ Text.startsWith ['.'] subject = false ∧
        Text.endsWith ['.'] subject = false ∧ Text.contains "..".toList subject = false) ∧
      ∀ ch ∈ subject, (Text.isControl ch || Text.isWhitespace ch || ch == '*' || ch == '>') =
        false := by
  rw [validateSubject]
  split_ifs with hShape hChars
  · refine iff_of_false (by simp) ?_
    rintro ⟨⟨hne, hStart, hEnd, hDots⟩, -⟩
    rw [hStart, hEnd, hDots] at hShape
    simp [hne] at hShape
  · refine iff_of_false (by simp) ?_
    rintro ⟨-, hAll⟩
    obtain ⟨ch, hMem, hBad⟩ := List.any_eq_true.mp hChars
    rw [hAll ch hMem] at hBad
    cases hBad
  · simp only [Bool.or_eq_true, List.isEmpty_iff, not_or, Bool.not_eq_true] at hShape
    refine iff_of_true rfl ⟨⟨hShape.1.1.1, hShape.1.1.2, hShape.1.2, hShape.2⟩, fun ch hMem => ?_⟩
    rw [← Bool.not_eq_true]
    exact fun hBad => hChars (List.any_eq_true.mpr ⟨ch, hMem, hBad⟩)

theorem parseFileName_eq_ok {file : Str} {subject : StreamSubject} :
    StreamSubject.parseFileName file = .ok subject ↔
      parseStreamSubjectFileName file = .ok subject.asStr ∧
        validateSubject subject.asStr = .ok () := by
  rw [StreamSubject.parseFileName, except_bind_eq_ok]
  constructor
  · rintro ⟨text, hText, h⟩
    obtain ⟨⟨⟩, hSubject, h⟩ := except_bind_eq_ok.mp h
    cases h
    exact ⟨hText, hSubject⟩
  · rintro ⟨hText, hSubject⟩
    exact ⟨subject.asStr, hText, except_bind_eq_ok.mpr ⟨(), hSubject, rfl⟩⟩

theorem parseFileName_fileName {file : Str} {subject : StreamSubject}
    (h : StreamSubject.parseFileName file = .ok subject) :
    StreamSubject.parseFileName (streamSubjectFileNameFromStr subject.asStr) = .ok subject := by
  obtain ⟨-, hSubject⟩ := parseFileName_eq_ok.mp h
  have hne := (validateSubject_eq_ok.mp hSubject).1.1
  exact parseFileName_eq_ok.mpr ⟨parseStreamSubjectFileName_fileName hne, hSubject⟩

theorem validMountComponent_of_head {c : Char} {rest : Str} (hDot : c ≠ '.')
    (hNul : '\x00' ∉ c :: rest) (hSlash : '/' ∉ c :: rest) :
    validMountComponent (c :: rest) = true := by
  rw [MountPath.validMountComponent_iff]
  exact ⟨by simp, by simp [hDot], by simp [hDot], hNul, hSlash⟩

theorem not_mem_decimal {c : Char} (h : Text.isDigit c = false) (n : Nat) : c ∉ Text.decimal n := by
  intro hMem
  rw [Text.isDigit_of_mem_decimal hMem] at h
  cases h

theorem revisionMarker_valid (revision : Nat) :
    validMountComponent ('@' :: Text.decimal revision) = true := by
  refine validMountComponent_of_head (by decide) ?_ ?_
  · rw [List.mem_cons, not_or]
    exact ⟨by decide, not_mem_decimal (by decide) revision⟩
  · rw [List.mem_cons, not_or]
    exact ⟨by decide, not_mem_decimal (by decide) revision⟩

theorem sequenceFile_valid (sequence : Nat) :
    validMountComponent (Text.decimal sequence ++ ".json".toList) = true := by
  have hChars : ∀ c, Text.isDigit c = false → c ∉ ".json".toList →
      c ∉ Text.decimal sequence ++ ".json".toList := by
    intro c hDigit hSuffix
    rw [List.mem_append, not_or]
    exact ⟨not_mem_decimal hDigit sequence, hSuffix⟩
  have hNul := hChars '\x00' (by decide) (by decide)
  have hSlash := hChars '/' (by decide) (by decide)
  have hne : Text.decimal sequence ≠ [] := Nat.toDigits_ne_nil
  obtain ⟨digit, digits, hDigits⟩ := List.exists_cons_of_ne_nil hne
  have hMem : digit ∈ Text.decimal sequence := hDigits ▸ List.mem_cons_self
  have hFirst := Text.isDigit_of_mem_decimal hMem
  rw [hDigits] at hNul hSlash ⊢
  refine validMountComponent_of_head ?_ hNul hSlash
  rintro rfl
  cases hFirst

/-- A tail of one component. -/
theorem joinStoragePath_component {fixed : List Str} {name : Str}
    (hValid : MountPath.Valid (fixed ++ [name])) :
    joinStoragePath fixed (some name) = .ok (MountPath.ofValid hValid) := by
  have hName := hValid name (by simp)
  rw [joinStoragePath_single (MountPath.slash_not_mem_of_valid hName)
    (MountPath.ne_nil_of_valid hName), MountPath.components_ofValid]

/-- A tail of several components. -/
theorem joinStoragePath_key {fixed names : List Str} (hne : names ≠ [])
    (hValid : MountPath.Valid (fixed ++ names)) :
    joinStoragePath fixed (some (['/'].intercalate names)) = .ok (MountPath.ofValid hValid) := by
  have hNames := (MountPath.valid_append.mp hValid).2
  rw [joinStoragePath_eq_ok, MountPath.components_ofValid,
    MountPath.splitOn_intercalate_of_valid hNames hne]
  exact ⟨fun hNil => hne (intercalate_eq_nil hNames hNil), rfl⟩

theorem joinStoragePath_fixed {fixed : List Str} (hValid : MountPath.Valid fixed) :
    joinStoragePath fixed none = .ok (MountPath.ofValid hValid) :=
  joinStoragePath_none.mpr ⟨hValid, MountPath.components_ofValid hValid⟩

theorem MountPath.new_render {parts : List Str} (hValid : MountPath.Valid parts) :
    MountPath.new (MountPath.render parts) = .ok (MountPath.ofValid hValid) :=
  MountPath.new_asStr (MountPath.ofValid hValid)

/-- The canonical path of what parses has components that parse to the same. -/
theorem Parses.canonical {parts : List Str} {parsed : JetStreamPath} (h : Parses parts parsed)
    (hValid : MountPath.Valid parts) :
    ∃ path, mountPathFromJetstreamPath parsed = .ok path ∧ Parses path.components parsed := by
  have hSame : ∀ {result : Except EventFsError MountPath},
      result = .ok (MountPath.ofValid hValid) →
        ∃ path, result = .ok path ∧ Parses path.components parsed := by
    intro result hResult
    exact ⟨_, hResult, by rw [MountPath.components_ofValid]; exact h⟩
  cases h with
  | root => exact hSame (MountPath.new_render hValid)
  | kvRoot => exact hSame (MountPath.new_render hValid)
  | kvBucket => exact hSame (joinStoragePath_fixed hValid)
  | kvKey hBucket hFirst hKey =>
      obtain ⟨hne, rfl⟩ := joinKvKey_eq_ok hKey
      exact hSame (joinStoragePath_key hne hValid)
  | kvHistoryRoot => exact hSame (joinStoragePath_fixed hValid)
  | kvHistoryKey hBucket hMarker hKey =>
      obtain ⟨hne, rfl⟩ := joinKvKey_eq_ok hKey
      exact hSame (joinStoragePath_key hne hValid)
  | @kvRevision bucket key parts revision hBucket hMarker hKey =>
      have hRevision := parseKvRevisionMarker_lt hMarker
      obtain ⟨hne, rfl⟩ := joinKvKey_eq_ok hKey
      have hNames : MountPath.Valid parts.dropLast := fun part hPart =>
        hValid part (by simp [List.dropLast_subset _ hPart])
      have hPath : MountPath.Valid (["kv".toList, bucket, ".history".toList] ++
          (parts.dropLast ++ ['@' :: Text.decimal revision])) := by
        refine MountPath.valid_append.mpr ⟨fun part hPart => hValid part ?_,
          MountPath.valid_append.mpr ⟨hNames, ?_⟩⟩
        · exact List.mem_append_left parts hPart
        · simpa [MountPath.Valid] using revisionMarker_valid revision
      have hTail : ['/'].intercalate parts.dropLast ++ "/@".toList ++ Text.decimal revision =
          ['/'].intercalate (parts.dropLast ++ ['@' :: Text.decimal revision]) := by
        rw [Text.intercalate_append hne (by simp)]
        simp
      refine ⟨MountPath.ofValid hPath, ?_, ?_⟩
      · simp only [mountPathFromJetstreamPath, hTail]
        exact joinStoragePath_key (by simp) hPath
      · have hLast : parseKvRevisionMarker
            ((parts.dropLast ++ ['@' :: Text.decimal revision]).getLastD []) =
              .ok (some revision) := by
          rw [List.getLastD_concat, parseKvRevisionMarker_decimal hRevision]
        have hFront : joinKvKey (parts.dropLast ++ ['@' :: Text.decimal revision]).dropLast =
            .ok (['/'].intercalate parts.dropLast) := by
          rwa [List.dropLast_concat]
        rw [MountPath.components_ofValid]
        exact .kvRevision hBucket hLast hFront
  | streamsRoot => exact hSame (MountPath.new_render hValid)
  | streamRoot => exact hSame (joinStoragePath_fixed hValid)
  | streamMessages => exact hSame (joinStoragePath_fixed hValid)
  | @streamMessage stream file sequence hStream hFile =>
      have hPath : MountPath.Valid (["streams".toList, stream, "messages".toList] ++
          [Text.decimal sequence ++ ".json".toList]) := by
        refine MountPath.valid_append.mpr ⟨fun part hPart => hValid part ?_, ?_⟩
        · exact List.mem_append_left [file] hPart
        · simpa [MountPath.Valid] using sequenceFile_valid sequence
      refine ⟨MountPath.ofValid hPath, joinStoragePath_component hPath, ?_⟩
      rw [MountPath.components_ofValid]
      exact .streamMessage hStream (parseSequenceFile_decimal (parseSequenceFile_lt hFile))
  | streamSubjects => exact hSame (joinStoragePath_fixed hValid)
  | @streamSubject stream file subject hStream hFile =>
      have hPath : MountPath.Valid (["streams".toList, stream, "subjects".toList] ++
          [streamSubjectFileNameFromStr subject.asStr]) := by
        refine MountPath.valid_append.mpr ⟨fun part hPart => hValid part ?_, ?_⟩
        · exact List.mem_append_left [file] hPart
        · simpa [MountPath.Valid] using fileName_valid subject.asStr
      refine ⟨MountPath.ofValid hPath, joinStoragePath_component hPath, ?_⟩
      rw [MountPath.components_ofValid]
      exact .streamSubject hStream (parseFileName_fileName hFile)
  | objectsRoot => exact hSame (MountPath.new_render hValid)
  | objectBucket => exact hSame (joinStoragePath_fixed hValid)
  | object hBucket hName =>
      obtain ⟨hne, rfl⟩ := joinPath_eq_ok hName
      exact hSame (joinStoragePath_key hne hValid)
  | eventsRoot => exact hSame (MountPath.new_render hValid)
  | eventLog => exact hSame (joinStoragePath_component hValid)
  | tasksRoot => exact hSame (MountPath.new_render hValid)
  | taskNamespace => exact hSame (joinStoragePath_fixed hValid)
  | task => exact hSame (joinStoragePath_component hValid)
  | agentsRoot => exact hSame (MountPath.new_render hValid)
  | agentRoot => exact hSame (joinStoragePath_fixed hValid)
  | agentMailbox => exact hSame (joinStoragePath_fixed hValid)
  | agentDirectory => exact hSame (joinStoragePath_fixed hValid)
  | agentRecord hName hReserved hArea hKey =>
      obtain ⟨hne, rfl⟩ := joinKvKey_eq_ok hKey
      exact hSame (joinStoragePath_key hne hValid)
  | semanticRoot => exact hSame (MountPath.new_render hValid)
  | semanticArea => exact hSame (joinStoragePath_fixed hValid)
  | semanticRecord area hKey =>
      obtain ⟨hne, rfl⟩ := joinKvKey_eq_ok hKey
      exact hSame (joinStoragePath_key hne hValid)
  | metadataRoot => exact hSame (MountPath.new_render hValid)
  | metadataFile hFile =>
      obtain rfl := MetadataFile.parse_eq_some.mp hFile
      exact hSame (joinStoragePath_fixed hValid)

/-- Every path that parses has a canonical mount path, which parses to the same; it is
shared with no other path. -/
theorem canonical_path_parses {s : Str} {parsed : JetStreamPath}
    (h : JetStreamPath.parse s = .ok parsed) :
    ∃ path, mountPathFromJetstreamPath parsed = .ok path ∧
      JetStreamPath.parse path.asStr = .ok parsed ∧
      ∀ t other, JetStreamPath.parse t = .ok other →
        mountPathFromJetstreamPath other = .ok path → other = parsed := by
  obtain ⟨parts, hValid, hParses⟩ := parses_of_parse h
  obtain ⟨path, hPath, hCanonical⟩ := hParses.canonical hValid
  refine ⟨path, hPath, ?_, ?_⟩
  · rw [parse_asStr, hCanonical.parseComponents]
  · intro t other hOther hShared
    obtain ⟨otherParts, hOtherValid, hOtherParses⟩ := parses_of_parse hOther
    obtain ⟨otherPath, hOtherPath, hOtherCanonical⟩ := hOtherParses.canonical hOtherValid
    rw [hShared] at hOtherPath
    cases hOtherPath
    have hSame := hOtherCanonical.parseComponents.symm.trans hCanonical.parseComponents
    exact Except.ok.inj hSame

theorem signed_sequence_canonical :
    JetStreamPath.parse "/streams/ORDERS/messages/+042.json".toList =
        .ok (.streamMessage "ORDERS".toList 42) ∧
      ∃ path, mountPathFromJetstreamPath (.streamMessage "ORDERS".toList 42) = .ok path ∧
        JetStreamPath.parse path.asStr = .ok (.streamMessage "ORDERS".toList 42) ∧
        ∀ t other, JetStreamPath.parse t = .ok other →
          mountPathFromJetstreamPath other = .ok path →
            other = .streamMessage "ORDERS".toList 42 := by
  have hParse : JetStreamPath.parse "/streams/ORDERS/messages/+042.json".toList =
      .ok (.streamMessage "ORDERS".toList 42) := by decide
  exact ⟨hParse, canonical_path_parses hParse⟩

end EventFs.Protocol
