import EventFs.Protocol.RoundTrip

/-!
# The paths of a fact and the facts of a path

`visiblePaths` derives paths from a fact, `fromJetstreamPath` a fact from a path. Going
from a fact to one of its paths and back leads to the same fact. Going from a path to its
fact and back leads to the same path only if the path is spelled as the mount spells it.
-/

namespace EventFs.Protocol

open Library

/-! ## The fact of a path -/

/-- A path with these components, if it parses, has this fact. -/
inductive Denotes : List Str → StorageFact → Prop
  | value {parts : List Str} {fact : StorageFact} (hShows : Shows parts fact) : Denotes parts fact
  | subject {stream file subject : Str} (hFile : parseStreamSubjectFileName file = .ok subject) :
      Denotes ["streams".toList, stream, "subjects".toList, file] (.streamSubject stream subject)
  | event (stream : Str) :
      Denotes ["events".toList, stream ++ ".jsonl".toList]
        (.streamSubject stream ("events.".toList ++ stream))
  | mailbox (agent : Str) (area : AgentArea) :
      Denotes ["agents".toList, agent, area.asStr]
        (.streamSubject agentsStream ("agents.".toList ++ agent ++ '.' :: area.asStr))

theorem denotes_of_parse {path : MountPath} {parsed : JetStreamPath} {fact : StorageFact}
    (hParse : JetStreamPath.parse path.asStr = .ok parsed)
    (hFact : StorageFact.fromJetstreamPath parsed = some fact) :
    Denotes path.components fact := by
  by_cases hValue : parsed.isValue = true
  · obtain ⟨shown, hShown, hShows⟩ := shows_of_parse hParse hValue
    rw [hFact] at hShown
    cases hShown
    exact .value hShows
  · have hParses := parse_cases hParse
    generalize path.components = parts at hParses
    cases hParses with
    | streamSubject hStream hFile =>
        cases hFact
        exact .subject (parseFileName_eq_ok.mp hFile).1
    | eventLog hStream =>
        cases hFact
        exact .event _
    | @agentMailbox agent area hName hReserved hArea =>
        simp only [StorageFact.fromJetstreamPath, MaterializedTarget.fromPath, agentSubject, hArea,
          if_true, Option.map_some, Option.some.injEq] at hFact
        subst hFact
        exact .mailbox agent area
    | kvKey | object | task | agentRecord | semanticRecord => exact absurd rfl hValue
    | _ => cases hFact

/-- A value is not shown where a subject is. -/
theorem Shows.not_subjectPath {parts : List Str} {fact : StorageFact} {stream subject : Str}
    (h : Shows parts fact) : ¬ SubjectPath parts stream subject := by
  intro hPath
  cases hPath with
  | exact =>
      generalize hParts : _ :: _ = parts at h
      cases h <;> simp at hParts
  | events =>
      generalize hParts : _ :: _ = parts at h
      cases h <;> simp at hParts
  | mailbox agent area =>
      generalize hParts : _ :: _ = parts at h
      cases h with
      | agent _ _ hne =>
          simp only [List.cons.injEq] at hParts
          exact hne hParts.2.2.2.symm
      | _ => simp at hParts

theorem Shows.not_subjectFile {parts : List Str} {fact : StorageFact} {stream file : Str}
    (h : Shows parts fact) :
    parts ≠ ["streams".toList, stream, "subjects".toList, file] := by
  cases h <;> simp

/-- A stream is shown at no path of a value. -/
theorem Shows.not_stream {parts : List Str} {stream subject : Str} :
    ¬ Shows parts (.streamSubject stream subject) := by
  intro h
  cases h

/-- What a path of a value denotes is the value. -/
theorem Denotes.eq_of_shows {parts : List Str} {fact other : StorageFact}
    (h : Denotes parts other) (hShows : Shows parts fact) : other = fact := by
  cases h with
  | value hOther => exact hOther.functional hShows
  | subject => exact absurd rfl hShows.not_subjectFile
  | event stream => exact absurd (.events stream) hShows.not_subjectPath
  | mailbox agent area => exact absurd (.mailbox agent area) hShows.not_subjectPath

theorem SubjectPath.file_eq {shown file stream subject : Str}
    (h : SubjectPath ["streams".toList, shown, "subjects".toList, file] stream subject) :
    file = streamSubjectFileNameFromStr subject := by
  generalize hParts : ["streams".toList, shown, "subjects".toList, file] = parts at h
  cases h <;> simp_all

/-- What a path of a subject denotes is the subject. -/
theorem Denotes.eq_of_subjectPath {parts : List Str} {stream subject : Str} {other : StorageFact}
    (h : Denotes parts other) (hPath : SubjectPath parts stream subject) :
    other = .streamSubject stream subject := by
  cases h with
  | value hOther => exact absurd hPath hOther.not_subjectPath
  | @subject shown file named hNamed =>
      generalize hParts : _ :: _ = parts at hPath
      cases hPath with
      | exact =>
          simp only [List.cons.injEq, true_and, and_true] at hParts
          obtain ⟨rfl, rfl⟩ := hParts
          by_cases hne : subject = []
          · subst hne
            cases hNamed
          · rw [parseStreamSubjectFileName_fileName hne] at hNamed
            cases hNamed
            rfl
      | _ => simp at hParts
  | event log =>
      obtain ⟨rfl, rfl⟩ := hPath.functional (.events log)
      rfl
  | mailbox agent area =>
      obtain ⟨rfl, rfl⟩ := hPath.functional (.mailbox agent area)
      rfl

/-- What one of the paths of a fact denotes is the fact. -/
theorem Denotes.eq_of_visible {fact other : StorageFact} {path : MountPath}
    {paths : List AffectedPath} (h : Denotes path.components other)
    (hPaths : visiblePaths fact = .ok paths) (hMem : path ∈ paths.map (·.path)) :
    other = fact := by
  cases fact with
  | kv bucket key => exact h.eq_of_shows (mem_visiblePaths_kv.mp ⟨paths, hPaths, hMem⟩)
  | object bucket name => exact h.eq_of_shows (mem_visiblePaths_object.mp ⟨paths, hPaths, hMem⟩)
  | streamSubject stream subject => exact h.eq_of_subjectPath (subjectPath_of_mem hPaths hMem)

/-! ## The list of visible paths -/

/-- The components of the native path of a fact. -/
def StorageFact.nativeComponents : StorageFact → List Str
  | .kv bucket key => ["kv".toList, bucket] ++ key.splitOn '/'
  | .streamSubject stream subject =>
      ["streams".toList, stream, "subjects".toList, streamSubjectFileNameFromStr subject]
  | .object bucket name => ["objects".toList, bucket] ++ name.splitOn '/'

/-- What pushing paths never loses: the paths stay distinct, and the first one first. -/
structure Grows (paths pushed : List AffectedPath) : Prop where
  kept : paths <+: pushed
  distinct : (paths.map (·.path)).Nodup → (pushed.map (·.path)).Nodup

namespace Grows

theorem refl (paths : List AffectedPath) : Grows paths paths := ⟨List.prefix_refl paths, id⟩

theorem trans {paths between pushed : List AffectedPath} (h : Grows paths between)
    (hRest : Grows between pushed) : Grows paths pushed :=
  ⟨h.kept.trans hRest.kept, fun hDistinct => hRest.distinct (h.distinct hDistinct)⟩

theorem pushUnique (paths : List AffectedPath) (affected : AffectedPath) :
    Grows paths (Protocol.pushUnique paths affected) := by
  rw [Protocol.pushUnique]
  split_ifs with hAny
  · exact .refl paths
  · refine ⟨List.prefix_append paths [affected], fun hDistinct => ?_⟩
    have hNew : affected.path ∉ paths.map (·.path) := by
      intro hMem
      obtain ⟨candidate, hCandidate, hSame⟩ := List.mem_map.mp hMem
      exact hAny (List.any_eq_true.mpr ⟨candidate, hCandidate, by simpa using hSame⟩)
    rw [List.map_append, List.map_singleton, List.nodup_append]
    refine ⟨hDistinct, by simp, fun path hPath other hOther hEq => hNew ?_⟩
    rwa [← List.mem_singleton.mp hOther, ← hEq]

theorem pushStoragePath {paths pushed : List AffectedPath} {reason : AffectedPathReason}
    {fixed : List Str} {tail : Option Str}
    (h : Protocol.pushStoragePath paths reason fixed tail = .ok pushed) : Grows paths pushed := by
  obtain ⟨path, -, h⟩ := except_bind_eq_ok.mp h
  cases h
  exact .pushUnique paths _

theorem pushKvAliasPaths {paths pushed : List AffectedPath} {bucket key : Str}
    (h : Protocol.pushKvAliasPaths paths bucket key = .ok pushed) : Grows paths pushed := by
  rw [Protocol.pushKvAliasPaths] at h
  split_ifs at h
  · exact .pushStoragePath h
  · split at h
    · cases h
      exact .refl paths
    · exact .pushStoragePath h
  · exact .pushStoragePath h
  · cases h
    exact .refl paths

theorem pushStreamAliasPaths {paths pushed : List AffectedPath} {stream subject : Str}
    (h : Protocol.pushStreamAliasPaths paths stream subject = .ok pushed) :
    Grows paths pushed := by
  obtain ⟨logs, hLogs, hPushed⟩ := pushStreamAliasPaths_eq_ok.mp h
  have hLog : Grows paths logs := by
    split_ifs at hLogs
    · exact .pushStoragePath hLogs
    · cases hLogs
      exact .refl paths
  refine hLog.trans ?_
  split at hPushed
  · next joined _ =>
    cases joined with
    | error err => cases hPushed
    | ok path =>
        cases hPushed
        exact .pushUnique logs _
  · cases hPushed
    exact .refl _

end Grows

/-- The native path is pushed first, and the aliases behind it. -/
theorem visiblePaths_native {fact : StorageFact} {paths : List AffectedPath}
    (h : visiblePaths fact = .ok paths) :
    ∃ native : MountPath, native.components = fact.nativeComponents ∧
      Grows [⟨native, .exact⟩] paths := by
  cases fact with
  | kv bucket key =>
      obtain ⟨exact, hExact, hAliases⟩ := except_bind_eq_ok.mp h
      obtain ⟨native, hNative, hPushed⟩ := except_bind_eq_ok.mp hExact
      cases hPushed
      exact ⟨native, (joinStoragePath_eq_ok.mp hNative).2, .pushKvAliasPaths hAliases⟩
  | streamSubject stream subject =>
      obtain ⟨exact, hExact, hAliases⟩ := except_bind_eq_ok.mp h
      obtain ⟨native, hNative, hPushed⟩ := except_bind_eq_ok.mp hExact
      cases hPushed
      rw [joinStoragePath_single (slash_notMem_fileName subject) (fileName_ne_nil subject)]
        at hNative
      exact ⟨native, hNative, .pushStreamAliasPaths hAliases⟩
  | object bucket name =>
      obtain ⟨native, hNative, hPushed⟩ := except_bind_eq_ok.mp h
      cases hPushed
      exact ⟨native, (joinStoragePath_eq_ok.mp hNative).2, .refl _⟩

/-- The paths of a fact are distinct, the native one comes first, and none of them is the
path of another fact. -/
theorem visiblePaths_own_fact {fact : StorageFact} {paths : List AffectedPath}
    (h : visiblePaths fact = .ok paths) :
    (paths.map (·.path)).Nodup ∧
      (∃ native aliases, paths = native :: aliases ∧ native.reason = .exact ∧
        native.path.components = fact.nativeComponents) ∧
      ∀ affected ∈ paths, ∀ parsed other,
        JetStreamPath.parse affected.path.asStr = .ok parsed →
          StorageFact.fromJetstreamPath parsed = some other → other = fact := by
  obtain ⟨native, hNative, hGrows⟩ := visiblePaths_native h
  obtain ⟨aliases, hPaths⟩ := hGrows.kept
  refine ⟨hGrows.distinct (by simp), ⟨⟨native, .exact⟩, aliases, hPaths.symm, rfl, hNative⟩, ?_⟩
  intro affected hMem parsed other hParse hOther
  exact (denotes_of_parse hParse hOther).eq_of_visible h (List.mem_map_of_mem hMem)

theorem task_paths_own_fact : ∃ paths,
    visiblePaths (.kv tasksBucket "ns/job.json".toList) = .ok paths ∧
      (paths.map (·.path)).Nodup ∧
      (∃ native aliases, paths = native :: aliases ∧ native.reason = .exact ∧
        native.path.components =
          (StorageFact.kv tasksBucket "ns/job.json".toList).nativeComponents) ∧
      ∀ affected ∈ paths, ∀ parsed other,
        JetStreamPath.parse affected.path.asStr = .ok parsed →
          StorageFact.fromJetstreamPath parsed = some other →
            other = .kv tasksBucket "ns/job.json".toList := by
  obtain ⟨paths, hPaths, -⟩ := visiblePaths_kv_ok
    (show "ns/job.json".toList ≠ [] by decide)
    (show MountPath.Valid ("kv".toList :: tasksBucket :: "ns/job.json".toList.splitOn '/') by
      decide)
  exact ⟨paths, hPaths, visiblePaths_own_fact hPaths⟩

/-! ## The spelling of a subject's file -/

def isUpperHexDigit (byte : UInt8) : Bool := 0x41 ≤ byte && byte ≤ 0x46

def lowerHexDigit (byte : UInt8) : UInt8 := if isUpperHexDigit byte then byte + 0x20 else byte

theorem hexValue_spelling : ∀ n < 256,
    ((hexValue (UInt8.ofNat n)).toOption.all fun nibble => decide (nibble.toNat < 16) &&
      Text.asBytes [hexDigit nibble.toNat] == [lowerHexDigit (UInt8.ofNat n)]) = true := by
  decide +kernel

theorem hexNibbles : ∀ high < 16, ∀ low < 16,
    ((UInt8.ofNat high <<< 4) ||| UInt8.ofNat low) >>> 4 = UInt8.ofNat high ∧
      ((UInt8.ofNat high <<< 4) ||| UInt8.ofNat low) &&& 0x0f = UInt8.ofNat low := by
  decide +kernel

theorem lowerHexDigit_eq_self : ∀ n < 256,
    lowerHexDigit (UInt8.ofNat n) = UInt8.ofNat n ↔ isUpperHexDigit (UInt8.ofNat n) = false := by
  decide +kernel

theorem hexValue_eq_ok {byte nibble : UInt8} (h : hexValue byte = .ok nibble) :
    nibble.toNat < 16 ∧ Text.asBytes [hexDigit nibble.toNat] = [lowerHexDigit byte] := by
  have hSpelling := hexValue_spelling byte.toNat byte.toNat_lt
  rw [UInt8.ofNat_toNat, h] at hSpelling
  simpa [Except.toOption] using hSpelling

/-- Encoding what has been decoded writes the digits in lower case. -/
theorem asBytes_hexEncode_decoded {digits bytes : Bytes} (hEven : digits.length % 2 = 0)
    (h : hexDecodePairs digits = .ok bytes) :
    Text.asBytes (hexEncode bytes) = digits.map lowerHexDigit := by
  induction digits using hexDecodePairs.induct generalizing bytes with
  | case1 high low rest ih =>
      obtain ⟨highValue, hHigh, h⟩ := except_bind_eq_ok.mp h
      obtain ⟨lowValue, hLow, h⟩ := except_bind_eq_ok.mp h
      obtain ⟨decoded, hDecoded, h⟩ := except_bind_eq_ok.mp h
      cases h
      obtain ⟨hHighLt, hHighText⟩ := hexValue_eq_ok hHigh
      obtain ⟨hLowLt, hLowText⟩ := hexValue_eq_ok hLow
      obtain ⟨hFirst, hSecond⟩ := hexNibbles _ hHighLt _ hLowLt
      rw [UInt8.ofNat_toNat, UInt8.ofNat_toNat] at hFirst hSecond
      have hSplit : hexEncode (((highValue <<< 4) ||| lowValue) :: decoded) =
          [hexDigit highValue.toNat] ++ ([hexDigit lowValue.toNat] ++ hexEncode decoded) := by
        simp only [hexEncode, List.flatMap_cons, hFirst, hSecond]
        rfl
      have hRest : rest.length % 2 = 0 := by
        simp only [List.length_cons] at hEven
        omega
      rw [hSplit, Text.asBytes_append, Text.asBytes_append, hHighText, hLowText,
        ih hRest hDecoded]
      rfl
  | case2 digits hShort =>
      rcases digits with _ | ⟨high, _ | ⟨low, rest⟩⟩
      · cases h
        rfl
      · simp at hEven
      · exact absurd rfl (hShort high low rest)

theorem map_lowerHexDigit_eq_self {digits : Bytes} :
    digits.map lowerHexDigit = digits ↔ ∀ byte ∈ digits, isUpperHexDigit byte = false := by
  have hId : digits.map lowerHexDigit = digits ↔ digits.map lowerHexDigit = digits.map id := by
    rw [List.map_id]
  rw [hId, List.map_inj_left]
  refine forall₂_congr fun byte _ => ?_
  have hByte := lowerHexDigit_eq_self byte.toNat byte.toNat_lt
  rwa [UInt8.ofNat_toNat] at hByte

theorem hexEncode_decoded_iff {hex : Str} {bytes : Bytes} (h : hexDecode hex = .ok bytes) :
    hexEncode bytes = hex ↔ ∀ byte ∈ Text.asBytes hex, isUpperHexDigit byte = false := by
  rw [hexDecode] at h
  split_ifs at h with hBad
  simp only [Bool.or_eq_true, decide_eq_true_eq, not_or, not_not] at hBad
  have hText := asBytes_hexEncode_decoded hBad.2 h
  rw [← map_lowerHexDigit_eq_self, ← hText]
  exact ⟨congrArg Text.asBytes, Text.asBytes_injective⟩

/-- A subject's file as the mount itself names it: in hexadecimal only if the subject
needs it, and then in lower case. -/
def WellSpelled (file : Str) : Prop :=
  ∀ hex, file = encodedSubjectPrefix ++ hex ++ jsonlSuffix →
    (∀ byte ∈ Text.asBytes hex, isUpperHexDigit byte = false) ∧
      ∀ subject, parseStreamSubjectFileName file = .ok subject →
        isPlainSubjectFileStem subject = false

theorem encodedFile_inj {hex hex' : Str}
    (h : encodedSubjectPrefix ++ hex ++ jsonlSuffix = encodedSubjectPrefix ++ hex' ++ jsonlSuffix) :
    hex = hex' := List.append_cancel_left (List.append_cancel_right h)

theorem fileName_eq_iff {file subject : Str} (h : parseStreamSubjectFileName file = .ok subject) :
    streamSubjectFileNameFromStr subject = file ↔ WellSpelled file := by
  have hParse := h
  rw [parseStreamSubjectFileName] at h
  split at h
  · cases h
  · next stem hStem =>
    obtain rfl := Text.stripSuffix_eq_some.mp hStem
    split at h
    · next hex hHex =>
      obtain rfl := Text.stripPrefix_eq_some.mp hHex
      obtain ⟨bytes, hDecode, h⟩ := except_bind_eq_ok.mp h
      split at h
      · next text hText =>
        cases h
        obtain rfl := Text.fromUtf8_eq_some.mp hText
        rw [streamSubjectFileNameFromStr]
        constructor
        · intro hName hex' hFile
          obtain rfl := encodedFile_inj hFile
          split_ifs at hName with hPlain
          · exact absurd (List.append_cancel_right hName) (plain_not_encoded hPlain hex)
          · refine ⟨(hexEncode_decoded_iff hDecode).mp (encodedFile_inj hName), ?_⟩
            intro other hOther
            rw [hParse] at hOther
            cases hOther
            simpa using hPlain
        · intro hSpelled
          obtain ⟨hLower, hPlain⟩ := hSpelled hex rfl
          rw [hPlain subject hParse, if_neg (by decide),
            (hexEncode_decoded_iff hDecode).mpr hLower]
      · cases h
    · next hNone =>
      split_ifs at h with hPlain
      cases h
      rw [streamSubjectFileNameFromStr, if_pos hPlain]
      refine iff_of_true rfl fun hex hFile => ?_
      exact absurd (List.append_cancel_right hFile) (plain_not_encoded hPlain hex)

/-! ## Paths at which their own fact is visible -/

theorem nul_notMem_of_validateSubject {subject : Str} (h : validateSubject subject = .ok ()) :
    '\x00' ∉ subject := by
  intro hMem
  have hChar := (validateSubject_eq_ok.mp h).2 '\x00' hMem
  cases hChar

theorem not_hiddenMailbox_events (stream log : Str) :
    ¬ HiddenMailbox stream ("events.".toList ++ log) := by
  rintro ⟨-, agent, area, hParts, -⟩
  have hSubject := (agentMailboxSubjectParts_eq_some hParts).1
  simp at hSubject

theorem not_hiddenMailbox_token {agent : Str} {area : AgentArea} {stream : Str}
    (hAgent : IsToken agent) :
    ¬ HiddenMailbox stream ("agents.".toList ++ agent ++ '.' :: area.asStr) := by
  rintro ⟨-, other, shown, hParts, hSlash⟩
  have hSplit := splitOn_mailbox (hAgent.not_mem (by decide)) area
  rw [agentMailboxSubjectParts, hSplit] at hParts
  simp only at hParts
  split_ifs at hParts
  split at hParts
  · split_ifs at hParts
    cases hParts
    exact hAgent.not_mem (by decide) hSlash
  · cases hParts

/-- The mount spells the path so, and can name the paths of its fact. -/
structure OwnSpelling (parts : List Str) (fact : StorageFact) : Prop where
  file : ∀ stream file, parts = ["streams".toList, stream, "subjects".toList, file] →
    WellSpelled file
  mailbox : ∀ stream subject, fact = .streamSubject stream subject →
    ¬ HiddenMailbox stream subject

theorem Shows.ownSpelling {parts : List Str} {fact : StorageFact} (h : Shows parts fact) :
    OwnSpelling parts fact where
  file _ _ hParts := absurd hParts h.not_subjectFile
  mailbox stream subject hFact := by
    rw [hFact] at h
    cases h

/-- A path is among the visible paths of its own fact exactly if it is spelled so. -/
theorem visible_at_itself_iff {path : MountPath} {parsed : JetStreamPath} {fact : StorageFact}
    (hParse : JetStreamPath.parse path.asStr = .ok parsed)
    (hFact : StorageFact.fromJetstreamPath parsed = some fact) :
    (∃ paths, visiblePaths fact = .ok paths ∧ path ∈ paths.map (·.path)) ↔
      OwnSpelling path.components fact := by
  by_cases hValue : parsed.isValue = true
  · obtain ⟨shown, hShown, hShows⟩ := shows_of_parse hParse hValue
    rw [hFact] at hShown
    cases hShown
    refine iff_of_true ?_ hShows.ownSpelling
    cases fact with
    | kv bucket key => exact mem_visiblePaths_kv.mpr hShows
    | object bucket name => exact mem_visiblePaths_object.mpr hShows
    | streamSubject stream subject => exact absurd hShows Shows.not_stream
  · have hParses := parse_cases hParse
    generalize hComponents : path.components = parts at hParses
    cases hParses with
    | @streamSubject stream file subject hStream hFile =>
        cases hFact
        obtain ⟨hText, hSubject⟩ := parseFileName_eq_ok.mp hFile
        have hOk := visiblePaths_ok_iff hStream (nul_notMem_of_validateSubject hSubject)
        constructor
        · rintro ⟨paths, hPaths, hMem⟩
          have hPath := subjectPath_of_mem hPaths hMem
          rw [hComponents] at hPath
          refine ⟨fun stream' file' hParts => ?_, fun stream' subject' hEq => ?_⟩
          · simp only [List.cons.injEq, true_and, and_true] at hParts
            obtain ⟨rfl, rfl⟩ := hParts
            exact (fileName_eq_iff hText).mp hPath.file_eq.symm
          · cases hEq
            exact hOk.mp ⟨paths, hPaths⟩
        · intro hOwn
          obtain ⟨paths, hPaths⟩ := hOk.mpr (hOwn.mailbox stream subject.asStr rfl)
          refine ⟨paths, hPaths, (mem_visiblePaths_streamSubject hPaths).mpr (Or.inl ?_)⟩
          rw [joinStoragePath_single (slash_notMem_fileName _) (fileName_ne_nil _), hComponents,
            (fileName_eq_iff hText).mpr (hOwn.file stream file rfl)]
          rfl
    | @eventLog log hStream =>
        cases hFact
        have hNul : '\x00' ∉ "events.".toList ++ log := by
          rw [List.mem_append, not_or]
          exact ⟨by decide, hStream.not_mem (by decide)⟩
        obtain ⟨paths, hPaths⟩ :=
          (visiblePaths_ok_iff hStream hNul).mpr (not_hiddenMailbox_events log log)
        refine iff_of_true ⟨paths, hPaths, mem_visiblePaths_stream hParse rfl hPaths⟩ ⟨?_, ?_⟩
        · intro stream file hParts
          simp at hParts
        · intro stream subject hEq
          cases hEq
          exact not_hiddenMailbox_events _ _
    | @agentMailbox agent area hName hReserved hArea =>
        simp only [StorageFact.fromJetstreamPath, MaterializedTarget.fromPath, agentSubject, hArea,
          if_true, Option.map_some, Option.some.injEq] at hFact
        subst hFact
        have hNul : '\x00' ∉ "agents.".toList ++ agent ++ '.' :: area.asStr := by
          simp only [List.mem_append, List.mem_cons, not_or]
          exact ⟨⟨by decide, hName.not_mem (by decide)⟩, by decide, by cases area <;> decide⟩
        have hStream : IsToken agentsStream :=
          validateToken_eq_ok.mp (show validateStream agentsStream = .ok () by decide)
        obtain ⟨paths, hPaths⟩ :=
          (visiblePaths_ok_iff hStream hNul).mpr (not_hiddenMailbox_token hName)
        refine iff_of_true ⟨paths, hPaths, mem_visiblePaths_stream hParse ?_ hPaths⟩ ⟨?_, ?_⟩
        · simp [MaterializedTarget.fromPath, agentSubject, hArea]
        · intro stream file hParts
          simp at hParts
        · intro stream subject hEq
          cases hEq
          exact not_hiddenMailbox_token hName
    | kvKey | object | task | agentRecord | semanticRecord => exact absurd rfl hValue
    | _ => cases hFact

end EventFs.Protocol
