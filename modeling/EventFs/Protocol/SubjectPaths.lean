import EventFs.Protocol.Invalidation
import EventFs.Protocol.PathFacts

/-!
# The paths of a subject

A subject is shown at its file under `/streams`, an event log also under `/events` and a
mailbox also under `/agents`. Each of these paths shows one subject only. If the name of
an agent is not a component of a path, no path at all is derived from the mailbox.
-/

namespace EventFs.Protocol

open Library

/-! ## File names -/

theorem hexEncode_chars (bytes : Bytes) :
    ∀ ch ∈ hexEncode bytes, ch ∈ "0123456789abcdef".toList := by
  have hDigit : ∀ i < 16, hexDigit i ∈ "0123456789abcdef".toList := by decide
  intro ch hCh
  obtain ⟨byte, -, hByte⟩ := List.mem_flatMap.mp hCh
  rcases List.mem_cons.mp hByte with rfl | hByte
  · exact hDigit _ (high_lt byte)
  · rw [List.mem_singleton.mp hByte]
    exact hDigit _ (low_lt byte)

theorem plain_not_encoded {subject : Str} (h : isPlainSubjectFileStem subject = true) (rest : Str) :
    subject ≠ encodedSubjectPrefix ++ rest := by
  rintro rfl
  have hPrefix : Text.startsWith encodedSubjectPrefix (encodedSubjectPrefix ++ rest) = true := by
    simp [Text.startsWith]
  simp [isPlainSubjectFileStem, hPrefix] at h

/-- The name of the file of a subject is read back as the subject. -/
theorem parseStreamSubjectFileName_fileName {subject : Str} (hne : subject ≠ []) :
    parseStreamSubjectFileName (streamSubjectFileNameFromStr subject) = .ok subject := by
  rw [parseStreamSubjectFileName, streamSubjectFileNameFromStr]
  split_ifs with hPlain
  · have hPrefix : Text.stripPrefix encodedSubjectPrefix subject = none := by
      rw [Text.stripPrefix_eq_none]
      rintro ⟨rest, hRest⟩
      exact plain_not_encoded hPlain rest hRest.symm
    rw [Text.stripSuffix_eq_some.mpr rfl]
    simp only [hPrefix, hPlain, if_true]
  · have hBytes : Text.asBytes subject ≠ [] := by
      rw [← List.length_pos_iff]
      exact (List.length_pos_iff.mpr hne).trans_le (Text.length_le_asBytes subject)
    rw [Text.stripSuffix_eq_some.mpr rfl]
    simp only [Text.stripPrefix_append]
    refine except_bind_eq_ok.mpr ⟨_, hexDecode_hexEncode hBytes, ?_⟩
    rw [Text.fromUtf8_eq_some.mpr rfl]

/-- Different subjects have different files. -/
theorem streamSubjectFileNameFromStr_injective {left right : Str}
    (h : streamSubjectFileNameFromStr left = streamSubjectFileNameFromStr right) :
    left = right := by
  rw [streamSubjectFileNameFromStr, streamSubjectFileNameFromStr] at h
  split_ifs at h with hLeft hRight hRight
  · exact List.append_cancel_right h
  · exact absurd (List.append_cancel_right h) (plain_not_encoded hLeft _)
  · exact absurd (List.append_cancel_right h).symm (plain_not_encoded hRight _)
  · have hHex := List.append_cancel_left (List.append_cancel_right h)
    exact Text.asBytes_injective (hexEncode_injective hHex)

theorem fileName_chars {subject : Str} {c : Char} (hPlain : c ∉ jsonlSuffix)
    (hStem : (Text.isAsciiAlphanumeric c || c == '_' || c == '-' || c == '.') = false) :
    c ∉ streamSubjectFileNameFromStr subject := by
  rw [streamSubjectFileNameFromStr]
  split_ifs with hSubject
  · rw [List.mem_append, not_or]
    refine ⟨?_, hPlain⟩
    intro hMem
    simp only [isPlainSubjectFileStem, Bool.and_eq_true, List.all_eq_true] at hSubject
    rw [hSubject.2 c hMem] at hStem
    cases hStem
  · rw [List.mem_append, List.mem_append, not_or, not_or]
    refine ⟨⟨?_, ?_⟩, hPlain⟩
    · intro hMem
      have hAll : encodedSubjectPrefix.all
          (fun ch => Text.isAsciiAlphanumeric ch || ch == '_' || ch == '-' || ch == '.') =
            true := by
        decide
      rw [List.all_eq_true.mp hAll c hMem] at hStem
      cases hStem
    · intro hMem
      have hAll : "0123456789abcdef".toList.all
          (fun ch => Text.isAsciiAlphanumeric ch || ch == '_' || ch == '-' || ch == '.') =
            true := by
        decide
      rw [List.all_eq_true.mp hAll c (hexEncode_chars _ c hMem)] at hStem
      cases hStem

theorem slash_notMem_fileName (subject : Str) : '/' ∉ streamSubjectFileNameFromStr subject :=
  fileName_chars (by decide) (by decide)

theorem fileName_valid (subject : Str) :
    validMountComponent (streamSubjectFileNameFromStr subject) = true := by
  have hLong : 6 ≤ (streamSubjectFileNameFromStr subject).length := by
    rw [streamSubjectFileNameFromStr]
    split_ifs <;> simp only [List.length_append] <;> simp [jsonlSuffix]
  rw [MountPath.validMountComponent_iff]
  refine ⟨?_, ?_, ?_, fileName_chars (by decide) (by decide), slash_notMem_fileName subject⟩
  · intro hEq
    simp [hEq] at hLong
  · intro hEq
    simp [hEq] at hLong
  · intro hEq
    simp [hEq] at hLong

/-- No name of a file is hidden. -/
theorem fileName_not_hidden {subject : Str} (hne : subject ≠ []) :
    (streamSubjectFileNameFromStr subject).head? ≠ some '.' := by
  rw [streamSubjectFileNameFromStr]
  split_ifs with hPlain
  · obtain ⟨c, rest, rfl⟩ := List.exists_cons_of_ne_nil hne
    rw [List.cons_append, List.head?_cons]
    intro hHead
    obtain rfl := Option.some.inj hHead
    have hDot : Text.startsWith ['.'] ('.' :: rest) = true := by
      simp [Text.startsWith, List.isPrefixOf]
    simp only [isPlainSubjectFileStem, hDot, Bool.not_true, Bool.and_false, Bool.false_and,
      Bool.false_eq_true] at hPlain
  · have hHead : encodedSubjectPrefix.head? = some '_' := rfl
    rw [List.append_assoc, List.head?_append, hHead, Option.some_or]
    decide

theorem hexDecode_ne_nil {value : Str} {bytes : Bytes} (h : hexDecode value = .ok bytes) :
    bytes ≠ [] := by
  rw [hexDecode] at h
  split_ifs at h with hBad
  simp only [Bool.or_eq_true, List.isEmpty_iff, decide_eq_true_eq, not_or, ne_eq,
    Decidable.not_not] at hBad
  have hLength := (List.length_pos_iff.mpr hBad.1).trans_le (Text.length_le_asBytes value)
  generalize Text.asBytes value = encoded at h hBad hLength
  rcases encoded with _ | ⟨high, _ | ⟨low, rest⟩⟩
  · simp at hLength
  · simp at hBad
  · rw [hexDecodePairs] at h
    obtain ⟨highValue, -, h⟩ := except_bind_eq_ok.mp h
    obtain ⟨lowValue, -, h⟩ := except_bind_eq_ok.mp h
    obtain ⟨decoded, -, h⟩ := except_bind_eq_ok.mp h
    cases h
    exact List.cons_ne_nil _ _

/-- A name of a file never stands for the empty subject. -/
theorem ne_nil_of_parseStreamSubjectFileName {name subject : Str}
    (h : parseStreamSubjectFileName name = .ok subject) : subject ≠ [] := by
  rw [parseStreamSubjectFileName] at h
  split at h
  · cases h
  · next stem hStem =>
    split at h
    · next hex hHex =>
      obtain ⟨bytes, hBytes, hText⟩ := except_bind_eq_ok.mp h
      split at hText
      · next text hUtf8 =>
        cases hText
        rintro rfl
        exact hexDecode_ne_nil hBytes (Text.fromUtf8_eq_some.mp hUtf8)
      · cases hText
    · split_ifs at h with hPlain
      cases h
      rintro rfl
      simp [isPlainSubjectFileStem] at hPlain

/-- Every subject but the empty one has a file name of its own, which is a visible name in a
directory and is read back as the subject; a name in another spelling stands for a subject
whose own name is read back the same. -/
theorem fileName_codec :
    (∀ subject : Str, subject ≠ [] →
      validMountComponent (streamSubjectFileNameFromStr subject) = true ∧
      (streamSubjectFileNameFromStr subject).head? ≠ some '.' ∧
      parseStreamSubjectFileName (streamSubjectFileNameFromStr subject) = .ok subject) ∧
    (∀ left right, streamSubjectFileNameFromStr left = streamSubjectFileNameFromStr right →
      left = right) ∧
    ∀ name subject, parseStreamSubjectFileName name = .ok subject →
      parseStreamSubjectFileName (streamSubjectFileNameFromStr subject) = .ok subject := by
  refine ⟨?_, fun _ _ => streamSubjectFileNameFromStr_injective, ?_⟩
  · intro subject hne
    exact ⟨fileName_valid subject, fileName_not_hidden hne,
      parseStreamSubjectFileName_fileName hne⟩
  · intro name subject h
    exact parseStreamSubjectFileName_fileName (ne_nil_of_parseStreamSubjectFileName h)

theorem fileName_ne_nil (subject : Str) : streamSubjectFileNameFromStr subject ≠ [] :=
  (MountPath.validMountComponent_iff.mp (fileName_valid subject)).1

theorem IsToken.valid {value : Str} (h : IsToken value) : validMountComponent value = true := by
  have hDot : '.' ∉ value := h.not_mem (by decide)
  rw [MountPath.validMountComponent_iff]
  refine ⟨h.1, ?_, ?_, h.not_mem (by decide), h.not_mem (by decide)⟩
  · rintro rfl
    simp at hDot
  · rintro rfl
    simp at hDot

/-! ## Mailboxes -/

theorem agentMailboxSubjectParts_eq_some {subject agent : Str} {area : AgentArea}
    (h : agentMailboxSubjectParts subject = some (agent, area)) :
    subject = "agents.".toList ++ agent ++ '.' :: area.asStr ∧ '.' ∉ agent ∧ agent ≠ [] ∧
      area.isMailbox = true := by
  have hParts := (List.intercalate_splitOn '.' : _ = subject)
  have hDots : ∀ part ∈ subject.splitOn '.', '.' ∉ part := fun part => Text.not_mem_of_mem_splitOn
  rw [agentMailboxSubjectParts] at h
  split at h
  · next first second third hSplit =>
    split_ifs at h with hBad
    split at h
    · next found hArea =>
      split_ifs at h with hMailbox
      cases h
      simp only [ne_eq, decide_not, Bool.or_eq_true, Bool.not_eq_true', decide_eq_false_iff_not,
        not_or, Decidable.not_not] at hBad
      obtain ⟨⟨rfl, hEmpty⟩, hReserved⟩ := hBad
      obtain rfl := AgentArea.parse_eq_some.mp hArea
      rw [hSplit] at hParts hDots
      refine ⟨?_, hDots agent (by simp), by simpa using hEmpty, hMailbox⟩
      rw [← hParts]
      simp [List.intercalate_cons_cons]
    · cases h
  · cases h

/-- The mailbox of an agent whose name is not one component of a path. -/
def HiddenMailbox (stream subject : Str) : Prop :=
  stream = agentsStream ∧
    ∃ agent area, agentMailboxSubjectParts subject = some (agent, area) ∧ '/' ∈ agent

/-! ## Paths -/

/-- The components of a path that shows a subject. -/
inductive SubjectPath : List Str → Str → Str → Prop
  | exact (stream subject : Str) :
      SubjectPath ["streams".toList, stream, "subjects".toList,
        streamSubjectFileNameFromStr subject] stream subject
  | events (stream : Str) :
      SubjectPath ["events".toList, stream ++ ".jsonl".toList] stream ("events.".toList ++ stream)
  | mailbox (agent : Str) (area : AgentArea) :
      SubjectPath ["agents".toList, agent, area.asStr] agentsStream
        ("agents.".toList ++ agent ++ '.' :: area.asStr)

theorem SubjectPath.functional {parts : List Str} {stream subject other what : Str}
    (h : SubjectPath parts stream subject) (h' : SubjectPath parts other what) :
    other = stream ∧ what = subject := by
  cases h with
  | exact =>
      generalize hParts : ["streams".toList, stream, "subjects".toList,
        streamSubjectFileNameFromStr subject] = parts at h'
      cases h' with
      | exact =>
          simp only [List.cons.injEq, true_and, and_true] at hParts
          exact ⟨hParts.1.symm, (streamSubjectFileNameFromStr_injective hParts.2).symm⟩
      | events => simp at hParts
      | mailbox => simp at hParts
  | events =>
      generalize hParts : ["events".toList, stream ++ ".jsonl".toList] = parts at h'
      cases h' with
      | exact => simp at hParts
      | events =>
          simp only [List.cons.injEq, true_and, and_true] at hParts
          obtain rfl := List.append_cancel_right hParts
          exact ⟨rfl, rfl⟩
      | mailbox => simp at hParts
  | mailbox agent area =>
      generalize hParts : ["agents".toList, agent, area.asStr] = parts at h'
      cases h' with
      | exact => simp at hParts
      | events => simp at hParts
      | mailbox agent' area' =>
          simp only [List.cons.injEq, true_and, and_true] at hParts
          obtain ⟨rfl, hArea⟩ := hParts
          rw [hArea]
          exact ⟨rfl, rfl⟩

section Visible

variable {path : MountPath} {stream subject : Str} {paths : List AffectedPath}

theorem joinStoragePath_single {fixed : List Str} {name : Str} (hSlash : '/' ∉ name)
    (hEmpty : name ≠ []) :
    joinStoragePath fixed (some name) = .ok path ↔ path.components = fixed ++ [name] := by
  rw [joinStoragePath_eq_ok, splitOn_of_not_mem hSlash]
  exact ⟨fun h => h.2, fun h => ⟨hEmpty, h⟩⟩

theorem joinStoragePath_none {fixed : List Str} :
    joinStoragePath fixed none = .ok path ↔ MountPath.Valid fixed ∧ path.components = fixed :=
  MountPath.fromComponents_eq_ok

/-- The path of a mailbox, if the subject is one. -/
def mailboxPath (stream subject : Str) : Option (Except EventFsError MountPath) :=
  if stream = agentsStream then
    (agentMailboxSubjectParts subject).map fun (agent, area) =>
      joinStoragePath ["agents".toList, agent, area.asStr] none
  else none

theorem pushMailbox_eq (logs : List AffectedPath) :
    (if stream = agentsStream then
      match agentMailboxSubjectParts subject with
      | some (agent, area) =>
          pushStoragePath logs .mailbox ["agents".toList, agent, area.asStr] none
      | none => .ok logs
    else .ok logs) = (match mailboxPath stream subject with
      | some joined => joined.map fun path => pushUnique logs ⟨path, .mailbox⟩
      | none => .ok logs) := by
  rw [mailboxPath]
  split_ifs with hStream
  · cases agentMailboxSubjectParts subject with
    | none => rfl
    | some parts =>
        obtain ⟨agent, area⟩ := parts
        simp only [Option.map_some, pushStoragePath]
        cases joinStoragePath ["agents".toList, agent, area.asStr] none <;> rfl
  · rfl

theorem pushStreamAliasPaths_eq_ok {pushed : List AffectedPath} :
    pushStreamAliasPaths paths stream subject = .ok pushed ↔
      ∃ logs, (if Text.stripPrefix "events.".toList subject = some stream then
          pushStoragePath paths .alias_ ["events".toList] (some (stream ++ ".jsonl".toList))
        else .ok paths) = .ok logs ∧
      (match mailboxPath stream subject with
        | some joined => joined.map fun path => pushUnique logs ⟨path, .mailbox⟩
        | none => .ok logs) = .ok pushed := by
  rw [pushStreamAliasPaths]
  by_cases hLog : Text.stripPrefix "events.".toList subject = some stream
  · rw [if_pos hLog, if_pos hLog, except_bind_eq_ok]
    refine exists_congr fun logs => and_congr_right fun _ => ?_
    exact iff_of_eq (congrArg (· = Except.ok pushed) (pushMailbox_eq logs))
  · rw [if_neg hLog, if_neg hLog, except_bind_eq_ok]
    refine exists_congr fun logs => and_congr_right fun _ => ?_
    exact iff_of_eq (congrArg (· = Except.ok pushed) (pushMailbox_eq logs))

theorem mem_visiblePaths_streamSubject
    (hPaths : visiblePaths (.streamSubject stream subject) = .ok paths) :
    path ∈ paths.map (·.path) ↔
      joinStoragePath ["streams".toList, stream, "subjects".toList]
          (some (streamSubjectFileNameFromStr subject)) = .ok path ∨
        (Text.stripPrefix "events.".toList subject = some stream ∧
          joinStoragePath ["events".toList] (some (stream ++ ".jsonl".toList)) = .ok path) ∨
        mailboxPath stream subject = some (.ok path) := by
  obtain ⟨exact, hExact, hPaths⟩ := except_bind_eq_ok.mp hPaths
  obtain ⟨logs, hLogs, hPushed⟩ := pushStreamAliasPaths_eq_ok.mp hPaths
  have hMailbox : path ∈ paths.map (·.path) ↔
      path ∈ logs.map (·.path) ∨ mailboxPath stream subject = some (.ok path) := by
    split at hPushed
    · next joined hJoined =>
      cases joined with
      | error err => cases hPushed
      | ok found =>
          cases hPushed
          rw [mem_pushUnique, hJoined]
          simp [eq_comm]
    · next hNone =>
      cases hPushed
      simp [hNone]
  have hEvents : path ∈ logs.map (·.path) ↔ path ∈ exact.map (·.path) ∨
      (Text.stripPrefix "events.".toList subject = some stream ∧
        joinStoragePath ["events".toList] (some (stream ++ ".jsonl".toList)) = .ok path) := by
    split_ifs at hLogs with hLog
    · rw [mem_pushStoragePath hLogs]
      exact or_congr Iff.rfl ⟨fun h => ⟨hLog, h⟩, And.right⟩
    · cases hLogs
      exact ⟨Or.inl, fun h => h.resolve_right fun h => hLog h.1⟩
  rw [hMailbox, hEvents, mem_pushStoragePath hExact]
  simp [or_assoc]

/-- Every path of a subject has one of the three shapes. -/
theorem subjectPath_of_mem (hPaths : visiblePaths (.streamSubject stream subject) = .ok paths)
    (hMem : path ∈ paths.map (·.path)) : SubjectPath path.components stream subject := by
  have hSlash : '/' ∉ stream := by
    obtain ⟨exact, hExact, -⟩ := except_bind_eq_ok.mp hPaths
    obtain ⟨native, hNative, -⟩ := except_bind_eq_ok.mp hExact
    rw [joinStoragePath_eq_ok] at hNative
    have hValid := native.valid_components stream (by simp [hNative.2])
    exact MountPath.slash_not_mem_of_valid hValid
  rcases (mem_visiblePaths_streamSubject hPaths).mp hMem with hExact | ⟨hLog, hEvents⟩ | hMailbox
  · rw [joinStoragePath_single (slash_notMem_fileName subject)] at hExact
    · rw [hExact]
      exact .exact stream subject
    · exact fileName_ne_nil subject
  · have hName : '/' ∉ stream ++ ".jsonl".toList := by
      rw [List.mem_append, not_or]
      exact ⟨hSlash, by decide⟩
    rw [joinStoragePath_single hName (by simp)] at hEvents
    rw [hEvents, Text.stripPrefix_eq_some.mp hLog]
    exact .events stream
  · rw [mailboxPath] at hMailbox
    split_ifs at hMailbox with hStream
    obtain ⟨⟨agent, area⟩, hParts, hJoined⟩ := Option.map_eq_some_iff.mp hMailbox
    obtain ⟨rfl, -, -, -⟩ := agentMailboxSubjectParts_eq_some hParts
    rw [joinStoragePath_none] at hJoined
    rw [hStream, hJoined.2]
    exact .mailbox agent area

/-- A subject has paths unless it is the mailbox of an agent that cannot be named. -/
theorem visiblePaths_ok_iff (hStream : IsToken stream) (hNul : '\x00' ∉ subject) :
    (∃ paths, visiblePaths (.streamSubject stream subject) = .ok paths) ↔
      ¬ HiddenMailbox stream subject := by
  have hNative : ∃ native, joinStoragePath ["streams".toList, stream, "subjects".toList]
      (some (streamSubjectFileNameFromStr subject)) = .ok native := by
    have hValid : MountPath.Valid ["streams".toList, stream, "subjects".toList,
        streamSubjectFileNameFromStr subject] := by
      simp only [MountPath.Valid, List.forall_mem_cons]
      exact ⟨by decide, hStream.valid, by decide, fileName_valid subject, by simp⟩
    refine ⟨MountPath.ofValid hValid, ?_⟩
    rw [joinStoragePath_single (slash_notMem_fileName subject) (fileName_ne_nil subject)]
    exact MountPath.components_ofValid hValid
  have hEvents : ∃ logs, joinStoragePath ["events".toList] (some (stream ++ ".jsonl".toList)) =
      .ok logs := by
    have hName : validMountComponent (stream ++ ".jsonl".toList) = true := by
      rw [MountPath.validMountComponent_iff]
      refine ⟨by simp, ?_, ?_, ?_, ?_⟩
      · intro hEq
        simpa using congrArg List.length hEq
      · intro hEq
        simpa using congrArg List.length hEq
      · rw [List.mem_append, not_or]
        exact ⟨hStream.not_mem (by decide), by decide⟩
      · rw [List.mem_append, not_or]
        exact ⟨hStream.not_mem (by decide), by decide⟩
    have hValid : MountPath.Valid ["events".toList, stream ++ ".jsonl".toList] := by
      simp only [MountPath.Valid, List.forall_mem_cons]
      exact ⟨by decide, hName, by simp⟩
    refine ⟨MountPath.ofValid hValid, ?_⟩
    rw [joinStoragePath_single (MountPath.slash_not_mem_of_valid hName) (by simp)]
    exact MountPath.components_ofValid hValid
  obtain ⟨native, hNative⟩ := hNative
  obtain ⟨logs, hLogs⟩ := hEvents
  have hOk : (∃ paths, visiblePaths (.streamSubject stream subject) = .ok paths) ↔
      ∀ joined, mailboxPath stream subject = some joined → ∃ found, joined = .ok found := by
    constructor
    · rintro ⟨paths, hPaths⟩ joined hJoined
      obtain ⟨exact, hExact, hPaths⟩ := except_bind_eq_ok.mp hPaths
      obtain ⟨logs, hLogs, hPushed⟩ := pushStreamAliasPaths_eq_ok.mp hPaths
      rw [hJoined] at hPushed
      cases joined with
      | error err => cases hPushed
      | ok found => exact ⟨found, rfl⟩
    · intro hJoined
      have hExact : pushStoragePath [] .exact ["streams".toList, stream, "subjects".toList]
          (some (streamSubjectFileNameFromStr subject)) =
            .ok (pushUnique [] ⟨native, .exact⟩) := by
        rw [pushStoragePath, hNative]
        rfl
      have hAliases : ∃ pushed, (if Text.stripPrefix "events.".toList subject = some stream then
          pushStoragePath (pushUnique [] ⟨native, .exact⟩) .alias_ ["events".toList]
            (some (stream ++ ".jsonl".toList))
        else .ok (pushUnique [] ⟨native, .exact⟩)) = .ok pushed := by
        split_ifs
        · rw [pushStoragePath, hLogs]
          exact ⟨_, rfl⟩
        · exact ⟨_, rfl⟩
      obtain ⟨aliases, hAliases⟩ := hAliases
      cases hMailbox : mailboxPath stream subject with
      | none =>
          refine ⟨aliases, except_bind_eq_ok.mpr ⟨_, hExact, ?_⟩⟩
          refine pushStreamAliasPaths_eq_ok.mpr ⟨aliases, hAliases, ?_⟩
          rw [hMailbox]
      | some joined =>
          obtain ⟨found, rfl⟩ := hJoined joined hMailbox
          refine ⟨pushUnique aliases ⟨found, .mailbox⟩, except_bind_eq_ok.mpr ⟨_, hExact, ?_⟩⟩
          refine pushStreamAliasPaths_eq_ok.mpr ⟨aliases, hAliases, ?_⟩
          rw [hMailbox]
          rfl
  rw [hOk, mailboxPath]
  constructor
  · rintro h ⟨hAgents, agent, area, hParts, hSlash⟩
    rw [if_pos hAgents, hParts] at h
    obtain ⟨found, hFound⟩ := h _ rfl
    have hValid := (joinStoragePath_none.mp hFound).1 agent (by simp)
    exact MountPath.slash_not_mem_of_valid hValid hSlash
  · intro h joined hJoined
    split_ifs at hJoined with hAgents
    obtain ⟨⟨agent, area⟩, hParts, rfl⟩ := Option.map_eq_some_iff.mp hJoined
    obtain ⟨rfl, hDot, hEmpty, -⟩ := agentMailboxSubjectParts_eq_some hParts
    have hAgent : validMountComponent agent = true := by
      rw [MountPath.validMountComponent_iff]
      refine ⟨hEmpty, ?_, ?_, ?_, fun hSlash => h ⟨hAgents, agent, area, hParts, hSlash⟩⟩
      · rintro rfl
        simp at hDot
      · rintro rfl
        simp at hDot
      · intro hMem
        exact hNul (by simp [hMem])
    have hValid : MountPath.Valid ["agents".toList, agent, area.asStr] := by
      simp only [MountPath.Valid, List.forall_mem_cons]
      exact ⟨by decide, hAgent, by cases area <;> decide, by simp⟩
    exact ⟨MountPath.ofValid hValid,
      joinStoragePath_none.mpr ⟨hValid, MountPath.components_ofValid hValid⟩⟩

end Visible

end EventFs.Protocol
