import EventFs.Protocol.MountPath

/-!
# What a path that parses looks like

Every parsed path determines its components up to the spelling of a subject's file name,
a revision and a sequence. `Parses` has one case for each kind of path.
-/

namespace EventFs.Protocol

open Library

/-! ## Parsing a mount path -/

theorem dot_not_valid {component : Str} (h : validMountComponent component = true) :
    (component.isEmpty || component == ['.'] || component == ['.', '.']) = false := by
  obtain ⟨h1, h2, h3, -, -⟩ := MountPath.validMountComponent_iff.mp h
  simp [h1, h2, h3]

theorem nul_not_mem_render {parts : List Str} (h : MountPath.Valid parts) :
    '\x00' ∉ MountPath.render parts := by
  intro hMem
  by_cases hne : parts = []
  · subst hne
    simp [MountPath.render] at hMem
  · rw [MountPath.render_of_ne_nil hne, List.mem_cons] at hMem
    rcases hMem with hMem | hMem
    · simp at hMem
    · rcases Text.mem_intercalate hMem with hMem | ⟨part, hPart, hMem⟩
      · simp at hMem
      · exact (MountPath.validMountComponent_iff.mp (h part hPart)).2.2.2.1 hMem

/-- A mount path is in normal form. -/
theorem MountPath.new_asStr (path : MountPath) : MountPath.new path.asStr = .ok path := by
  have hValid := path.valid_components
  have hParts : (path.asStr.splitOn '/').filter (fun component => !component.isEmpty) =
      path.components := by
    rw [← path.render_components]
    by_cases hne : path.components = []
    · rw [hne]
      rfl
    · obtain ⟨first, rest, hCons⟩ := List.exists_cons_of_ne_nil hne
      have hSplit : (MountPath.render path.components).splitOn '/' = [] :: path.components := by
        have hRender : MountPath.render path.components =
            ['/'].intercalate ([] :: path.components) := by
          rw [MountPath.render_of_ne_nil hne, hCons, List.intercalate_cons_cons]
          rfl
        rw [hRender, List.splitOn_intercalate _ _ (by simp)]
        intro part hPart
        rcases List.mem_cons.mp hPart with rfl | hPart
        · exact List.not_mem_nil
        · exact MountPath.slash_not_mem_of_valid (hValid part hPart)
      rw [hSplit, List.filter_cons_of_neg (by simp), MountPath.filter_nonempty_of_valid hValid]
  have hNul : ¬ path.asStr.contains '\x00' = true := by
    rw [← path.render_components]
    simpa using nul_not_mem_render hValid
  rw [MountPath.new, if_neg hNul, hParts, MountPath.fromComponents_eq_ok]
  exact ⟨hValid, rfl⟩

theorem intercalate_eq_nil {parts : List Str} (h : MountPath.Valid parts)
    (hNil : ['/'].intercalate parts = []) : parts = [] := by
  by_contra hne
  obtain ⟨c, rest, hHead, -⟩ := MountPath.intercalate_head h hne
  rw [hHead] at hNil
  cases hNil

/-- The parser sees the components of a mount path. -/
theorem components_asStr (path : MountPath) : components path.asStr = .ok path.components := by
  have hValid := path.valid_components
  rw [← path.render_components, components]
  have hNul : ¬ (MountPath.render path.components).contains '\x00' = true := by
    simpa using nul_not_mem_render hValid
  rw [if_neg hNul]
  simp only [MountPath.trimMatches_render hValid]
  by_cases hne : path.components = []
  · rw [hne]
    rfl
  · have hText : ¬ (['/'].intercalate path.components).isEmpty = true := by
      rw [List.isEmpty_iff]
      exact fun hNil => hne (intercalate_eq_nil hValid hNil)
    have hDots : ¬ path.components.any (fun part => part.isEmpty || part == ['.'] ||
        part == ['.', '.']) = true := by
      rw [List.any_eq_true]
      rintro ⟨part, hPart, hDot⟩
      rw [dot_not_valid (hValid part hPart)] at hDot
      cases hDot
    rw [if_neg hText, MountPath.splitOn_intercalate_of_valid hValid hne, if_neg hDots]

theorem parse_asStr (path : MountPath) :
    JetStreamPath.parse path.asStr = JetStreamPath.parseComponents path.components := by
  rw [JetStreamPath.parse, components_asStr]
  rfl

/-! ## Bind on `Except` -/

theorem except_bind_eq_ok {ε α β : Type} {x : Except ε α} {f : α → Except ε β} {b : β} :
    (x >>= f) = .ok b ↔ ∃ a, x = .ok a ∧ f a = .ok b := by
  cases x with
  | ok a =>
      constructor
      · intro h
        exact ⟨a, rfl, h⟩
      · rintro ⟨a', ha, hb⟩
        cases ha
        exact hb
  | error e =>
      constructor
      · intro h
        cases h
      · rintro ⟨_, ha, _⟩
        cases ha

/-! ## Keys as joined components -/

theorem joinPath_eq_ok {parts : List Str} {name : Str} (h : joinPath parts = .ok name) :
    parts ≠ [] ∧ name = ['/'].intercalate parts := by
  simp only [joinPath] at h
  split at h
  · cases h
  · next hne =>
    split at h
    · cases h
      exact ⟨by simpa [List.isEmpty_iff] using hne, rfl⟩
    · cases h

theorem joinKvKey_eq_ok {parts : List Str} {key : Str} (h : joinKvKey parts = .ok key) :
    parts ≠ [] ∧ key = ['/'].intercalate parts := by
  rw [joinKvKey, except_bind_eq_ok] at h
  obtain ⟨name, hJoin, h⟩ := h
  rw [except_bind_eq_ok] at h
  obtain ⟨⟨⟩, -, h⟩ := h
  cases h
  exact joinPath_eq_ok hJoin

/-! ## Cases -/

/-- Letters, digits, underscores and dashes, at least one. -/
def IsToken (value : Str) : Prop :=
  value ≠ [] ∧ ∀ ch ∈ value, (Text.isAsciiAlphanumeric ch || ch == '_' || ch == '-') = true

theorem validateToken_eq_ok {value label : Str} :
    validateToken value label = .ok () ↔ IsToken value := by
  simp only [validateToken, IsToken]
  by_cases hEmpty : value = []
  · simp [hEmpty]
  · simp only [List.isEmpty_iff, hEmpty, if_false, ne_eq, not_false_eq_true, true_and]
    by_cases hAll :
      (value.all fun ch => Text.isAsciiAlphanumeric ch || ch == '_' || ch == '-') = true
    · simp only [hAll, if_true, true_iff]
      exact List.all_eq_true.mp hAll
    · simp only [hAll]
      constructor
      · intro h
        cases h
      · intro h
        exact absurd (List.all_eq_true.mpr h) hAll

theorem IsToken.not_mem {value : Str} (h : IsToken value) {c : Char}
    (hChar : (Text.isAsciiAlphanumeric c || c == '_' || c == '-') = false) : c ∉ value := by
  intro hMem
  rw [h.2 c hMem] at hChar
  cases hChar

theorem validateMaterializedRootName_eq_ok {value label : Str} :
    validateMaterializedRootName value label = .ok () ↔
      IsToken value ∧ isReservedKvKey value = false := by
  rw [validateMaterializedRootName, except_bind_eq_ok]
  constructor
  · rintro ⟨⟨⟩, hToken, h⟩
    refine ⟨validateToken_eq_ok.mp hToken, ?_⟩
    by_contra hReserved
    rw [if_pos (by simpa using hReserved)] at h
    cases h
  · rintro ⟨hToken, hReserved⟩
    refine ⟨(), validateToken_eq_ok.mpr hToken, ?_⟩
    rw [if_neg (by simp [hReserved])]

/-- A path with these components parses to this. -/
inductive Parses : List Str → JetStreamPath → Prop
  | root : Parses [] .root
  | kvRoot : Parses ["kv".toList] .kvRoot
  | kvBucket {bucket : Str} (hBucket : IsToken bucket) :
      Parses ["kv".toList, bucket] (.kvBucket bucket)
  | kvKey {bucket first key : Str} {rest : List Str} (hBucket : IsToken bucket)
      (hFirst : first ≠ ".history".toList) (hKey : joinKvKey (first :: rest) = .ok key) :
      Parses ("kv".toList :: bucket :: first :: rest) (.kvKey bucket key)
  | kvHistoryRoot {bucket : Str} (hBucket : IsToken bucket) :
      Parses ["kv".toList, bucket, ".history".toList] (.kvHistoryRoot bucket)
  | kvHistoryKey {bucket key : Str} {parts : List Str} (hBucket : IsToken bucket)
      (hMarker : parseKvRevisionMarker (parts.getLastD []) = .ok none)
      (hKey : joinKvKey parts = .ok key) :
      Parses ("kv".toList :: bucket :: ".history".toList :: parts) (.kvHistoryKey bucket key)
  | kvRevision {bucket key : Str} {parts : List Str} {revision : Nat} (hBucket : IsToken bucket)
      (hMarker : parseKvRevisionMarker (parts.getLastD []) = .ok (some revision))
      (hKey : joinKvKey parts.dropLast = .ok key) :
      Parses ("kv".toList :: bucket :: ".history".toList :: parts)
        (.kvRevision bucket key revision)
  | streamsRoot : Parses ["streams".toList] .streamsRoot
  | streamRoot {stream : Str} (hStream : IsToken stream) :
      Parses ["streams".toList, stream] (.streamRoot stream)
  | streamMessages {stream : Str} (hStream : IsToken stream) :
      Parses ["streams".toList, stream, "messages".toList] (.streamMessages stream)
  | streamMessage {stream file : Str} {sequence : Nat} (hStream : IsToken stream)
      (hFile : parseSequenceFile file = .ok sequence) :
      Parses ["streams".toList, stream, "messages".toList, file] (.streamMessage stream sequence)
  | streamSubjects {stream : Str} (hStream : IsToken stream) :
      Parses ["streams".toList, stream, "subjects".toList] (.streamSubjects stream)
  | streamSubject {stream file : Str} {subject : StreamSubject} (hStream : IsToken stream)
      (hFile : StreamSubject.parseFileName file = .ok subject) :
      Parses ["streams".toList, stream, "subjects".toList, file] (.streamSubject stream subject)
  | objectsRoot : Parses ["objects".toList] .objectsRoot
  | objectBucket {bucket : Str} (hBucket : IsToken bucket) :
      Parses ["objects".toList, bucket] (.objectBucket bucket)
  | object {bucket name : Str} {parts : List Str} (hBucket : IsToken bucket)
      (hName : joinPath parts = .ok name) :
      Parses ("objects".toList :: bucket :: parts) (.object bucket name)
  | eventsRoot : Parses ["events".toList] .eventsRoot
  | eventLog {stream : Str} (hStream : IsToken stream) :
      Parses ["events".toList, stream ++ ".jsonl".toList] (.eventLog stream)
  | tasksRoot : Parses ["tasks".toList] .tasksRoot
  | taskNamespace {ns : Str} (hName : IsToken ns) (hReserved : isReservedKvKey ns = false) :
      Parses ["tasks".toList, ns] (.taskNamespace ns)
  | task {ns task : Str} (hName : IsToken ns) (hReserved : isReservedKvKey ns = false)
      (hTask : validateJsonFile task "task files".toList = .ok ()) :
      Parses ["tasks".toList, ns, task] (.task ns task)
  | agentsRoot : Parses ["agents".toList] .agentsRoot
  | agentRoot {agent : Str} (hName : IsToken agent) (hReserved : isReservedKvKey agent = false) :
      Parses ["agents".toList, agent] (.agentRoot agent)
  | agentMailbox {agent : Str} {area : AgentArea} (hName : IsToken agent)
      (hReserved : isReservedKvKey agent = false) (hArea : area.isMailbox = true) :
      Parses ["agents".toList, agent, area.asStr] (.agentMailbox agent area)
  | agentDirectory {agent : Str} {area : AgentArea} (hName : IsToken agent)
      (hReserved : isReservedKvKey agent = false) (hArea : area.isMailbox = false) :
      Parses ["agents".toList, agent, area.asStr] (.agentDirectory agent area)
  | agentRecord {agent key : Str} {area : AgentArea} {parts : List Str} (hName : IsToken agent)
      (hReserved : isReservedKvKey agent = false) (hArea : area.isMailbox = false)
      (hKey : joinKvKey parts = .ok key) :
      Parses ("agents".toList :: agent :: area.asStr :: parts) (.agentRecord agent area key)
  | semanticRoot : Parses ["semantic".toList] .semanticRoot
  | semanticArea (area : SemanticArea) :
      Parses ["semantic".toList, area.asStr] (.semanticArea area)
  | semanticRecord (area : SemanticArea) {key : Str} {parts : List Str}
      (hKey : joinKvKey parts = .ok key) :
      Parses ("semantic".toList :: area.asStr :: parts) (.semanticRecord area key)
  | metadataRoot : Parses [".eventfs".toList] .metadataRoot
  | metadataFile {name : Str} {file : MetadataFile} (hFile : MetadataFile.parse name = some file) :
      Parses [".eventfs".toList, name] (.metadataFile file)

section Cases

variable {parts : List Str} {parsed : JetStreamPath}

theorem parseKv_cases (h : parseKv parts = .ok parsed) : Parses ("kv".toList :: parts) parsed := by
  unfold parseKv at h
  split at h
  · cases h
    exact .kvRoot
  · obtain ⟨⟨⟩, hBucket, h⟩ := except_bind_eq_ok.mp h
    cases h
    exact .kvBucket (validateToken_eq_ok.mp hBucket)
  · next bucket first rest =>
    split at h
    · next hHistory =>
      subst hHistory
      rw [parseKvHistory, except_bind_eq_ok] at h
      obtain ⟨⟨⟩, hBucket, h⟩ := h
      have hToken := validateToken_eq_ok.mp hBucket
      split at h
      · next hEmpty =>
        obtain rfl := List.isEmpty_iff.mp hEmpty
        cases h
        exact .kvHistoryRoot hToken
      · obtain ⟨marker, hMarker, h⟩ := except_bind_eq_ok.mp h
        split at h
        · split at h
          · cases h
          · obtain ⟨key, hKey, h⟩ := except_bind_eq_ok.mp h
            cases h
            exact .kvRevision hToken hMarker hKey
        · obtain ⟨key, hKey, h⟩ := except_bind_eq_ok.mp h
          cases h
          exact .kvHistoryKey hToken hMarker hKey
    · next hFirst =>
      obtain ⟨⟨⟩, hBucket, h⟩ := except_bind_eq_ok.mp h
      obtain ⟨key, hKey, h⟩ := except_bind_eq_ok.mp h
      cases h
      exact .kvKey (validateToken_eq_ok.mp hBucket) hFirst hKey

theorem parseStreams_cases (h : parseStreams parts = .ok parsed) :
    Parses ("streams".toList :: parts) parsed := by
  unfold parseStreams at h
  split at h
  · cases h
    exact .streamsRoot
  · obtain ⟨⟨⟩, hStream, h⟩ := except_bind_eq_ok.mp h
    cases h
    exact .streamRoot (validateToken_eq_ok.mp hStream)
  · next stream area =>
    split at h
    · next hArea =>
      subst hArea
      obtain ⟨⟨⟩, hStream, h⟩ := except_bind_eq_ok.mp h
      cases h
      exact .streamMessages (validateToken_eq_ok.mp hStream)
    · split at h
      · next hArea =>
        subst hArea
        obtain ⟨⟨⟩, hStream, h⟩ := except_bind_eq_ok.mp h
        cases h
        exact .streamSubjects (validateToken_eq_ok.mp hStream)
      · cases h
  · next stream area file =>
    split at h
    · next hArea =>
      subst hArea
      obtain ⟨⟨⟩, hStream, h⟩ := except_bind_eq_ok.mp h
      obtain ⟨sequence, hFile, h⟩ := except_bind_eq_ok.mp h
      cases h
      exact .streamMessage (validateToken_eq_ok.mp hStream) hFile
    · split at h
      · next hArea =>
        subst hArea
        obtain ⟨⟨⟩, hStream, h⟩ := except_bind_eq_ok.mp h
        obtain ⟨subject, hFile, h⟩ := except_bind_eq_ok.mp h
        cases h
        exact .streamSubject (validateToken_eq_ok.mp hStream) hFile
      · cases h
  · cases h

theorem parseObjects_cases (h : parseObjects parts = .ok parsed) :
    Parses ("objects".toList :: parts) parsed := by
  unfold parseObjects at h
  split at h
  · cases h
    exact .objectsRoot
  · obtain ⟨⟨⟩, hBucket, h⟩ := except_bind_eq_ok.mp h
    cases h
    exact .objectBucket (validateToken_eq_ok.mp hBucket)
  · obtain ⟨⟨⟩, hBucket, h⟩ := except_bind_eq_ok.mp h
    obtain ⟨name, hName, h⟩ := except_bind_eq_ok.mp h
    cases h
    exact .object (validateToken_eq_ok.mp hBucket) hName

theorem parseEvents_cases (h : parseEvents parts = .ok parsed) :
    Parses ("events".toList :: parts) parsed := by
  unfold parseEvents at h
  split at h
  · cases h
    exact .eventsRoot
  · next file =>
    obtain ⟨stream, hStem, h⟩ := except_bind_eq_ok.mp h
    cases h
    rw [parseJsonlStem] at hStem
    split at hStem
    · cases hStem
    · next stem hSuffix =>
      obtain ⟨⟨⟩, hStream, h⟩ := except_bind_eq_ok.mp hStem
      cases h
      rw [Text.stripSuffix_eq_some.mp hSuffix]
      exact .eventLog (validateToken_eq_ok.mp hStream)
  · cases h

theorem parseTasks_cases (h : parseTasks parts = .ok parsed) :
    Parses ("tasks".toList :: parts) parsed := by
  unfold parseTasks at h
  split at h
  · cases h
    exact .tasksRoot
  · obtain ⟨⟨⟩, hName, h⟩ := except_bind_eq_ok.mp h
    cases h
    obtain ⟨hToken, hReserved⟩ := validateMaterializedRootName_eq_ok.mp hName
    exact .taskNamespace hToken hReserved
  · obtain ⟨⟨⟩, hName, h⟩ := except_bind_eq_ok.mp h
    obtain ⟨⟨⟩, hTask, h⟩ := except_bind_eq_ok.mp h
    cases h
    obtain ⟨hToken, hReserved⟩ := validateMaterializedRootName_eq_ok.mp hName
    exact .task hToken hReserved hTask
  · cases h

theorem parseAgents_cases (h : parseAgents parts = .ok parsed) :
    Parses ("agents".toList :: parts) parsed := by
  unfold parseAgents at h
  split at h
  · cases h
    exact .agentsRoot
  · obtain ⟨⟨⟩, hName, h⟩ := except_bind_eq_ok.mp h
    cases h
    obtain ⟨hToken, hReserved⟩ := validateMaterializedRootName_eq_ok.mp hName
    exact .agentRoot hToken hReserved
  · next agent area rest =>
    rw [parseAgentArea, except_bind_eq_ok] at h
    obtain ⟨⟨⟩, hName, h⟩ := h
    obtain ⟨hToken, hReserved⟩ := validateMaterializedRootName_eq_ok.mp hName
    split at h
    · cases h
    · next found hArea =>
      obtain rfl := AgentArea.parse_eq_some.mp hArea
      split at h
      · next hMailbox =>
        split at h
        · next hEmpty =>
          obtain rfl := List.isEmpty_iff.mp hEmpty
          cases h
          exact .agentMailbox hToken hReserved hMailbox
        · cases h
      · next hMailbox =>
        have hNot : found.isMailbox = false := by simpa using hMailbox
        split at h
        · next hEmpty =>
          obtain rfl := List.isEmpty_iff.mp hEmpty
          cases h
          exact .agentDirectory hToken hReserved hNot
        · obtain ⟨key, hKey, h⟩ := except_bind_eq_ok.mp h
          cases h
          exact .agentRecord hToken hReserved hNot hKey

theorem parseSemantic_cases (h : parseSemantic parts = .ok parsed) :
    Parses ("semantic".toList :: parts) parsed := by
  unfold parseSemantic at h
  split at h
  · cases h
    exact .semanticRoot
  · next area rest =>
    split at h
    · cases h
    · next found hArea =>
      obtain rfl := SemanticArea.parse_eq_some.mp hArea
      split at h
      · next hEmpty =>
        obtain rfl := List.isEmpty_iff.mp hEmpty
        cases h
        exact .semanticArea found
      · obtain ⟨key, hKey, h⟩ := except_bind_eq_ok.mp h
        cases h
        exact .semanticRecord found hKey

theorem parseMetadata_cases (h : parseMetadata parts = .ok parsed) :
    Parses (".eventfs".toList :: parts) parsed := by
  unfold parseMetadata at h
  split at h
  · cases h
    exact .metadataRoot
  · split at h
    · next hFile =>
      cases h
      exact .metadataFile hFile
    · cases h
  · cases h

theorem parseComponents_cases (h : JetStreamPath.parseComponents parts = .ok parsed) :
    Parses parts parsed := by
  unfold JetStreamPath.parseComponents at h
  split at h
  · cases h
    exact .root
  · next surface rest =>
    split_ifs at h with hKv hStreams hObjects hEvents hTasks hAgents hSemantic hMetadata
    · subst hKv
      exact parseKv_cases h
    · subst hStreams
      exact parseStreams_cases h
    · subst hObjects
      exact parseObjects_cases h
    · subst hEvents
      exact parseEvents_cases h
    · subst hTasks
      exact parseTasks_cases h
    · subst hAgents
      exact parseAgents_cases h
    · subst hSemantic
      exact parseSemantic_cases h
    · subst hMetadata
      exact parseMetadata_cases h

end Cases

theorem parse_cases {path : MountPath} {parsed : JetStreamPath}
    (h : JetStreamPath.parse path.asStr = .ok parsed) : Parses path.components parsed := by
  rw [parse_asStr] at h
  exact parseComponents_cases h

end EventFs.Protocol
