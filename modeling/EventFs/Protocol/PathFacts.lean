import EventFs.Protocol.Invalidation
import EventFs.Protocol.ParseCases

/-!
# Which path shows which value

A mount path that parses to a KV or object value is visible for exactly one KV or
object fact: its own. Both directions go through the components of the path, which
are the components of the key behind a fixed front.
-/

namespace EventFs.Protocol

open Library

/-! ## Paths and the facts they show -/

/-- A path with these components shows the fact: the components after the front are
those of the key. -/
inductive Shows : List Str → StorageFact → Prop
  | kv (bucket : Str) {parts : List Str} (hne : parts ≠ []) :
      Shows ("kv".toList :: bucket :: parts) (.kv bucket (['/'].intercalate parts))
  | object (bucket : Str) {parts : List Str} (hne : parts ≠ []) :
      Shows ("objects".toList :: bucket :: parts) (.object bucket (['/'].intercalate parts))
  | task {parts : List Str} (hne : parts ≠ []) :
      Shows ("tasks".toList :: parts) (.kv tasksBucket (['/'].intercalate parts))
  | agent (agent area : Str) {parts : List Str} (hne : parts ≠ []) :
      Shows ("agents".toList :: agent :: area :: parts)
        (.kv agentsBucket (['/'].intercalate (agent :: area :: parts)))
  | semantic {parts : List Str} (hne : parts ≠ []) :
      Shows ("semantic".toList :: parts) (.kv semanticBucket (['/'].intercalate parts))

theorem Shows.functional {parts : List Str} {fact other : StorageFact} (h : Shows parts fact)
    (hOther : Shows parts other) : fact = other := by
  cases h <;> cases hOther <;> rfl

/-- The paths that show a single value: a KV key, an object, or one of their aliases. -/
def JetStreamPath.isValue : JetStreamPath → Bool
  | .kvKey _ _ | .object _ _ | .task _ _ | .agentRecord _ _ _ | .semanticRecord _ _ => true
  | _ => false

/-- A path that parses to a value shows the fact of that value. -/
theorem shows_of_parse {path : MountPath} {parsed : JetStreamPath}
    (h : JetStreamPath.parse path.asStr = .ok parsed) (hValue : parsed.isValue = true) :
    ∃ fact, StorageFact.fromJetstreamPath parsed = some fact ∧ Shows path.components fact := by
  have hParses := parse_cases h
  generalize path.components = parts at hParses
  cases hParses with
  | kvKey hBucket hFirst hKey =>
      obtain ⟨hne, rfl⟩ := joinKvKey_eq_ok hKey
      exact ⟨_, rfl, .kv _ hne⟩
  | object hBucket hName =>
      obtain ⟨hne, rfl⟩ := joinPath_eq_ok hName
      exact ⟨_, rfl, .object _ hne⟩
  | @task ns task hName hReserved hTask =>
      refine ⟨.kv tasksBucket (['/'].intercalate [ns, task]), ?_, .task (by simp)⟩
      simp [StorageFact.fromJetstreamPath, MaterializedTarget.fromPath,
        StorageFact.fromMaterializedTarget]
  | @agentRecord agent key area parts hName hReserved hArea hKey =>
      obtain ⟨hne, rfl⟩ := joinKvKey_eq_ok hKey
      refine ⟨.kv agentsBucket (['/'].intercalate (agent :: area.asStr :: parts)), ?_,
        .agent agent area.asStr hne⟩
      obtain ⟨next, more, rfl⟩ := List.exists_cons_of_ne_nil hne
      simp [StorageFact.fromJetstreamPath, MaterializedTarget.fromPath,
        StorageFact.fromMaterializedTarget, List.intercalate_cons_cons]
  | @semanticRecord area key parts hKey =>
      obtain ⟨hne, rfl⟩ := joinKvKey_eq_ok hKey
      refine ⟨.kv semanticBucket (['/'].intercalate (area.asStr :: parts)), ?_,
        .semantic (by simp)⟩
      obtain ⟨next, more, rfl⟩ := List.exists_cons_of_ne_nil hne
      simp [StorageFact.fromJetstreamPath, MaterializedTarget.fromPath,
        StorageFact.fromMaterializedTarget, List.intercalate_cons_cons]
  | _ => cases hValue

/-! ## Visible paths -/

theorem joinStoragePath_eq_ok {fixed : List Str} {tail : Str} {path : MountPath} :
    joinStoragePath fixed (some tail) = .ok path ↔
      tail ≠ [] ∧ path.components = fixed ++ tail.splitOn '/' := by
  simp only [joinStoragePath]
  split
  · next hNil =>
    rw [List.isEmpty_iff] at hNil
    simp [hNil]
  · next hNil =>
    rw [List.isEmpty_iff] at hNil
    rw [MountPath.fromComponents_eq_ok]
    constructor
    · rintro ⟨-, hPath⟩
      exact ⟨hNil, hPath⟩
    · rintro ⟨-, hPath⟩
      exact ⟨hPath ▸ path.valid_components, hPath⟩

theorem mem_pushUnique {paths : List AffectedPath} {affected : AffectedPath} {path : MountPath} :
    path ∈ (pushUnique paths affected).map (·.path) ↔
      path ∈ paths.map (·.path) ∨ path = affected.path := by
  simp only [pushUnique]
  split
  · next hAny =>
    obtain ⟨candidate, hMem, hEq⟩ := List.any_eq_true.mp hAny
    rw [beq_iff_eq] at hEq
    constructor
    · exact Or.inl
    · rintro (h | rfl)
      · exact h
      · exact hEq ▸ List.mem_map_of_mem hMem
  · simp

theorem pushStoragePath_ok (fixed : List Str) {tail : Str} (hne : tail ≠ [])
    (hValid : MountPath.Valid (fixed ++ tail.splitOn '/')) (paths : List AffectedPath)
    (reason : AffectedPathReason) :
    ∃ pushed, pushStoragePath paths reason fixed (some tail) = .ok pushed ∧
      ∀ path : MountPath, path ∈ pushed.map (·.path) ↔
        path ∈ paths.map (·.path) ∨ path.components = fixed ++ tail.splitOn '/' := by
  have hJoin : joinStoragePath fixed (some tail) = .ok (MountPath.ofValid hValid) := by
    rw [joinStoragePath_eq_ok]
    exact ⟨hne, MountPath.components_ofValid hValid⟩
  refine ⟨pushUnique paths ⟨MountPath.ofValid hValid, reason⟩, ?_, ?_⟩
  · rw [pushStoragePath, hJoin]
    rfl
  · intro path
    rw [mem_pushUnique, MountPath.eq_iff_components, MountPath.components_ofValid]

/-- The components of the alias of a KV key. -/
def aliasComponents (bucket key : Str) : Option (List Str) :=
  if bucket = tasksBucket then some ("tasks".toList :: key.splitOn '/')
  else if bucket = agentsBucket then
    if 3 ≤ (key.splitOn '/').length then some ("agents".toList :: key.splitOn '/') else none
  else if bucket = semanticBucket then some ("semantic".toList :: key.splitOn '/')
  else none

theorem agentKvAliasParts_of_valid {key : Str} (hValid : MountPath.Valid (key.splitOn '/')) :
    (agentKvAliasParts key = none ∧ (key.splitOn '/').length < 3) ∨
      ∃ agent area rest, agentKvAliasParts key = some (agent, area, rest) ∧ rest ≠ [] ∧
        key.splitOn '/' = agent :: area :: rest.splitOn '/' ∧ 3 ≤ (key.splitOn '/').length := by
  unfold agentKvAliasParts
  split
  · next agent area next more hSplit =>
    rw [hSplit] at hValid
    have hTail : MountPath.Valid (next :: more) := fun part hMem => hValid part (by simp_all)
    have hRest : ['/'].intercalate (next :: more) ≠ [] := by
      intro hNil
      cases intercalate_eq_nil hTail hNil
    have hAgent := MountPath.ne_nil_of_valid (hValid agent (by simp))
    have hArea := MountPath.ne_nil_of_valid (hValid area (by simp))
    refine Or.inr ⟨agent, area, ['/'].intercalate (next :: more), ?_, hRest, ?_, by simp [hSplit]⟩
    · rw [if_neg (by simp only [List.isEmpty_iff, Bool.or_eq_true]; tauto)]
    · rw [hSplit, MountPath.splitOn_intercalate_of_valid hTail (by simp)]
  · next hShort =>
    refine Or.inl ⟨rfl, ?_⟩
    match hSplit : key.splitOn '/' with
    | [] | [_] | [_, _] => simp
    | agent :: area :: next :: more => exact absurd hSplit (hShort agent area next more)

theorem pushKvAliasPaths_ok {key : Str} (hne : key ≠ [])
    (hValid : MountPath.Valid (key.splitOn '/')) (paths : List AffectedPath) (bucket : Str) :
    ∃ pushed, pushKvAliasPaths paths bucket key = .ok pushed ∧
      ∀ path : MountPath, path ∈ pushed.map (·.path) ↔
        path ∈ paths.map (·.path) ∨ aliasComponents bucket key = some path.components := by
  simp only [pushKvAliasPaths, aliasComponents]
  split_ifs with hTasks hAgents hLength hSemantic
  · have hFixed : MountPath.Valid ["tasks".toList] := by decide
    obtain ⟨pushed, hPushed, hMem⟩ := pushStoragePath_ok _ hne
      (MountPath.valid_append.mpr ⟨hFixed, hValid⟩) paths .alias_
    exact ⟨pushed, hPushed, fun path => by simp [hMem, eq_comm]⟩
  · rcases agentKvAliasParts_of_valid hValid with ⟨-, hShort⟩ | ⟨agent, area, rest, hParts, hRest,
      hSplit, -⟩
    · omega
    · have hFixed : MountPath.Valid ["agents".toList] := by decide
      have hAll := MountPath.valid_append.mpr ⟨hFixed, hValid⟩
      rw [hSplit] at hAll
      obtain ⟨pushed, hPushed, hMem⟩ :=
        pushStoragePath_ok ["agents".toList, agent, area] hRest hAll paths .alias_
      exact ⟨pushed, by rw [hParts]; exact hPushed, fun path => by simp [hMem, hSplit, eq_comm]⟩
  · rcases agentKvAliasParts_of_valid hValid with ⟨hNone, -⟩ | ⟨agent, area, rest, -, -, -, hLong⟩
    · exact ⟨paths, by rw [hNone], by simp⟩
    · exact absurd hLong hLength
  · have hFixed : MountPath.Valid ["semantic".toList] := by decide
    obtain ⟨pushed, hPushed, hMem⟩ := pushStoragePath_ok _ hne
      (MountPath.valid_append.mpr ⟨hFixed, hValid⟩) paths .alias_
    exact ⟨pushed, hPushed, fun path => by simp [hMem, eq_comm]⟩
  · exact ⟨paths, rfl, by simp⟩

/-- A KV key is visible at its native path and its alias, if the native path is one. -/
theorem visiblePaths_kv_ok {bucket key : Str} (hne : key ≠ [])
    (hValid : MountPath.Valid ("kv".toList :: bucket :: key.splitOn '/')) :
    ∃ paths, visiblePaths (.kv bucket key) = .ok paths ∧
      ∀ path : MountPath, path ∈ paths.map (·.path) ↔
        path.components = "kv".toList :: bucket :: key.splitOn '/' ∨
          aliasComponents bucket key = some path.components := by
  obtain ⟨native, hNative, hMem⟩ :=
    pushStoragePath_ok ["kv".toList, bucket] hne hValid [] .exact
  have hKey : MountPath.Valid (key.splitOn '/') := fun part hMem => hValid part (by simp [hMem])
  obtain ⟨pushed, hPushed, hMemPushed⟩ := pushKvAliasPaths_ok hne hKey native bucket
  refine ⟨pushed, ?_, ?_⟩
  · simp only [visiblePaths, hNative]
    exact hPushed
  · intro path
    rw [hMemPushed, hMem]
    simp

theorem visiblePaths_object_ok {bucket name : Str} (hne : name ≠ [])
    (hValid : MountPath.Valid ("objects".toList :: bucket :: name.splitOn '/')) :
    ∃ paths, visiblePaths (.object bucket name) = .ok paths ∧
      ∀ path : MountPath, path ∈ paths.map (·.path) ↔
        path.components = "objects".toList :: bucket :: name.splitOn '/' := by
  obtain ⟨native, hNative, hMem⟩ :=
    pushStoragePath_ok ["objects".toList, bucket] hne hValid [] .exact
  exact ⟨native, hNative, fun path => by simp [hMem]⟩

theorem valid_of_pushStoragePath {front bucket key : Str} {paths : List AffectedPath}
    (h : pushStoragePath [] .exact [front, bucket] (some key) = .ok paths) :
    key ≠ [] ∧ MountPath.Valid (front :: bucket :: key.splitOn '/') := by
  rw [pushStoragePath, except_bind_eq_ok] at h
  obtain ⟨path, hJoin, -⟩ := h
  rw [joinStoragePath_eq_ok] at hJoin
  have hValid := path.valid_components
  rw [hJoin.2] at hValid
  exact ⟨hJoin.1, hValid⟩

theorem aliasComponents_shows {bucket key : Str} {parts : List Str}
    (h : aliasComponents bucket key = some parts) : Shows parts (.kv bucket key) := by
  have hne : key.splitOn '/' ≠ [] := List.splitOn_ne_nil '/' key
  have hKey : ['/'].intercalate (key.splitOn '/') = key := List.intercalate_splitOn '/'
  simp only [aliasComponents] at h
  split_ifs at h with hTasks hAgents hLength hSemantic
  · cases h
    have hShows := Shows.task hne
    rwa [hKey, ← hTasks] at hShows
  · cases h
    obtain ⟨agent, area, next, more, hSplit⟩ : ∃ agent area next more,
        key.splitOn '/' = agent :: area :: next :: more := by
      match hSplit : key.splitOn '/' with
      | [] | [_] | [_, _] => simp [hSplit] at hLength
      | agent :: area :: next :: more => exact ⟨agent, area, next, more, rfl⟩
    have hShows := Shows.agent agent area (List.cons_ne_nil next more)
    rwa [← hSplit, hKey, ← hAgents] at hShows
  · cases h
    have hShows := Shows.semantic hne
    rwa [hKey, ← hSemantic] at hShows

/-- The front of a path that shows a fact, and the components of its key. -/
theorem Shows.components {parts : List Str} {bucket key : Str} (h : Shows parts (.kv bucket key))
    (hValid : MountPath.Valid parts) :
    key ≠ [] ∧ MountPath.Valid ("kv".toList :: bucket :: key.splitOn '/') ∧
      (parts = "kv".toList :: bucket :: key.splitOn '/' ∨
        aliasComponents bucket key = some parts) := by
  have hKey : ∀ {names : List Str}, names ≠ [] → MountPath.Valid names →
      ['/'].intercalate names ≠ [] ∧ (['/'].intercalate names).splitOn '/' = names :=
    fun hne hNames => ⟨fun hNil => hne (intercalate_eq_nil hNames hNil),
      MountPath.splitOn_intercalate_of_valid hNames hne⟩
  have hFront : ∀ {bucket : Str} {names : List Str}, validMountComponent bucket = true →
      MountPath.Valid names → MountPath.Valid ("kv".toList :: bucket :: names) := by
    intro bucket names hBucket hNames
    refine List.forall_mem_cons.mpr ⟨by decide, List.forall_mem_cons.mpr ⟨hBucket, hNames⟩⟩
  cases h with
  | @kv _ names hne =>
      have hNames : MountPath.Valid names := fun part hMem => hValid part (by simp [hMem])
      obtain ⟨hNil, hSplit⟩ := hKey hne hNames
      rw [hSplit]
      exact ⟨hNil, hValid, Or.inl rfl⟩
  | @task names hne =>
      have hNames : MountPath.Valid names := fun part hMem => hValid part (by simp [hMem])
      obtain ⟨hNil, hSplit⟩ := hKey hne hNames
      refine ⟨hNil, ?_, Or.inr ?_⟩
      · rw [hSplit]
        exact hFront (by decide) hNames
      · simp [aliasComponents, hSplit]
  | @agent agent area names hne =>
      have hNames : MountPath.Valid (agent :: area :: names) :=
        fun part hMem => hValid part (List.mem_cons_of_mem _ hMem)
      obtain ⟨hNil, hSplit⟩ := hKey (by simp) hNames
      refine ⟨hNil, ?_, Or.inr ?_⟩
      · rw [hSplit]
        exact hFront (by decide) hNames
      · have hLength : 3 ≤ (agent :: area :: names).length := by
          have := List.length_pos_iff.mpr hne
          simp
          omega
        rw [aliasComponents, if_neg (by decide), if_pos rfl, hSplit, if_pos hLength]
  | @semantic names hne =>
      have hNames : MountPath.Valid names := fun part hMem => hValid part (by simp [hMem])
      obtain ⟨hNil, hSplit⟩ := hKey hne hNames
      refine ⟨hNil, ?_, Or.inr ?_⟩
      · rw [hSplit]
        exact hFront (by decide) hNames
      · rw [aliasComponents, if_neg (by decide), if_neg (by decide), if_pos rfl, hSplit]

/-- The visible paths of a value are exactly the mount paths that show it. -/
theorem mem_visiblePaths_kv {bucket key : Str} {path : MountPath} :
    (∃ paths, visiblePaths (.kv bucket key) = .ok paths ∧ path ∈ paths.map (·.path)) ↔
      Shows path.components (.kv bucket key) := by
  constructor
  · rintro ⟨paths, hPaths, hMem⟩
    obtain ⟨native, hNative, -⟩ := except_bind_eq_ok.mp hPaths
    obtain ⟨hne, hValid⟩ := valid_of_pushStoragePath hNative
    obtain ⟨paths', hPaths', hIff⟩ := visiblePaths_kv_ok hne hValid
    rw [hPaths] at hPaths'
    cases hPaths'
    rcases (hIff path).mp hMem with hPath | hAlias
    · rw [hPath]
      have hShows := Shows.kv bucket (List.splitOn_ne_nil '/' key)
      rwa [List.intercalate_splitOn '/'] at hShows
    · exact aliasComponents_shows hAlias
  · intro hShows
    obtain ⟨hne, hValid, hPath⟩ := hShows.components path.valid_components
    obtain ⟨paths, hPaths, hIff⟩ := visiblePaths_kv_ok hne hValid
    exact ⟨paths, hPaths, (hIff path).mpr hPath⟩

theorem mem_visiblePaths_object {bucket name : Str} {path : MountPath} :
    (∃ paths, visiblePaths (.object bucket name) = .ok paths ∧ path ∈ paths.map (·.path)) ↔
      Shows path.components (.object bucket name) := by
  constructor
  · rintro ⟨paths, hPaths, hMem⟩
    obtain ⟨hne, hValid⟩ := valid_of_pushStoragePath hPaths
    obtain ⟨paths', hPaths', hIff⟩ := visiblePaths_object_ok hne hValid
    rw [hPaths] at hPaths'
    cases hPaths'
    rw [(hIff path).mp hMem]
    have hShows := Shows.object bucket (List.splitOn_ne_nil '/' name)
    rwa [List.intercalate_splitOn '/'] at hShows
  · intro hShows
    have hValid := path.valid_components
    generalize hParts : path.components = parts at hShows hValid
    cases hShows with
    | @object _ names hne =>
        have hNames : MountPath.Valid names := fun part hMem => hValid part (by simp [hMem])
        have hSplit := MountPath.splitOn_intercalate_of_valid hNames hne
        have hNil : ['/'].intercalate names ≠ [] := fun h => hne (intercalate_eq_nil hNames h)
        obtain ⟨paths, hPaths, hIff⟩ := visiblePaths_object_ok hNil (by rwa [hSplit])
        exact ⟨paths, hPaths, (hIff path).mpr (by rw [hParts, hSplit])⟩

/-! ## Aliases of streams -/

theorem mem_pushStoragePath {paths pushed : List AffectedPath} {reason : AffectedPathReason}
    {fixed : List Str} {tail : Option Str}
    (h : pushStoragePath paths reason fixed tail = .ok pushed) {path : MountPath} :
    path ∈ pushed.map (·.path) ↔
      path ∈ paths.map (·.path) ∨ joinStoragePath fixed tail = .ok path := by
  obtain ⟨joined, hJoined, h⟩ := except_bind_eq_ok.mp h
  cases h
  rw [mem_pushUnique, hJoined]
  simp [eq_comm]

theorem splitOn_of_not_mem {c : Char} {s : Str} (h : c ∉ s) : s.splitOn c = [s] := by
  have hOne : ([c].intercalate [s]).splitOn c = [s] :=
    List.splitOn_intercalate c (by simpa using h) (by simp)
  simpa using hOne

theorem splitOn_mailbox {agent : Str} (hAgent : '.' ∉ agent) (area : AgentArea) :
    ("agents.".toList ++ agent ++ '.' :: area.asStr).splitOn '.' =
      ["agents".toList, agent, area.asStr] := by
  have hDots : ∀ piece ∈ ["agents".toList, agent, area.asStr], '.' ∉ piece := by
    intro piece hPiece
    rcases List.mem_cons.mp hPiece with rfl | hPiece
    · decide
    · rcases List.mem_cons.mp hPiece with rfl | hPiece
      · exact hAgent
      · rw [List.mem_singleton.mp hPiece]
        cases area <;> decide
  rw [← List.splitOn_intercalate '.' hDots (by simp)]
  simp [List.intercalate_cons_cons]

/-- The path of a mailbox or an event log is visible for the subject behind it. -/
theorem mem_visiblePaths_stream {path : MountPath} {parsed : JetStreamPath} {stream subject : Str}
    {paths : List AffectedPath} (hParse : JetStreamPath.parse path.asStr = .ok parsed)
    (hAlias : MaterializedTarget.fromPath parsed = some (.stream stream subject))
    (hPaths : visiblePaths (.streamSubject stream subject) = .ok paths) :
    path ∈ paths.map (·.path) := by
  have hParses := parse_cases hParse
  obtain ⟨exact, -, hPaths⟩ := except_bind_eq_ok.mp hPaths
  rw [pushStreamAliasPaths] at hPaths
  generalize hComponents : path.components = parts at hParses
  cases hParses with
  | @eventLog log hStream =>
      obtain ⟨rfl, rfl⟩ : log = stream ∧ "events.".toList ++ log = subject := by
        simpa [MaterializedTarget.fromPath] using hAlias
      have hSlash : '/' ∉ log ++ ".jsonl".toList := by
        rw [List.mem_append, not_or]
        exact ⟨hStream.not_mem (by decide), by decide⟩
      have hJoin : joinStoragePath ["events".toList] (some (log ++ ".jsonl".toList)) =
          .ok path := by
        rw [joinStoragePath_eq_ok, splitOn_of_not_mem hSlash, hComponents]
        exact ⟨by simp, rfl⟩
      rw [if_pos (Text.stripPrefix_append _ _)] at hPaths
      obtain ⟨logs, hLogs, hPaths⟩ := except_bind_eq_ok.mp hPaths
      simp only at hPaths
      have hMem : path ∈ logs.map (·.path) := (mem_pushStoragePath hLogs).mpr (Or.inr hJoin)
      split at hPaths
      · split at hPaths
        · exact (mem_pushStoragePath hPaths).mpr (Or.inl hMem)
        · cases hPaths
          exact hMem
      · cases hPaths
        exact hMem
  | @agentMailbox agent area hName hReserved hArea =>
      obtain ⟨rfl, rfl⟩ : agentsStream = stream ∧
          "agents.".toList ++ agent ++ '.' :: area.asStr = subject := by
        simpa [MaterializedTarget.fromPath, agentSubject, hArea] using hAlias
      have hParts : agentMailboxSubjectParts ("agents.".toList ++ agent ++ '.' :: area.asStr) =
          some (agent, area) := by
        have hSplit := splitOn_mailbox (hName.not_mem (by decide)) area
        have hEmpty : agent.isEmpty = false := by simpa using hName.1
        have hParse : AgentArea.parse area.asStr = some area := AgentArea.parse_eq_some.mpr rfl
        rw [agentMailboxSubjectParts, hSplit]
        simp [hEmpty, hReserved, hParse, hArea]
      have hEvents : Text.stripPrefix "events.".toList
          ("agents.".toList ++ agent ++ '.' :: area.asStr) ≠ some agentsStream := by
        intro hStrip
        have hPrefix := Text.stripPrefix_eq_some.mp hStrip
        simp at hPrefix
      rw [if_neg hEvents] at hPaths
      obtain ⟨logs, -, hPaths⟩ := except_bind_eq_ok.mp hPaths
      simp only [if_true, hParts] at hPaths
      refine (mem_pushStoragePath hPaths).mpr (Or.inr ?_)
      rw [joinStoragePath, MountPath.fromComponents_eq_ok]
      exact ⟨hComponents ▸ path.valid_components, hComponents⟩
  | _ => simp [MaterializedTarget.fromPath] at hAlias

/-! ## Affected paths -/

theorem mem_pushAncestors {paths pushed : List AffectedPath} {path shown : MountPath}
    {reason : AffectedPathReason} (h : pushAncestors paths path reason = .ok pushed)
    (hMem : shown ∈ paths.map (·.path)) : shown ∈ pushed.map (·.path) := by
  rw [pushAncestors] at h
  generalize (List.range _).reverse.map _ = lens at h
  induction lens generalizing paths with
  | nil =>
      cases h
      exact hMem
  | cons len rest ih =>
      obtain ⟨next, hNext, h⟩ := except_bind_eq_ok.mp h
      obtain ⟨ancestor, -, hPushed⟩ := except_bind_eq_ok.mp hNext
      cases hPushed
      exact ih (mem_pushUnique.mpr (Or.inl hMem)) h

/-- Every visible path of a fact is among the paths its change affects. -/
theorem mem_invalidationPaths {fact : StorageFact} {visible paths : List AffectedPath}
    (hVisible : visiblePaths fact = .ok visible) (hPaths : invalidationPaths fact = .ok paths)
    {path : MountPath} (hMem : path ∈ visible.map (·.path)) : path ∈ paths.map (·.path) := by
  rw [invalidationPaths, hVisible] at hPaths
  change visible.foldlM _ [] = _ at hPaths
  generalize ([] : List AffectedPath) = start at hPaths
  have hStart : path ∈ visible.map (·.path) ∨ path ∈ start.map (·.path) := Or.inl hMem
  clear hVisible hMem
  induction visible generalizing start with
  | nil =>
      cases hPaths
      exact hStart.resolve_left List.not_mem_nil
  | cons affected rest ih =>
      obtain ⟨next, hNext, hRest⟩ := except_bind_eq_ok.mp hPaths
      refine ih next hRest ?_
      rcases hStart with hMem | hMem
      · rcases List.mem_cons.mp hMem with rfl | hMem
        · exact Or.inr (mem_pushAncestors hNext (mem_pushUnique.mpr (Or.inr rfl)))
        · exact Or.inl hMem
      · exact Or.inr (mem_pushAncestors hNext (mem_pushUnique.mpr (Or.inl hMem)))

theorem pushAncestors_ok (paths : List AffectedPath) (path : MountPath)
    (reason : AffectedPathReason) : ∃ pushed, pushAncestors paths path reason = .ok pushed := by
  rw [pushAncestors]
  generalize (List.range _).reverse.map _ = lens
  induction lens generalizing paths with
  | nil => exact ⟨paths, rfl⟩
  | cons len rest ih =>
      have hValid : MountPath.Valid (path.components.take len) := fun part hPart =>
        path.valid_components part (List.mem_of_mem_take hPart)
      have hAncestor : MountPath.fromComponents (path.components.take len) =
          .ok (MountPath.ofValid hValid) :=
        MountPath.fromComponents_eq_ok.mpr ⟨hValid, MountPath.components_ofValid hValid⟩
      obtain ⟨pushed, hPushed⟩ := ih (pushUnique paths ⟨MountPath.ofValid hValid, .ancestor⟩)
      refine ⟨pushed, except_bind_eq_ok.mpr ⟨_, ?_, hPushed⟩⟩
      exact except_bind_eq_ok.mpr ⟨_, hAncestor, rfl⟩

theorem invalidationPaths_ok {fact : StorageFact} {visible : List AffectedPath}
    (h : visiblePaths fact = .ok visible) : ∃ paths, invalidationPaths fact = .ok paths := by
  have hFold : ∀ start : List AffectedPath, ∃ paths,
      visible.foldlM (fun paths affected =>
        pushAncestors (pushUnique paths affected) affected.path affected.reason) start =
          Except.ok paths := by
    clear h
    induction visible with
    | nil => exact fun start => ⟨start, rfl⟩
    | cons affected rest ih =>
        intro start
        obtain ⟨next, hNext⟩ := pushAncestors_ok (pushUnique start affected) affected.path
          affected.reason
        obtain ⟨paths, hPaths⟩ := ih next
        exact ⟨paths, except_bind_eq_ok.mpr ⟨next, hNext, hPaths⟩⟩
  obtain ⟨paths, hPaths⟩ := hFold []
  exact ⟨paths, except_bind_eq_ok.mpr ⟨visible, h, hPaths⟩⟩

theorem mem_foldl_pushUnique {paths pushed : List AffectedPath} {path : MountPath} :
    path ∈ (pushed.foldl pushUnique paths).map (·.path) ↔
      path ∈ paths.map (·.path) ∨ path ∈ pushed.map (·.path) := by
  induction pushed generalizing paths with
  | nil => simp
  | cons affected rest ih =>
      rw [List.foldl_cons, ih, mem_pushUnique, List.map_cons, List.mem_cons, or_assoc]

/-- Moving one path to the front loses none. -/
theorem prioritizeSourcePath_ok (paths : List AffectedPath) (sourcePath : MountPath) :
    ∃ reordered, prioritizeSourcePath paths sourcePath = .ok reordered ∧
      ∀ path, path ∈ paths.map (·.path) → path ∈ reordered.map (·.path) := by
  rw [prioritizeSourcePath]
  split
  · exact ⟨paths, rfl, fun _ => id⟩
  · next source _ =>
    obtain ⟨front, hFront⟩ := pushAncestors_ok (pushUnique [] source) source.path source.reason
    refine ⟨paths.foldl pushUnique front, except_bind_eq_ok.mpr ⟨front, hFront, rfl⟩, ?_⟩
    exact fun path hMem => mem_foldl_pushUnique.mpr (Or.inr hMem)

end EventFs.Protocol
