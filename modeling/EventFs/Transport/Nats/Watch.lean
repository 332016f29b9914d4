import EventFs.Transport.Cache
import EventFs.Transport.Nats.Kv
import EventFs.Transport.Nats.Objects
import EventFs.Transport.Nats.Streams
import EventFs.Protocol.PathFacts

/-!
# Watching the broker

Every message the client sees is turned into the paths whose content it may change, or
into a gap when that cannot be told. A gap empties the read cache.
-/

namespace EventFs.Transport.Nats.Watch

open Library Protocol

def watchDrainLimit : Nat := 4096

def storageFactWatchDispatch (fact : StorageFact) : List WatchEvent :=
  match invalidationPaths fact with
  | .ok paths => paths.map fun affected => .invalidateAffectedPath affected.path affected.reason
  | .error _ => [.gap]

def objectWatchDispatch (message : Message) : Option (List WatchEvent) :=
  match Objects.objectWatchSubject message.subject with
  | none => none
  | some .chunk | some .marker => some []
  | some (.metadata bucket) =>
      match Objects.objectWatchFact bucket message with
      | some fact => some (storageFactWatchDispatch fact)
      | none => some [.gap]

def watchEventsFromMessage (message : Message) : List WatchEvent :=
  match Kv.subjectParts message.subject with
  | some (bucket, key) => storageFactWatchDispatch (.kv bucket key)
  | none =>
      match objectWatchDispatch message with
      | some events => events
      | none =>
          match Text.stripPrefix "events.".toList message.subject with
          | some stream => storageFactWatchDispatch (.streamSubject stream message.subject)
          | none =>
              if (Streams.agentMailboxParts message.subject).isSome then
                storageFactWatchDispatch (.streamSubject agentsStream message.subject)
              else if Streams.isReservedAgentMailboxSubject message.subject then []
              else [.gap]

def drainWatchMessages (messages : List Message) : List WatchEvent :=
  let drained := messages.take watchDrainLimit
  drained.flatMap watchEventsFromMessage ++
    if drained.length = watchDrainLimit then [.gap] else []

/-! ## Messages and facts -/

/-- The message changes the value or the subject the fact is about. -/
def Changes : StorageFact → Message → Prop
  | .kv bucket key, message => message.subject = Kv.subject bucket key
  | .object bucket name, message => ∃ encoded info,
      message.subject = "$O.".toList ++ bucket ++ ".M.".toList ++ encoded ∧
        message.payload = .objectInfo info ∧ info.name = name
  | .streamSubject _ subject, message => message.subject = subject

/-- The subjects the client knows. -/
inductive Recognised : Str → Prop
  | kv {bucket : Str} (key : Str) (hBucket : '.' ∉ bucket) : Recognised (Kv.subject bucket key)
  | object {bucket : Str} {kind : Char} (rest : Str) (hBucket : '.' ∉ bucket)
      (hKind : kind ∈ ['M', 'W', 'C']) :
      Recognised ("$O.".toList ++ bucket ++ '.' :: kind :: '.' :: rest)
  | event (stream : Str) : Recognised ("events.".toList ++ stream)
  | mailbox {agent : Str} {area : AgentArea} (hAgent : '.' ∉ agent)
      (hArea : area.isMailbox = true) :
      Recognised ("agents.".toList ++ agent ++ '.' :: area.asStr)

/-- The paths of a fact cannot be named. -/
def Unnamed (fact : StorageFact) : Prop := ∀ paths, visiblePaths fact ≠ .ok paths

/-- Messages of which it cannot be told what they change. -/
inductive Uncertain (message : Message) : Prop
  | shape (h : ¬ Recognised message.subject)
  | kv {bucket key : Str} (hBucket : '.' ∉ bucket)
      (hSubject : message.subject = Kv.subject bucket key)
      (hPaths : Unnamed (.kv bucket key))
  | object {bucket encoded : Str} {info : ObjectInfo} (hBucket : '.' ∉ bucket)
      (hSubject : message.subject = "$O.".toList ++ bucket ++ ".M.".toList ++ encoded)
      (hPayload : message.payload = .objectInfo info) (hPaths : Unnamed (.object bucket info.name))
  | event {stream : Str} (hSubject : message.subject = "events.".toList ++ stream)
      (hPaths : Unnamed (.streamSubject stream message.subject))
  | mailbox {agent : Str} {area : AgentArea} (hAgent : '.' ∉ agent)
      (hReserved : isReservedKvKey agent = false) (hArea : area.isMailbox = true)
      (hSubject : message.subject = "agents.".toList ++ agent ++ '.' :: area.asStr)
      (hPaths : Unnamed (.streamSubject agentsStream message.subject))
  | payload {bucket encoded : Str} (hBucket : '.' ∉ bucket)
      (hSubject : message.subject = "$O.".toList ++ bucket ++ ".M.".toList ++ encoded)
      (hPayload : ∀ info, message.payload ≠ .objectInfo info)

/-- Paths whose content can change and be cached. -/
def isMutableContent : JetStreamPath → Bool
  | .kvKey _ _ | .object _ _ | .task _ _ | .agentRecord _ _ _ | .semanticRecord _ _
  | .eventLog _ | .agentMailbox _ _ => true
  | _ => false

/-! ## Decoding subjects -/

section Decoding

variable {message : Message}

theorem subjectParts_subject {bucket : Str} (hBucket : '.' ∉ bucket) (key : Str) :
    Kv.subjectParts (Kv.subject bucket key) = some (bucket, key) := by
  rw [Kv.subjectParts, Kv.subject, List.append_assoc, Text.stripPrefix_append]
  exact Text.splitOnce_append hBucket key

/-- A prefix that differs in one of the first characters. -/
theorem stripPrefix_append_none {pre other : Str} (h : (pre.zip other).any fun (a, b) => a ≠ b)
    (rest : Str) : Text.stripPrefix pre (other ++ rest) = none := by
  rw [Text.stripPrefix_eq_none]
  rintro ⟨more, hMore⟩
  induction pre generalizing other with
  | nil => simp at h
  | cons a pre ih =>
      cases other with
      | nil => simp at h
      | cons b other =>
          obtain ⟨rfl, hRest⟩ := List.cons.inj hMore
          exact ih (by simpa using h) hRest

theorem subjectParts_object (rest : Str) : Kv.subjectParts ("$O.".toList ++ rest) = none := by
  rw [Kv.subjectParts, stripPrefix_append_none (by decide)]
  rfl

theorem subjectParts_events (rest : Str) : Kv.subjectParts ("events.".toList ++ rest) = none := by
  rw [Kv.subjectParts, stripPrefix_append_none (by decide)]
  rfl

theorem subjectParts_agents (rest : Str) : Kv.subjectParts ("agents.".toList ++ rest) = none := by
  rw [Kv.subjectParts, stripPrefix_append_none (by decide)]
  rfl

theorem objectWatchSubject_events (rest : Str) :
    Objects.objectWatchSubject ("events.".toList ++ rest) = none := by
  rw [Objects.objectWatchSubject, stripPrefix_append_none (by decide)]
  rfl

theorem objectWatchSubject_agents (rest : Str) :
    Objects.objectWatchSubject ("agents.".toList ++ rest) = none := by
  rw [Objects.objectWatchSubject, stripPrefix_append_none (by decide)]
  rfl

theorem objectWatchSubject_metadata {bucket : Str} (hBucket : '.' ∉ bucket) (encoded : Str) :
    Objects.objectWatchSubject ("$O.".toList ++ bucket ++ ".M.".toList ++ encoded) =
      some (.metadata bucket) := by
  have hSubject : "$O.".toList ++ bucket ++ ".M.".toList ++ encoded =
      "$O.".toList ++ (bucket ++ '.' :: ("M.".toList ++ encoded)) := by simp
  rw [Objects.objectWatchSubject, hSubject, Text.stripPrefix_append]
  show (Text.splitOnce '.' (bucket ++ '.' :: ("M.".toList ++ encoded))).bind _ = _
  rw [Text.splitOnce_append hBucket]
  rfl

theorem mailboxSubjectParts {agent : Str} (hAgent : '.' ∉ agent) {area : AgentArea}
    (hArea : area.isMailbox = true) :
    Streams.agentMailboxSubjectParts ("agents.".toList ++ agent ++ '.' :: area.asStr) =
      some (agent, area.asStr) := by
  rw [Streams.agentMailboxSubjectParts, splitOn_mailbox hAgent]
  cases area with
  | inbox => rfl
  | outbox => rfl
  | tasks => cases hArea
  | memory => cases hArea

/-! ## Events of a message -/

theorem events_kv {bucket key : Str} (hBucket : '.' ∉ bucket)
    (hSubject : message.subject = Kv.subject bucket key) :
    watchEventsFromMessage message = storageFactWatchDispatch (.kv bucket key) := by
  rw [watchEventsFromMessage, hSubject, subjectParts_subject hBucket]

theorem events_metadata {bucket encoded : Str} (hBucket : '.' ∉ bucket)
    (hSubject : message.subject = "$O.".toList ++ bucket ++ ".M.".toList ++ encoded) :
    watchEventsFromMessage message =
      match Objects.objectWatchFact bucket message with
      | some fact => storageFactWatchDispatch fact
      | none => [.gap] := by
  have hKv : Kv.subjectParts message.subject = none := by
    rw [hSubject, List.append_assoc, List.append_assoc]
    exact subjectParts_object _
  have hObject : Objects.objectWatchSubject message.subject = some (.metadata bucket) := by
    rw [hSubject]
    exact objectWatchSubject_metadata hBucket encoded
  rw [watchEventsFromMessage, hKv]
  simp only [objectWatchDispatch, hObject]
  cases Objects.objectWatchFact bucket message <;> rfl

theorem events_event {stream : Str} (hSubject : message.subject = "events.".toList ++ stream) :
    watchEventsFromMessage message =
      storageFactWatchDispatch (.streamSubject stream message.subject) := by
  have hKv : Kv.subjectParts message.subject = none := hSubject ▸ subjectParts_events stream
  have hObject : Objects.objectWatchSubject message.subject = none :=
    hSubject ▸ objectWatchSubject_events stream
  have hStream : Text.stripPrefix "events.".toList message.subject = some stream :=
    hSubject ▸ Text.stripPrefix_append _ _
  rw [watchEventsFromMessage, hKv]
  simp only [objectWatchDispatch, hObject, hStream]

theorem events_mailbox {agent : Str} {area : AgentArea} (hAgent : '.' ∉ agent)
    (hReserved : isReservedKvKey agent = false) (hArea : area.isMailbox = true)
    (hSubject : message.subject = "agents.".toList ++ agent ++ '.' :: area.asStr) :
    watchEventsFromMessage message =
      storageFactWatchDispatch (.streamSubject agentsStream message.subject) := by
  have hKv : Kv.subjectParts message.subject = none := by
    rw [hSubject, List.append_assoc]
    exact subjectParts_agents _
  have hObject : Objects.objectWatchSubject message.subject = none := by
    rw [hSubject, List.append_assoc]
    exact objectWatchSubject_agents _
  have hEvents : Text.stripPrefix "events.".toList message.subject = none := by
    rw [hSubject, List.append_assoc]
    exact stripPrefix_append_none (by decide) _
  have hMailbox : (Streams.agentMailboxParts message.subject).isSome = true := by
    rw [hSubject, Streams.agentMailboxParts, mailboxSubjectParts hAgent hArea]
    simp [hReserved]
  rw [watchEventsFromMessage, hKv]
  simp only [objectWatchDispatch, hObject, hEvents, hMailbox, if_true]

end Decoding

/-! ## Uncertain messages -/

theorem recognised_of_subjectParts {subject : Str} {parts : Str × Str}
    (h : Kv.subjectParts subject = some parts) : Recognised subject := by
  obtain ⟨rest, hRest, hSplit⟩ := Option.bind_eq_some_iff.mp h
  obtain ⟨hBucket, rfl⟩ := Text.splitOnce_eq_some hSplit
  rw [Text.stripPrefix_eq_some.mp hRest]
  have hKv := Recognised.kv parts.2 hBucket
  rw [Kv.subject, List.append_assoc] at hKv
  exact hKv

theorem recognised_of_objectWatchSubject {subject : Str} {kind : Objects.ObjectWatchSubject}
    (h : Objects.objectWatchSubject subject = some kind) : Recognised subject := by
  obtain ⟨rest, hRest, hParts⟩ := Option.bind_eq_some_iff.mp h
  obtain ⟨⟨bucket, tail⟩, hSplit, hKind⟩ := Option.bind_eq_some_iff.mp hParts
  obtain ⟨hBucket, rfl⟩ := Text.splitOnce_eq_some hSplit
  have hTail : ∃ letter ∈ ['M', 'W', 'C'], ∃ more, tail = letter :: '.' :: more := by
    simp only at hKind
    split_ifs at hKind with hM hW hC
    · obtain ⟨more, rfl⟩ := List.isPrefixOf_iff_prefix.mp hM
      exact ⟨'M', by simp, more, rfl⟩
    · obtain ⟨more, rfl⟩ := List.isPrefixOf_iff_prefix.mp hW
      exact ⟨'W', by simp, more, rfl⟩
    · obtain ⟨more, rfl⟩ := List.isPrefixOf_iff_prefix.mp hC
      exact ⟨'C', by simp, more, rfl⟩
  obtain ⟨letter, hLetter, more, rfl⟩ := hTail
  rw [Text.stripPrefix_eq_some.mp hRest, ← List.append_assoc]
  exact .object more hBucket hLetter

theorem recognised_of_mailbox {subject : Str} {parts : Str × Str}
    (h : Streams.agentMailboxSubjectParts subject = some parts) : Recognised subject := by
  rw [Streams.agentMailboxSubjectParts] at h
  split at h
  · next first agent area hSplit =>
    split at h
    · next hMailbox =>
      obtain ⟨rfl, hArea⟩ := hMailbox
      have hAgent : '.' ∉ agent := Text.not_mem_of_mem_splitOn (s := subject) (by rw [hSplit]; simp)
      have hSubject : subject = "agents.".toList ++ agent ++ '.' :: area := by
        have hWhole : ['.'].intercalate (subject.splitOn '.') = subject :=
          List.intercalate_splitOn '.'
        rw [← hWhole, hSplit]
        simp [List.intercalate_cons_cons]
      rw [hSubject]
      rcases hArea with rfl | rfl
      · exact @Recognised.mailbox agent .inbox hAgent rfl
      · exact @Recognised.mailbox agent .outbox hAgent rfl
    · cases h
  · cases h

theorem gap_of_unnamed {fact : StorageFact} (h : Unnamed fact) :
    storageFactWatchDispatch fact = [.gap] := by
  cases hPaths : visiblePaths fact with
  | ok paths => exact absurd hPaths (h paths)
  | error err =>
      rw [storageFactWatchDispatch, invalidationPaths, hPaths]
      rfl

theorem gap_of_uncertain {message : Message} (h : Uncertain message) :
    .gap ∈ watchEventsFromMessage message := by
  cases h with
  | kv hBucket hSubject hPaths =>
      rw [events_kv hBucket hSubject, gap_of_unnamed hPaths]
      exact List.mem_singleton.mpr rfl
  | @object bucket encoded info hBucket hSubject hPayload hPaths =>
      have hFact : Objects.objectWatchFact bucket message = some (.object bucket info.name) := by
        rw [Objects.objectWatchFact, hPayload]
      rw [events_metadata hBucket hSubject, hFact]
      simp only [gap_of_unnamed hPaths]
      exact List.mem_singleton.mpr rfl
  | event hSubject hPaths =>
      rw [events_event hSubject, gap_of_unnamed hPaths]
      exact List.mem_singleton.mpr rfl
  | mailbox hAgent hReserved hArea hSubject hPaths =>
      rw [events_mailbox hAgent hReserved hArea hSubject, gap_of_unnamed hPaths]
      exact List.mem_singleton.mpr rfl
  | @payload bucket encoded hBucket hSubject hPayload =>
      have hFact : Objects.objectWatchFact bucket message = none := by
        rw [Objects.objectWatchFact]
        split
        · next info hInfo => exact absurd hInfo (hPayload info)
        · rfl
      rw [events_metadata hBucket hSubject, hFact]
      exact List.mem_singleton.mpr rfl
  | shape hShape =>
      -- every earlier branch would recognise the subject
      have hKv : Kv.subjectParts message.subject = none := by
        rw [Option.eq_none_iff_forall_ne_some]
        exact fun parts hParts => hShape (recognised_of_subjectParts hParts)
      have hObject : Objects.objectWatchSubject message.subject = none := by
        rw [Option.eq_none_iff_forall_ne_some]
        exact fun kind hKind => hShape (recognised_of_objectWatchSubject hKind)
      have hEvents : Text.stripPrefix "events.".toList message.subject = none := by
        rw [Option.eq_none_iff_forall_ne_some]
        intro stream hStream
        exact hShape (Text.stripPrefix_eq_some.mp hStream ▸ .event stream)
      have hMailbox : Streams.agentMailboxSubjectParts message.subject = none := by
        rw [Option.eq_none_iff_forall_ne_some]
        exact fun parts hParts => hShape (recognised_of_mailbox hParts)
      rw [watchEventsFromMessage, hKv]
      simp only [objectWatchDispatch, hObject, hEvents, Streams.agentMailboxParts,
        Streams.isReservedAgentMailboxSubject, hMailbox]
      exact List.mem_singleton.mpr rfl

/-! ## Paths of a change -/

/-- The event removes the entry of the path from any cache. -/
def Removes (event : WatchEvent) (path : MountPath) : Prop :=
  event = .gap ∨ ∃ reason, event = .invalidateAffectedPath path reason

theorem removes_of_visible {fact : StorageFact} {path : MountPath}
    (h : ∀ visible, visiblePaths fact = .ok visible → path ∈ visible.map (·.path)) :
    ∃ event ∈ storageFactWatchDispatch fact, Removes event path := by
  rw [storageFactWatchDispatch]
  cases hPaths : invalidationPaths fact with
  | error err => exact ⟨.gap, List.mem_singleton.mpr rfl, Or.inl rfl⟩
  | ok paths =>
      obtain ⟨visible, hVisible, -⟩ := except_bind_eq_ok.mp hPaths
      obtain ⟨affected, hAffected, rfl⟩ :=
        List.mem_map.mp (mem_invalidationPaths hVisible hPaths (h visible hVisible))
      exact ⟨_, List.mem_map.mpr ⟨affected, hAffected, rfl⟩, Or.inr ⟨affected.reason, rfl⟩⟩

/-- A message that changes what a path shows is turned into an event that removes it. -/
theorem removes_of_changes {path : MountPath} {parsed : JetStreamPath} {fact : StorageFact}
    {message : Message} (hParse : JetStreamPath.parse path.asStr = .ok parsed)
    (hMutable : isMutableContent parsed = true)
    (hFact : StorageFact.fromJetstreamPath parsed = some fact) (hChanges : Changes fact message) :
    ∃ event ∈ watchEventsFromMessage message, Removes event path := by
  have hValue : parsed.isValue = true →
      ∀ visible, visiblePaths fact = .ok visible → path ∈ visible.map (·.path) := by
    intro hValue visible hVisible
    obtain ⟨shown, hShown, hShows⟩ := shows_of_parse hParse hValue
    obtain rfl : shown = fact := Option.some.inj (hShown.symm.trans hFact)
    have hMem : ∃ paths, visiblePaths shown = .ok paths ∧ path ∈ paths.map (·.path) := by
      cases shown with
      | kv bucket key => exact mem_visiblePaths_kv.mpr hShows
      | object bucket name => exact mem_visiblePaths_object.mpr hShows
      | streamSubject stream subject =>
          generalize path.components = parts at hShows
          cases hShows
    obtain ⟨paths, hPaths, hMem⟩ := hMem
    cases hVisible.symm.trans hPaths
    exact hMem
  have hParses := parse_cases hParse
  generalize path.components = parts at hParses
  cases hParses with
  | kvKey hBucket hFirst hKey =>
      cases hFact
      rw [events_kv (hBucket.not_mem (by decide)) hChanges]
      exact removes_of_visible (hValue rfl)
  | @object bucket name parts hBucket hName =>
      cases hFact
      obtain ⟨encoded, info, hSubject, hPayload, hInfo⟩ := hChanges
      have hWatched : Objects.objectWatchFact bucket message = some (.object bucket name) := by
        rw [Objects.objectWatchFact, hPayload, ← hInfo]
      rw [events_metadata (hBucket.not_mem (by decide)) hSubject, hWatched]
      exact removes_of_visible (hValue rfl)
  | task hName hReserved hTask =>
      cases hFact
      rw [events_kv (by decide) hChanges]
      exact removes_of_visible (hValue rfl)
  | agentRecord hName hReserved hArea hKey =>
      cases hFact
      rw [events_kv (by decide) hChanges]
      exact removes_of_visible (hValue rfl)
  | semanticRecord area hKey =>
      cases hFact
      rw [events_kv (by decide) hChanges]
      exact removes_of_visible (hValue rfl)
  | eventLog hStream =>
      cases hFact
      rw [events_event hChanges, hChanges]
      exact removes_of_visible fun visible hVisible => mem_visiblePaths_stream hParse rfl hVisible
  | @agentMailbox agent area hName hReserved hArea =>
      obtain rfl : StorageFact.streamSubject agentsStream
          ("agents.".toList ++ agent ++ '.' :: area.asStr) = fact := by
        simpa [StorageFact.fromJetstreamPath, MaterializedTarget.fromPath, agentSubject, hArea,
          StorageFact.fromMaterializedTarget] using hFact
      rw [events_mailbox (hName.not_mem (by decide)) hReserved hArea hChanges, hChanges]
      refine removes_of_visible fun visible hVisible => mem_visiblePaths_stream hParse ?_ hVisible
      simp [MaterializedTarget.fromPath, agentSubject, hArea]
  | _ => cases hMutable

/-! ## The cache after a batch -/

def applyEvents (cache : LocalCache) (events : List WatchEvent) : LocalCache :=
  events.foldl LocalCache.apply cache

def isRefresh : WatchEvent → Bool
  | .refresh _ => true
  | _ => false

theorem apply_of_none {cache : LocalCache} {event : WatchEvent} (hRefresh : isRefresh event = false)
    {path : Str} (h : cache.entries[path]? = none) : (cache.apply event).entries[path]? = none := by
  cases event with
  | refresh entry => cases hRefresh
  | invalidatePath | invalidateAffectedPath | gap =>
      exact LocalCache.applyInvalidation_of_none h _

theorem apply_of_removes {cache : LocalCache} {event : WatchEvent} {path : MountPath}
    (h : Removes event path) : (cache.apply event).entries[path.asStr]? = none := by
  rcases h with rfl | ⟨reason, rfl⟩
  · exact LocalCache.applyInvalidation_of_mem ⟨_, List.mem_singleton.mpr rfl, Or.inl rfl⟩
  · obtain ⟨action, hAction, hMatches⟩ := LocalCache.pathMatchesAction_self
    exact LocalCache.applyInvalidation_of_mem ⟨action, hAction, Or.inr hMatches⟩

theorem applyEvents_of_none {cache : LocalCache} {events : List WatchEvent}
    (hRefresh : ∀ event ∈ events, isRefresh event = false) {path : Str}
    (h : cache.entries[path]? = none) : (applyEvents cache events).entries[path]? = none := by
  induction events generalizing cache with
  | nil => exact h
  | cons event rest ih =>
      exact ih (fun other hOther => hRefresh other (List.mem_cons_of_mem event hOther))
        (apply_of_none (hRefresh event List.mem_cons_self) h)

theorem applyEvents_of_removes {cache : LocalCache} {events : List WatchEvent}
    (hRefresh : ∀ event ∈ events, isRefresh event = false) {path : MountPath}
    (h : ∃ event ∈ events, Removes event path) :
    (applyEvents cache events).entries[path.asStr]? = none := by
  obtain ⟨event, hMem, hRemoves⟩ := h
  obtain ⟨front, back, rfl⟩ := List.append_of_mem hMem
  rw [applyEvents, List.foldl_append, List.foldl_cons]
  exact applyEvents_of_none (fun other hOther => hRefresh other (by simp [hOther]))
    (apply_of_removes hRemoves)

/-- A gap leaves nothing in the cache. -/
theorem applyEvents_of_gap {cache : LocalCache} {events : List WatchEvent}
    (hRefresh : ∀ event ∈ events, isRefresh event = false) (h : .gap ∈ events) :
    (applyEvents cache events).entries = ∅ := by
  obtain ⟨front, back, rfl⟩ := List.append_of_mem h
  refine Std.ExtTreeMap.ext_getElem? ?_
  intro path
  rw [Std.ExtTreeMap.getElem?_empty, applyEvents, List.foldl_append, List.foldl_cons]
  exact applyEvents_of_none (fun other hOther => hRefresh other (by simp [hOther]))
    Std.ExtTreeMap.getElem?_empty

theorem dispatch_not_refresh (fact : StorageFact) :
    ∀ event ∈ storageFactWatchDispatch fact, isRefresh event = false := by
  rw [storageFactWatchDispatch]
  split
  · intro event hEvent
    obtain ⟨affected, -, rfl⟩ := List.mem_map.mp hEvent
    rfl
  · intro event hEvent
    rw [List.mem_singleton.mp hEvent]
    rfl

/-- Watching never puts anything into the cache. -/
theorem message_not_refresh (message : Message) :
    ∀ event ∈ watchEventsFromMessage message, isRefresh event = false := by
  have hGap : ∀ event ∈ [WatchEvent.gap], isRefresh event = false := by
    intro event hEvent
    rw [List.mem_singleton.mp hEvent]
    rfl
  have hNone : ∀ event ∈ ([] : List WatchEvent), isRefresh event = false := by
    intro event hEvent
    cases hEvent
  rw [watchEventsFromMessage]
  split
  · exact dispatch_not_refresh _
  · split
    · next events hEvents =>
      rw [objectWatchDispatch] at hEvents
      split at hEvents
      · cases hEvents
      · cases hEvents
        exact hNone
      · cases hEvents
        exact hNone
      · split at hEvents
        · cases hEvents
          exact dispatch_not_refresh _
        · cases hEvents
          exact hGap
    · split
      · exact dispatch_not_refresh _
      · split_ifs
        · exact dispatch_not_refresh _
        · exact hNone
        · exact hGap

theorem drain_not_refresh (messages : List Message) :
    ∀ event ∈ drainWatchMessages messages, isRefresh event = false := by
  intro event hEvent
  rw [drainWatchMessages] at hEvent
  rcases List.mem_append.mp hEvent with hEvent | hEvent
  · obtain ⟨message, -, hMessage⟩ := List.mem_flatMap.mp hEvent
    exact message_not_refresh message event hMessage
  · split at hEvent
    · rw [List.mem_singleton.mp hEvent]
      rfl
    · cases hEvent

theorem gap_of_limit {messages : List Message} (h : watchDrainLimit ≤ messages.length) :
    .gap ∈ drainWatchMessages messages := by
  have hLength : (messages.take watchDrainLimit).length = watchDrainLimit := by
    rw [List.length_take, Nat.min_eq_left h]
  rw [drainWatchMessages, if_pos hLength]
  simp

/-- What a message is turned into reaches the batch, unless the limit is reached first. -/
theorem drain_of_mem {messages : List Message} {message : Message} (hMem : message ∈ messages)
    {event : WatchEvent} (hEvent : event ∈ watchEventsFromMessage message) :
    event ∈ drainWatchMessages messages ∨ .gap ∈ drainWatchMessages messages := by
  by_cases hLimit : watchDrainLimit ≤ messages.length
  · exact Or.inr (gap_of_limit hLimit)
  · left
    rw [drainWatchMessages, List.take_of_length_le (by omega)]
    exact List.mem_append_left _ (List.mem_flatMap.mpr ⟨message, hMem, hEvent⟩)

/-- A batch with a change of what a path shows leaves no entry for the path, and a batch
of which it cannot be told what it changes leaves no entry at all. -/
theorem watched_changes_leave_cache :
    (∀ (path : MountPath) (parsed : JetStreamPath) (fact : StorageFact) (messages : List Message)
      (cache : LocalCache), JetStreamPath.parse path.asStr = .ok parsed →
      isMutableContent parsed = true → StorageFact.fromJetstreamPath parsed = some fact →
      (∃ message ∈ messages, Changes fact message) →
      (applyEvents cache (drainWatchMessages messages)).get path.asStr = none) ∧
    ∀ messages : List Message,
      (∃ message ∈ messages, Uncertain message) ∨ watchDrainLimit ≤ messages.length →
      .gap ∈ drainWatchMessages messages ∧
        ∀ cache, (applyEvents cache (drainWatchMessages messages)).entries = ∅ := by
  constructor
  · rintro path parsed fact messages cache hParse hMutable hFact ⟨message, hMem, hChanges⟩
    obtain ⟨event, hEvent, hRemoves⟩ := removes_of_changes hParse hMutable hFact hChanges
    apply LocalCache.get_of_entries
    refine applyEvents_of_removes (drain_not_refresh messages) ?_
    rcases drain_of_mem hMem hEvent with hDrained | hGap
    · exact ⟨event, hDrained, hRemoves⟩
    · exact ⟨.gap, hGap, Or.inl rfl⟩
  · intro messages hUncertain
    have hGap : .gap ∈ drainWatchMessages messages := by
      rcases hUncertain with ⟨message, hMem, hMessage⟩ | hLimit
      · rcases drain_of_mem hMem (gap_of_uncertain hMessage) with hGap | hGap <;> exact hGap
      · exact gap_of_limit hLimit
    exact ⟨hGap, fun cache => applyEvents_of_gap (drain_not_refresh messages) hGap⟩

def taskPath : MountPath :=
  ⟨"/tasks/demo/x.json".toList, ["tasks".toList, "demo".toList, "x.json".toList],
    by decide, by decide⟩

def taskChange : Message :=
  ⟨Kv.subject tasksBucket "demo/x.json".toList, 7, [], .bytes [1]⟩

def cachedTask : CacheEntry := ⟨taskPath.asStr, .materializedView taskPath.asStr, [1], true⟩

theorem task_change_leaves_cache :
    (LocalCache.new.insert cachedTask).get taskPath.asStr = some cachedTask ∧
      (applyEvents (LocalCache.new.insert cachedTask) (drainWatchMessages [taskChange])).get
        taskPath.asStr = none :=
  ⟨by simp [LocalCache.get, LocalCache.insert, cachedTask],
    watched_changes_leave_cache.1 taskPath (.task "demo".toList "x.json".toList)
      (.kv tasksBucket "demo/x.json".toList) [taskChange] _ (by decide) rfl (by decide)
      ⟨taskChange, List.mem_singleton.mpr rfl, rfl⟩⟩

end EventFs.Transport.Nats.Watch
