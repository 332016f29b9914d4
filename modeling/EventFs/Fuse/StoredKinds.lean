import EventFs.Fuse.DynamicKinds
import EventFs.Fuse.PendingReads
import EventFs.Fuse.PublishedContent

/-!
# What a mount reports of stored paths

With nothing queued and nothing cached, the kind that `stat` reports is a function of what the
in-memory storage holds.
-/

namespace EventFs.Fuse

open Library Protocol Transport Program

/-! ## Kinds of stored paths -/

/-- The kind of a key from whether it is stored and what is listed below it. -/
def listedBelowKind (stored : Bool) (below : TransportResult (List DirectoryEntry)) :
    Option MountProjectionKind :=
  if stored then some .file
  else
    match below with
    | .ok entries => if entries.isEmpty then none else some .directory
    | .error _ => none

def kvKind (state : MemoryStorage) (bucket key : Str) : Option MountProjectionKind :=
  listedBelowKind (state.kv.contains (bucket, key)) (state.listKvPrefix bucket key)

def objectKind (state : MemoryStorage) (bucket object : Str) : Option MountProjectionKind :=
  listedBelowKind (state.objects.contains (bucket, object)) (state.listObjectPrefix bucket object)

def kvHistoryKind (state : MemoryStorage) (bucket key : Str) : Option MountProjectionKind :=
  if (state.kvHistory.getD (bucket, key) []).isEmpty then
    listedBelowKind false (state.listKvHistoryPrefix bucket key)
  else some .directory

def existingKind (found : Bool) (kind : MountProjectionKind) : Option MountProjectionKind :=
  if found then some kind else none

section

variable [Rendering]

def messageKind (message : TransportResult StreamMessageView) : Option MountProjectionKind :=
  existingKind (message.bind Rendering.streamMessageBytes).toOption.isSome .file

/-- What `stat` reports when the storage alone decides. -/
def storedKind (state : MemoryStorage) : JetStreamPath → Option MountProjectionKind
  | .kvBucket bucket | .kvHistoryRoot bucket =>
      existingKind (state.kvBuckets.contains bucket) .directory
  | .kvKey bucket key => kvKind state bucket key
  | .kvHistoryKey bucket key => kvHistoryKind state bucket key
  | .kvRevision bucket key revision =>
      existingKind ((state.kvHistory.getD (bucket, key) []).find? fun entry =>
        entry.revision == revision).isSome .file
  | .streamRoot stream | .streamMessages stream | .streamSubjects stream =>
      existingKind (state.streams.contains stream) .directory
  | .streamMessage stream sequence => messageKind (state.streamMessage stream sequence)
  | .streamSubject stream subject =>
      existingKind (!(state.ofSubject stream subject.asStr).isEmpty) .file
  | .objectBucket bucket => existingKind (state.objectBuckets.contains bucket) .directory
  | .object bucket object => objectKind state bucket object
  | .task ns task => existingKind (state.kv.contains (tasksBucket, ns ++ '/' :: task)) .file
  | .agentRecord agent area path =>
      kvKind state agentsBucket (agent ++ '/' :: area.asStr ++ '/' :: path)
  | .semanticRecord area path => kvKind state semanticBucket (area.asStr ++ '/' :: path)
  | .eventLog _ | .agentMailbox _ _ | .metadataFile _ => some .file
  | .root | .kvRoot | .streamsRoot | .objectsRoot | .eventsRoot | .tasksRoot | .taskNamespace _
  | .agentsRoot | .agentRoot _ | .agentDirectory _ _ | .semanticRoot | .semanticArea _
  | .metadataRoot => some .directory

end

/-! ## A mount at rest -/

/-- Nothing is queued and nothing is cached. The path cache always knows the root. -/
structure Idle (mount : Mount) : Prop where
  queue : mount.replay.queue.pendingEntries = []
  cache : ∀ name, mount.cache.get name = none
  paths : ∀ path, path ≠ MountPath.root → mount.paths.entry path = none
  root : ∀ ino kind, mount.paths.entry MountPath.root = some (ino, kind) → kind = .directory

section Stat

variable [Serde] [Rendering] {mount : Mount} {w : World MemoryStorage} {path : MountPath}
  {parsed : JetStreamPath}

/-- What `stat` reports, if it succeeds. -/
def statKind (path : MountPath) (mount : Mount) (w : World MemoryStorage) :
    Option MountProjectionKind :=
  (exec faultless (attr path) mount w).1.toOption.map (·.kind)

omit [Serde] [Rendering] in
theorem Idle.facts (h : Idle mount) : mount.replay.pendingOverlays = [] := by
  rw [WritebackReplay.pendingOverlays, WritebackQueue.pendingOverlays, h.queue]
  rfl

omit [Serde] [Rendering] in
theorem Idle.nothingPending (h : Idle mount) (path : MountPath) : NothingPending mount path where
  notDeleted := by rw [h.facts]; rfl
  noValue := by rw [h.facts]; rfl
  noLines := by rw [h.facts]; rfl
  notCached := h.cache path.asStr

omit [Rendering] in
theorem run_pendingFacts (h : Idle mount) :
    run faultless pendingFacts mount w = ([], mount, w) := by
  have hFacts : run faultless pendingFacts mount w =
      (mount.replay.pendingOverlays, mount, w) := rfl
  rw [hFacts, h.facts]

omit [Rendering] in
theorem exec_emptiesSynthetic (h : Idle mount) :
    exec faultless (queuedDeletedDescendantEmptiesSyntheticDirectory path parsed) mount w =
      (.ok false, mount, w) := by
  rw [queuedDeletedDescendantEmptiesSyntheticDirectory, exec_bind, exec_liftM, run_pendingFacts h]
  rfl

omit [Rendering] in
theorem exec_kindForParsed (h : Idle mount) (hParse : JetStreamPath.parse path.asStr = .ok parsed) :
    exec faultless (kindForParsed path parsed) mount w =
      exec faultless (durableKind parsed) mount w := by
  have hCached : cachedProjectionKind mount path = none ∨
      cachedProjectionKind mount path = some .directory ∧ parsed = .root := by
    by_cases hRoot : path = MountPath.root
    · subst hRoot
      have hParsed : parsed = .root := Except.ok.inj (hParse.symm.trans (by decide))
      cases hEntry : mount.paths.entry MountPath.root with
      | none => exact Or.inl (by rw [cachedProjectionKind, hEntry]; rfl)
      | some entry =>
          obtain ⟨ino, kind⟩ := entry
          obtain rfl := h.root ino kind hEntry
          exact Or.inr ⟨by rw [cachedProjectionKind, hEntry]; rfl, hParsed⟩
    · exact Or.inl (by rw [cachedProjectionKind, h.paths path hRoot]; rfl)
  rw [kindForParsed, exec_bind, exec_liftM, run_pendingFacts h]
  have hDeleted : QueuedOverlay.latestDeleteCovers [] path = false := rfl
  have hValue : (QueuedOverlay.wholeValueSnapshot [] path).isSome = false := rfl
  have hLines : QueuedOverlay.hasJsonlEntry [] path = false := rfl
  have hEntries : (QueuedOverlay.directoryEntries [] path).isEmpty = true := rfl
  simp only [hDeleted, hValue, hLines, hEntries, Bool.false_eq_true, if_false, Bool.or_self,
    Bool.not_true]
  rw [exec_bind, exec_emptiesSynthetic h]
  simp only [Bool.false_eq_true, if_false]
  rw [exec_bind, exec_get]
  simp only [h.cache path.asStr, Option.isSome_none, Bool.false_eq_true, if_false]
  rcases hCached with hNone | ⟨hRoot, rfl⟩
  · simp only [hNone, ite_self]
  · simp only [hRoot]
    split_ifs <;> rfl

/-! ## From the kind to `stat` -/

omit [Rendering] in
theorem exec_watchEvents :
    exec faultless (liftM applyPendingWatchEvents : Runtime Unit) mount w = (.ok (), mount, w) := by
  rw [exec_liftM, applyPendingWatchEvents, run_bind, run_request_reads rfl]
  rfl

/-- What `stat` reports of a path of this kind. -/
def attrOfKind (path : MountPath) (parsed : JetStreamPath) :
    MountProjectionKind → Runtime MountProjectionAttr
  | .directory => return ⟨.directory, 0⟩
  | .file => return ⟨.file, ← attrMetadata path parsed⟩

theorem exec_attr (h : Idle mount) (hParse : JetStreamPath.parse path.asStr = .ok parsed) :
    exec faultless (attr path) mount w =
      exec faultless (durableKind parsed >>= attrOfKind path parsed) mount w := by
  have hPath : parsePath path = .ok parsed := by
    rw [parsePath, hParse]
  rw [attr, exec_bind, exec_watchEvents]
  simp only
  rw [exec_bind, exec_liftErrno, hPath]
  simp only
  rw [exec_bind, exec_bind, exec_kindForParsed h hParse]
  rfl

theorem parses_of_statKind {kind : MountProjectionKind} (h : statKind path mount w = some kind) :
    ∃ parsed, JetStreamPath.parse path.asStr = .ok parsed := by
  cases hParse : JetStreamPath.parse path.asStr with
  | ok parsed => exact ⟨parsed, rfl⟩
  | error err =>
      have hPath : parsePath path = .error err.errno := by
        rw [parsePath, hParse]
      rw [statKind, attr, exec_bind, exec_watchEvents] at h
      simp only at h
      rw [exec_bind, exec_liftErrno, hPath] at h
      cases h

theorem statKind_directory (h : Idle mount) (hParse : JetStreamPath.parse path.asStr = .ok parsed)
    (hDurable : exec faultless (durableKind parsed) mount w = (.ok .directory, mount, w)) :
    statKind path mount w = some .directory := by
  rw [statKind, exec_attr h hParse, exec_bind, hDurable]
  rfl

theorem statKind_error {errno : Errno} (h : Idle mount)
    (hParse : JetStreamPath.parse path.asStr = .ok parsed)
    (hDurable : exec faultless (durableKind parsed) mount w = (.error errno, mount, w)) :
    statKind path mount w = none := by
  rw [statKind, exec_attr h hParse, exec_bind, hDurable]
  rfl

/-- A file is there if its size can be found. -/
theorem statKind_file (h : Idle mount) (hParse : JetStreamPath.parse path.asStr = .ok parsed)
    (hDurable : exec faultless (durableKind parsed) mount w = (.ok .file, mount, w)) :
    statKind path mount w =
      existingKind (exec faultless (attrMetadata path parsed) mount w).1.toOption.isSome .file := by
  rw [statKind, exec_attr h hParse, exec_bind, hDurable]
  simp only
  rw [attrOfKind, exec_bind]
  generalize exec faultless (attrMetadata path parsed) mount w = outcome
  obtain ⟨result, mount', w'⟩ := outcome
  cases result <;> rfl

/-! ## Sizes -/

theorem exec_attrMetadata (h : Idle mount)
    (hObject : ∀ bucket object, parsed ≠ .object bucket object) :
    (exec faultless (attrMetadata path parsed) mount w).1.toOption.isSome =
      (exec faultless (readSnapshot path parsed) mount w).1.toOption.isSome := by
  have hFacts := @run_pendingFacts _ mount w h
  have hDeleted : QueuedOverlay.latestDeleteCovers [] path = false := rfl
  have hValue : QueuedOverlay.wholeValueSnapshot [] path = none := rfl
  rw [attrMetadata, exec_bind, exec_liftM, hFacts]
  simp only [hDeleted, hValue, Bool.false_eq_true, if_false]
  rw [exec_bind, exec_queuedJsonlSnapshot_none (h.nothingPending path)]
  simp only
  rw [exec_bind, exec_get]
  simp only [h.cache path.asStr]
  rw [exec_bind]
  generalize exec faultless (readSnapshot path parsed) mount w = outcome
  obtain ⟨result, mount', w'⟩ := outcome
  cases result <;> rfl

theorem exec_attrMetadata_object (h : Idle mount) (bucket object : Str) :
    (exec faultless (attrMetadata path (.object bucket object)) mount w).1.toOption.isSome =
      w.store.objects.contains (bucket, object) := by
  have hFacts := @run_pendingFacts _ mount w h
  have hDeleted : QueuedOverlay.latestDeleteCovers [] path = false := rfl
  have hValue : QueuedOverlay.wholeValueSnapshot [] path = none := rfl
  rw [attrMetadata, exec_bind, exec_liftM, hFacts]
  simp only [hDeleted, hValue, Bool.false_eq_true, if_false]
  rw [exec_bind, exec_queuedJsonlSnapshot_none (h.nothingPending path)]
  simp only
  rw [exec_bind, exec_get]
  simp only [h.cache path.asStr]
  have hMetadata : exec faultless (objectMetadata bucket object) mount w =
      (.ok (w.store.objects[(bucket, object)]?.map fun entry =>
        ⟨entry.bytes.length, entry.sequence⟩), mount, w) := exec_requestIo_reads rfl
  rw [exec_bind, hMetadata, Std.ExtTreeMap.contains_eq_isSome_getElem?]
  cases w.store.objects[(bucket, object)]? <;> rfl

/-- A file that is not an object is there if it can be read. -/
theorem statKind_read {action : JetStreamAction} (h : Idle mount)
    (hParse : JetStreamPath.parse path.asStr = .ok parsed)
    (hDurable : exec faultless (durableKind parsed) mount w = (.ok .file, mount, w))
    (hObject : ∀ bucket object, parsed ≠ .object bucket object)
    (hSubject : ∀ stream subject, parsed ≠ .streamSubject stream subject)
    (hPlan : planOrErrno .read parsed = .ok action) :
    statKind path mount w = existingKind
      (exec faultless (readAction path parsed action) mount w).1.toOption.isSome .file := by
  rw [statKind_file h hParse hDurable, exec_attrMetadata h hObject,
    exec_readSnapshot_stored (h.nothingPending path)]
  simp only [hPlan]
  rw [exec_bind, exec_liftErrno]

omit [Serde] [Rendering] in
theorem isSome_storedOutcome (value : Option Bytes) :
    (storedOutcome value).toOption.isSome = value.isSome := by
  cases value <;> rfl

/-! ## Keys and objects -/

/-- What the code finds at a key. -/
def foundKind (stored : Bool) (below : TransportResult (List DirectoryEntry)) :
    Except Errno MountProjectionKind :=
  if stored then .ok .file
  else
    match below with
    | .ok entries => .ok (if entries.isEmpty then .file else .directory)
    | .error err => .error (ioError err)

theorem statKind_found {stored : Bool} {below : TransportResult (List DirectoryEntry)}
    (h : Idle mount) (hParse : JetStreamPath.parse path.asStr = .ok parsed)
    (hDurable : exec faultless (durableKind parsed) mount w = (foundKind stored below, mount, w))
    (hSize : (exec faultless (attrMetadata path parsed) mount w).1.toOption.isSome = stored) :
    statKind path mount w = listedBelowKind stored below := by
  unfold foundKind at hDurable
  unfold listedBelowKind
  cases hStored : stored with
  | true =>
      rw [hStored] at hDurable hSize
      rw [statKind_file h hParse hDurable, hSize]
      rfl
  | false =>
      rw [hStored] at hDurable hSize
      simp only [Bool.false_eq_true, if_false] at hDurable ⊢
      cases below with
      | error err => exact statKind_error h hParse hDurable
      | ok entries =>
          cases hEmpty : entries.isEmpty with
          | true =>
              simp only [hEmpty, if_true] at hDurable ⊢
              rw [statKind_file h hParse hDurable, hSize]
              rfl
          | false =>
              simp only [hEmpty, Bool.false_eq_true, if_false] at hDurable ⊢
              exact statKind_directory h hParse hDurable

omit [Rendering] in
theorem exec_kvPrefixProjectionKind (bucket key : Str) :
    exec faultless (kvPrefixProjectionKind bucket key) mount w =
      (foundKind (w.store.kv.contains (bucket, key)) (w.store.listKvPrefix bucket key),
        mount, w) := by
  have hList : exec faultless (requestIo (.listKvPrefix bucket key)) mount w =
      ((w.store.listKvPrefix bucket key).mapError ioError, mount, w) := exec_requestIo_reads rfl
  rw [kvPrefixProjectionKind, exec_bind, classifyKvDynamicPath, exec_bind, exec_kvGet,
    Std.ExtTreeMap.contains_eq_isSome_getElem?]
  unfold foundKind
  simp only
  cases w.store.kv[(bucket, key)]?.isSome with
  | true => rfl
  | false =>
      simp only [Bool.false_eq_true, if_false]
      rw [exec_bind, hList]
      cases w.store.listKvPrefix bucket key with
      | error err => rfl
      | ok entries =>
          simp only [Except.mapError]
          split_ifs <;> rfl

omit [Rendering] in
theorem exec_durableObject (bucket object : Str) :
    exec faultless (durableKind (.object bucket object)) mount w =
      (foundKind (w.store.objects.contains (bucket, object))
        (w.store.listObjectPrefix bucket object), mount, w) := by
  have hList : exec faultless (requestIo (.listObjectPrefix bucket object)) mount w =
      ((w.store.listObjectPrefix bucket object).mapError ioError, mount, w) :=
    exec_requestIo_reads rfl
  have hMetadata : exec faultless (objectMetadata bucket object) mount w =
      (.ok (w.store.objects[(bucket, object)]?.map fun entry =>
        ⟨entry.bytes.length, entry.sequence⟩), mount, w) := exec_requestIo_reads rfl
  rw [durableKind, exec_bind, classifyObjectDynamicPath, exec_bind, hMetadata,
    Std.ExtTreeMap.contains_eq_isSome_getElem?]
  unfold foundKind
  simp only [Option.isSome_map]
  cases w.store.objects[(bucket, object)]?.isSome with
  | true => rfl
  | false =>
      simp only [Bool.false_eq_true, if_false]
      rw [exec_bind, hList]
      cases w.store.listObjectPrefix bucket object with
      | error err => rfl
      | ok entries =>
          simp only [Except.mapError]
          split_ifs <;> rfl

theorem isSome_readKv {fact : StorageFact} {bucket key : Str} (h : Idle mount)
    (hValue : parsed.isValue = true) (hFact : StorageFact.fromJetstreamPath parsed = some fact)
    (hKv : fact = .kv bucket key) (hObject : ∀ bucket object, parsed ≠ .object bucket object) :
    (exec faultless (attrMetadata path parsed) mount w).1.toOption.isSome =
      w.store.kv.contains (bucket, key) := by
  subst hKv
  have hSubject : ∀ stream subject, parsed ≠ .streamSubject stream subject := by
    rintro stream subject rfl
    cases hValue
  obtain ⟨action, hPlan, hRead⟩ := @exec_readAction _ _ path _ _ hValue hFact mount w
  rw [exec_attrMetadata h hObject, exec_readSnapshot_stored (h.nothingPending path)]
  simp only [hPlan]
  rw [exec_bind, exec_liftErrno]
  simp only
  rw [hRead, isSome_storedOutcome, MemoryStorage.value, Option.isSome_map,
    Std.ExtTreeMap.contains_eq_isSome_getElem?]

theorem statKind_kv {bucket key : Str} (h : Idle mount)
    (hParse : JetStreamPath.parse path.asStr = .ok parsed) (hValue : parsed.isValue = true)
    (hFact : StorageFact.fromJetstreamPath parsed = some (.kv bucket key))
    (hObject : ∀ bucket object, parsed ≠ .object bucket object)
    (hDurable : exec faultless (durableKind parsed) mount w =
      exec faultless (kvPrefixProjectionKind bucket key) mount w) :
    statKind path mount w = kvKind w.store bucket key :=
  statKind_found h hParse (hDurable.trans (exec_kvPrefixProjectionKind bucket key))
    (isSome_readKv h hValue hFact rfl hObject)

/-! ## Containers -/

omit [Rendering] in
theorem exec_requireName {names : Runtime (List Str)} {found : List Str} (name : Str)
    (hList : exec faultless names mount w = (.ok found, mount, w)) :
    exec faultless (do
      if (← names).any fun candidate => candidate == name then
        return ()
      throw .notFound : Runtime Unit) mount w =
      (if found.contains name then .ok () else .error .notFound, mount, w) := by
  rw [exec_bind, hList]
  simp only [List.any_beq']
  split_ifs <;> rfl

omit [Rendering] in
theorem exec_requireKvBucket (bucket : Str) :
    exec faultless (requireKvBucket bucket) mount w =
      (if w.store.kvBuckets.contains bucket then .ok () else .error .notFound, mount, w) := by
  rw [← Std.ExtTreeSet.contains_toList]
  exact exec_requireName bucket (exec_requestIo_reads rfl)

omit [Rendering] in
theorem exec_requireObjectBucket (bucket : Str) :
    exec faultless (requireObjectBucket bucket) mount w =
      (if w.store.objectBuckets.contains bucket then .ok () else .error .notFound, mount, w) := by
  rw [← Std.ExtTreeSet.contains_toList]
  exact exec_requireName bucket (exec_requestIo_reads rfl)

omit [Rendering] in
theorem exec_requireStoredStream (stream : Str) :
    exec faultless (requireStream stream) mount w =
      (if w.store.streams.contains stream then .ok () else .error .notFound, mount, w) := by
  rw [← Std.ExtTreeMap.contains_keys]
  exact exec_requireName stream (exec_requestIo_reads rfl)

theorem statKind_container {p : Runtime Unit} {found : Bool} (h : Idle mount)
    (hParse : JetStreamPath.parse path.asStr = .ok parsed)
    (hDurable : durableKind parsed = (do p; return .directory))
    (hRequire : exec faultless p mount w =
      (if found then .ok () else .error .notFound, mount, w)) :
    statKind path mount w = existingKind found .directory := by
  have hExec : exec faultless (durableKind parsed) mount w =
      (if found then .ok .directory else .error .notFound, mount, w) := by
    rw [hDurable, exec_bind, hRequire]
    cases found <;> rfl
  cases found with
  | true => exact statKind_directory h hParse hExec
  | false => exact statKind_error h hParse hExec

/-! ## Streams -/

omit [Serde] [Rendering] in
theorem eq_of_messageSequence {message : StreamMessageView} {sequence : Nat}
    (h : messageSequence (messageEntry message) = some sequence) : sequence = message.sequence := by
  have hStrip : Text.stripSuffix ".json".toList
      (Text.decimal message.sequence ++ ".json".toList) = some (Text.decimal message.sequence) :=
    Text.stripSuffix_eq_some.mpr rfl
  simp only [messageSequence, messageEntry, hStrip] at h
  exact Text.eq_of_parseU64_decimal h

omit [Rendering] in
/-- The numbers in the names of messages are those of messages, so none is looked for in vain. -/
theorem exec_collectMessages_ok (stream subject : Str) :
    ∃ bytes, exec faultless (collectStreamSubjectSnapshot stream subject
      ((w.store.messages stream).map messageEntry)) mount w = (.ok bytes, mount, w) := by
  rw [collectStreamSubjectSnapshot]
  refine exec_foldlM_ok ?_ []
  intro bytes sequence hMem
  rw [List.filterMap_map, List.mem_filterMap] at hMem
  obtain ⟨message, hMessage, hSequence⟩ := hMem
  obtain rfl := eq_of_messageSequence hSequence
  have hSome : ((w.store.messages stream).find? fun other =>
      other.sequence == message.sequence).isSome = true :=
    List.find?_isSome.mpr ⟨message, hMessage, beq_self_eq_true _⟩
  obtain ⟨found, hFind⟩ := Option.isSome_iff_exists.mp hSome
  have hRequest : exec faultless (requestIo (.streamMessage stream message.sequence)) mount w =
      (.ok found, mount, w) := by
    rw [exec_requestIo_reads rfl]
    rw [MemoryStorage.messages] at hFind
    simp only [MemoryStorage.handle, MemoryStorage.streamMessage, hFind]
    rfl
  exact ⟨_, by rw [exec_bind, hRequest]; rfl⟩

omit [Rendering] in
theorem exec_readAllowMissing_ok (stream subject : Str) :
    ∃ bytes, exec faultless (readStreamSubjectSnapshotAllowMissing stream subject) mount w =
      (.ok bytes, mount, w) := by
  rw [readStreamSubjectSnapshotAllowMissing, exec_bind]
  by_cases hStream : stream ∈ w.store.streams
  · rw [exec_listMessages hStream]
    exact exec_collectMessages_ok stream subject
  · rw [exec_listMessages_missing hStream]
    exact ⟨[], rfl⟩

omit [Rendering] in
theorem exec_subjectExists {stream subject : Str} (hStream : stream ∈ w.store.streams) :
    exec faultless (streamSubjectExists stream subject) mount w =
      (.ok (!(w.store.ofSubject stream subject).isEmpty), mount, w) := by
  have hMessages : w.store.streams[stream]? = some (w.store.messages stream) := by
    rw [MemoryStorage.messages, Std.ExtTreeMap.getD_eq_getD_getElem?,
      Std.ExtTreeMap.getElem?_eq_some_getElem hStream]
    rfl
  rw [streamSubjectExists, exec_bind, exec_requestIo_reads rfl]
  simp only [MemoryStorage.handle, MemoryStorage.listStreamSubjects, hMessages]
  refine congrArg (fun found => (Except.ok found, mount, w)) ?_
  rw [MemoryStorage.ofSubject, ← contains_map_eq]
  exact any_subjectFile _ _

theorem statKind_streamSubject {stream : Str} {subject : StreamSubject} (h : Idle mount)
    (hParse : JetStreamPath.parse path.asStr = .ok (.streamSubject stream subject)) :
    statKind path mount w =
      existingKind (!(w.store.ofSubject stream subject.asStr).isEmpty) .file := by
  have hRequire := @exec_requireStoredStream _ mount w stream
  by_cases hStream : stream ∈ w.store.streams
  · rw [Std.ExtTreeMap.contains_iff_mem.mpr hStream, if_pos rfl] at hRequire
    have hExists := @exec_subjectExists _ mount w stream subject.asStr hStream
    cases hEmpty : (w.store.ofSubject stream subject.asStr).isEmpty with
    | true =>
        rw [hEmpty] at hExists
        have hMissing : exec faultless (durableKind (.streamSubject stream subject)) mount w =
            (.error .notFound, mount, w) := by
          rw [durableKind, exec_bind, hRequire]
          simp only
          rw [exec_bind, hExists]
          rfl
        exact statKind_error h hParse hMissing
    | false =>
        rw [hEmpty] at hExists
        have hDurable : exec faultless (durableKind (.streamSubject stream subject)) mount w =
            (.ok .file, mount, w) := by
          rw [durableKind, exec_bind, hRequire]
          simp only
          rw [exec_bind, hExists]
          rfl
        obtain ⟨bytes, hRead⟩ := @exec_collectMessages_ok _ mount w stream subject.asStr
        rw [statKind_file h hParse hDurable, exec_attrMetadata h (by simp),
          exec_readSnapshot_stored (h.nothingPending path)]
        simp only
        rw [exec_bind, hRequire]
        simp only
        rw [exec_bind, hExists]
        have hPublish : exec faultless (readAction path (.streamSubject stream subject)
            (.publishJsonLines stream subject.asStr)) mount w = (.ok bytes, mount, w) := by
          rw [readAction, jsonlTargetForPath]
          simp only
          rw [readStreamSubjectSnapshot, exec_bind, exec_listMessages hStream]
          exact hRead
        have hPlanned : exec faultless (do
            readAction path (.streamSubject stream subject)
              (← liftErrno (planOrErrno .read (.streamSubject stream subject)))) mount w =
                (.ok bytes, mount, w) := hPublish
        simp only [Bool.not_false, Bool.not_true, Bool.false_eq_true, if_false]
        rw [hPlanned]
        rfl
  · rw [if_neg (mt Std.ExtTreeMap.contains_iff_mem.mp hStream)] at hRequire
    have hEmpty : w.store.ofSubject stream subject.asStr = [] := by
      rw [MemoryStorage.ofSubject, MemoryStorage.messages,
        Std.ExtTreeMap.getD_eq_fallback hStream]
      rfl
    rw [hEmpty]
    have hMissing : exec faultless (durableKind (.streamSubject stream subject)) mount w =
        (.error .notFound, mount, w) := by
      rw [durableKind, exec_bind, hRequire]
    exact statKind_error h hParse hMissing

theorem existingKind_materialized (path : MountPath) (parsed : JetStreamPath)
    (stream subject : Str) :
    existingKind (exec faultless (readAction path parsed
      (.materializedGet (.stream stream subject))) mount w).1.toOption.isSome .file =
        some .file := by
  obtain ⟨bytes, hRead⟩ := @exec_readAllowMissing_ok _ mount w stream subject
  rw [readAction, readMaterialized, exec_bind, hRead]
  rfl

theorem statKind_kvHistoryKey {bucket key : Str} (h : Idle mount)
    (hParse : JetStreamPath.parse path.asStr = .ok (.kvHistoryKey bucket key)) :
    statKind path mount w = kvHistoryKind w.store bucket key := by
  have hHistory : exec faultless (requestIo (.kvHistory bucket key)) mount w =
      (.ok (w.store.kvHistory.getD (bucket, key) []), mount, w) := exec_requestIo_reads rfl
  have hList : exec faultless (requestIo (.listKvHistoryPrefix bucket key)) mount w =
      ((w.store.listKvHistoryPrefix bucket key).mapError ioError, mount, w) :=
    exec_requestIo_reads rfl
  unfold kvHistoryKind
  cases hNone : (w.store.kvHistory.getD (bucket, key) []).isEmpty with
  | false =>
      refine statKind_directory h hParse ?_
      rw [durableKind, exec_bind, hHistory]
      simp only [hNone]
      rfl
  | true =>
      have hDurable : exec faultless (durableKind (.kvHistoryKey bucket key)) mount w =
          exec faultless (do
            if (← requestIo (.listKvHistoryPrefix bucket key)).isEmpty then
              throw .notFound
            return .directory) mount w := by
        rw [durableKind, exec_bind, hHistory]
        simp only [hNone]
        rfl
      rw [exec_bind, hList] at hDurable
      simp only [if_true, listedBelowKind, Bool.false_eq_true, if_false]
      cases hEntries : w.store.listKvHistoryPrefix bucket key with
      | error err =>
          rw [hEntries] at hDurable
          exact statKind_error h hParse hDurable
      | ok entries =>
          rw [hEntries] at hDurable
          cases hEmpty : entries.isEmpty with
          | true =>
              simp only [Except.mapError, hEmpty, if_true] at hDurable ⊢
              exact statKind_error h hParse hDurable
          | false =>
              simp only [Except.mapError, hEmpty, Bool.false_eq_true, if_false] at hDurable ⊢
              exact statKind_directory h hParse hDurable

/-- `stat` reports what the storage decides. -/
theorem statKind_eq (h : Idle mount) (hParse : JetStreamPath.parse path.asStr = .ok parsed) :
    statKind path mount w = storedKind w.store parsed := by
  have hParses := parse_cases hParse
  cases parsed with
  | root => exact statKind_directory h hParse rfl
  | kvRoot => exact statKind_directory h hParse rfl
  | streamsRoot => exact statKind_directory h hParse rfl
  | objectsRoot => exact statKind_directory h hParse rfl
  | eventsRoot => exact statKind_directory h hParse rfl
  | tasksRoot => exact statKind_directory h hParse rfl
  | taskNamespace => exact statKind_directory h hParse rfl
  | agentsRoot => exact statKind_directory h hParse rfl
  | agentRoot => exact statKind_directory h hParse rfl
  | agentDirectory => exact statKind_directory h hParse rfl
  | semanticRoot => exact statKind_directory h hParse rfl
  | semanticArea => exact statKind_directory h hParse rfl
  | metadataRoot => exact statKind_directory h hParse rfl
  | kvBucket bucket => exact statKind_container h hParse rfl (exec_requireKvBucket bucket)
  | kvHistoryRoot bucket => exact statKind_container h hParse rfl (exec_requireKvBucket bucket)
  | objectBucket bucket => exact statKind_container h hParse rfl (exec_requireObjectBucket bucket)
  | streamRoot stream => exact statKind_container h hParse rfl (exec_requireStoredStream stream)
  | streamMessages stream => exact statKind_container h hParse rfl (exec_requireStoredStream stream)
  | streamSubjects stream => exact statKind_container h hParse rfl (exec_requireStoredStream stream)
  | kvKey bucket key => exact statKind_kv h hParse rfl rfl (by simp) rfl
  | agentRecord agent area name => exact statKind_kv h hParse rfl rfl (by simp) rfl
  | semanticRecord area name => exact statKind_kv h hParse rfl rfl (by simp) rfl
  | object bucket name =>
      exact statKind_found h hParse (exec_durableObject bucket name)
        (exec_attrMetadata_object h bucket name)
  | task ns task =>
      rw [statKind_file h hParse rfl, isSome_readKv h rfl rfl rfl (by simp)]
      rfl
  | kvHistoryKey bucket key => exact statKind_kvHistoryKey h hParse
  | streamSubject stream subject => exact statKind_streamSubject h hParse
  | kvRevision bucket key revision =>
      rw [statKind_read h hParse rfl (by simp) (by simp) rfl, readAction, exec_bind,
        exec_requestIo_reads rfl]
      simp only [MemoryStorage.handle, MemoryStorage.kvRevision, Except.mapError, storedKind]
      cases (w.store.kvHistory.getD (bucket, key) []).find? fun entry =>
          entry.revision == revision with
      | none => rfl
      | some entry => rfl
  | streamMessage stream sequence =>
      rw [statKind_read h hParse rfl (by simp) (by simp) rfl, readAction, exec_bind,
        exec_requestIo_reads rfl]
      simp only [MemoryStorage.handle, storedKind, messageKind]
      cases w.store.streamMessage stream sequence with
      | error err => rfl
      | ok message =>
          simp only [Except.mapError, Except.bind]
          cases Rendering.streamMessageBytes message <;> rfl
  | eventLog stream =>
      rw [statKind_read h hParse rfl (by simp) (by simp) rfl]
      exact existingKind_materialized _ _ _ _
  | agentMailbox agent area =>
      have hArea : area.isMailbox = true := by
        generalize path.components = parts at hParses
        cases hParses
        assumption
      have hPlan : planOrErrno .read (.agentMailbox agent area) = .ok (.materializedGet
          (.stream agentsStream ("agents.".toList ++ agent ++ '.' :: area.asStr))) := by
        simp [planOrErrno, planOperation, planRead, MaterializedTarget.fromPath, agentSubject,
          hArea]
      rw [statKind_read h hParse rfl (by simp) (by simp) hPlan]
      exact existingKind_materialized _ _ _ _
  | metadataFile file =>
      rw [statKind_read h hParse rfl (by simp) (by simp) rfl]
      rfl

end Stat

end EventFs.Fuse
