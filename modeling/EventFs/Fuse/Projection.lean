import EventFs.Fuse.Mount
import EventFs.Protocol.Json

/-!
# The mount projection

What a path looks like through the mount: its kind, its content, its directory
entries, and whether a file may be created there. The pending writes of the queue
are laid over what the storage holds.
-/

namespace EventFs.Fuse

open Library Protocol Transport

inductive MountProjectionKind
  | directory
  | file
deriving DecidableEq, Repr

structure MountProjectionAttr where
  kind : MountProjectionKind
  size : Nat
deriving DecidableEq, Repr

inductive DynamicPathKind
  | missing
  | file
  | directory
deriving DecidableEq, Repr

/-! ## Lists of entries -/

def namesAsDirs (names : List Str) : List DirectoryEntry := names.map fun name => ⟨name, .directory⟩

def namesAsEventFiles (names : List Str) : List DirectoryEntry :=
  names.map fun name => ⟨name ++ ".jsonl".toList, .file⟩

def directoryListingUnavailable (errno : Errno) : Bool := errno == .notFound || errno == .io

/-- Insert before the first larger name. -/
def insertAt (entry : DirectoryEntry) : List DirectoryEntry → List DirectoryEntry
  | [] => [entry]
  | candidate :: rest =>
      if entry.name < candidate.name then entry :: candidate :: rest
      else candidate :: insertAt entry rest

def insertDirectoryEntrySorted (entries : List DirectoryEntry) (entry : DirectoryEntry) :
    List DirectoryEntry :=
  if entries.any fun candidate => candidate.name == entry.name then
    changeNamed entry.name (fun existing =>
      if entry.kind = .directory then { existing with kind := .directory } else existing) entries
  else insertAt entry entries

def directoryEntriesContainExactFile (entries : List DirectoryEntry) (name : Str) : Bool :=
  entries.any fun entry => entry.name == name && entry.kind == .file

/-! ## JSON lines -/

def messageSequence (entry : DirectoryEntry) : Option Nat :=
  if entry.kind ≠ .file then none
  else (Text.stripSuffix ".json".toList entry.name).bind Text.parseU64

def appendJsonLine (output payload : Bytes) : Bytes :=
  if payload.getLast? = some 10 then output ++ payload else output ++ payload ++ [10]

def actionPublishesJsonl : JetStreamAction → Bool
  | .publishJsonLines _ _ | .materializedPut (.stream _ _) => true
  | _ => false

def jsonlTargetForPath (parsed : JetStreamPath) : Option (Str × Str) :=
  match parsed with
  | .streamSubject stream subject => some (stream, subject.asStr)
  | _ =>
      match MaterializedTarget.fromPath parsed with
      | some (.stream stream subject) => some (stream, subject)
      | _ => none

section Json

variable [Serde]

def jsonlCanonicalLines (path : Str) (bytes : Bytes) : Except Errno (List Bytes) :=
  match jsonLines path bytes with
  | .error err => .error err.errno
  | .ok lines => .ok (lines.map fun line => appendJsonLine [] (Text.asBytes line))

def unappliedJsonlBytes (path : Str) (bytes : Bytes) (appliedLines : Nat) : Except Errno Bytes := do
  return ((← jsonlCanonicalLines path bytes).drop appliedLines).flatten

end Json

/-! ## What the storage holds -/

def classifyKvDynamicPath (bucket key : Str) : Runtime DynamicPathKind := do
  if (← requestIo (.kvGet bucket key)).isSome then
    return .file
  if (← requestIo (.listKvPrefix bucket key)).isEmpty then
    return .missing
  return .directory

def objectMetadata (bucket object : Str) : Runtime (Option ObjectMetadata) :=
  requestIo (.objectMetadata bucket object)

def classifyObjectDynamicPath (bucket object : Str) : Runtime DynamicPathKind := do
  if (← objectMetadata bucket object).isSome then
    return .file
  if (← requestIo (.listObjectPrefix bucket object)).isEmpty then
    return .missing
  return .directory

def kvPrefixProjectionKind (bucket key : Str) : Runtime MountProjectionKind := do
  match ← classifyKvDynamicPath bucket key with
  | .directory => return .directory
  | .file | .missing => return .file

def requireKvBucket (bucket : Str) : Runtime Unit := do
  if (← requestIo .listKvBuckets).any fun candidate => candidate == bucket then
    return ()
  throw .notFound

def requireStream (stream : Str) : Runtime Unit := do
  if (← requestIo .listStreams).any fun candidate => candidate == stream then
    return ()
  throw .notFound

def requireObjectBucket (bucket : Str) : Runtime Unit := do
  if (← requestIo .listObjectBuckets).any fun candidate => candidate == bucket then
    return ()
  throw .notFound

def streamSubjectExists (stream subject : Str) : Runtime Bool := do
  let subjectFile := streamSubjectFileNameFromStr subject
  return (← requestIo (.listStreamSubjects stream)).any fun entry => entry.name == subjectFile

def listStreamMessages (stream : Str) (allowMissingEmpty : Bool) :
    Runtime (List DirectoryEntry) := do
  match ← request (.listStreamMessages stream) with
  | .ok entries => return entries
  | .error err =>
      if err = .notFound ∧ allowMissingEmpty then
        return []
      throw (ioError err)

def collectStreamSubjectSnapshot (stream subject : Str) (entries : List DirectoryEntry) :
    Runtime Bytes :=
  (entries.filterMap messageSequence).foldlM (fun bytes sequence => do
    let message ← requestIo (.streamMessage stream sequence)
    return if message.subject = subject then appendJsonLine bytes message.payload else bytes) []

def readStreamSubjectSnapshot (stream subject : Str) : Runtime Bytes := do
  collectStreamSubjectSnapshot stream subject (← listStreamMessages stream false)

def readStreamSubjectSnapshotAllowMissing (stream subject : Str) : Runtime Bytes := do
  collectStreamSubjectSnapshot stream subject (← listStreamMessages stream true)

def readMaterialized : MaterializedTarget → Runtime Bytes
  | .kv bucket key => do
      match ← requestIo (.kvGet bucket key) with
      | some entry => return entry.bytes
      | none => throw .notFound
  | .stream stream subject => readStreamSubjectSnapshotAllowMissing stream subject

def exactDynamicFileExists (parsed : JetStreamPath) : Runtime Bool :=
  match parsed with
  | .kvKey bucket key => return (← requestIo (.kvGet bucket key)).isSome
  | .object bucket object => return (← objectMetadata bucket object).isSome
  | .agentRecord _ _ _ | .semanticRecord _ _ =>
      match MaterializedTarget.fromPath parsed with
      | some (.kv bucket key) => return (← requestIo (.kvGet bucket key)).isSome
      | _ => return false
  | _ => return false

def kvHistoryDirectoryEntries (bucket key : Str) : Runtime (List DirectoryEntry) := do
  let revisions ← requestIo (.kvHistory bucket key)
  let entries := revisions.map fun entry =>
    (⟨'@' :: Text.decimal entry.revision, .file⟩ : DirectoryEntry)
  let children ← requestIo (.listKvHistoryPrefix bucket key)
  return children.foldl (fun entries child =>
    if entries.any fun entry => entry.name == child.name then entries else entries ++ [child])
    entries

def listAgentsRoot : Runtime (List DirectoryEntry) := do
  let fromKv ← match ← request (.listKvPrefix agentsBucket []) with
    | .ok entries => pure (entries.map (·.name))
    | .error .notFound => pure []
    | .error err => throw (ioError err)
  let fromStream ← match ← request .listAgentNames with
    | .ok names => pure names
    | .error .notFound => pure []
    | .error err => throw (ioError err)
  return namesAsDirs (Std.ExtTreeSet.ofList (fromKv ++ fromStream)).toList

def projectionAllowsMissingMaterializedKvBucket (parsed : JetStreamPath) (bucket : Str) : Bool :=
  match parsed with
  | .tasksRoot | .taskNamespace _ => bucket == tasksBucket
  | .agentsRoot | .agentDirectory _ _ => bucket == agentsBucket
  | .semanticArea _ => bucket == semanticBucket
  | _ => false

def listKvPrefix (bucket pre : Str) (parsed : JetStreamPath) : Runtime (List DirectoryEntry) := do
  match ← request (.listKvPrefix bucket pre) with
  | .ok entries => return entries
  | .error err =>
      if err = .notFound ∧ projectionAllowsMissingMaterializedKvBucket parsed bucket then
        return []
      throw (ioError err)

def durableDirectoryEntries (parsed : JetStreamPath) : Runtime (List DirectoryEntry) := do
  match ← liftErrno (planOrErrno .readDir parsed) with
  | .staticDirectory entries =>
      return entries.map fun entry =>
        ⟨entry.name, match entry.kind with
          | .directory => .directory
          | .file => .file⟩
  | .listKvBuckets => return namesAsDirs (← requestIo .listKvBuckets)
  | .listKvPrefix bucket pre => listKvPrefix bucket pre parsed
  | .kvHistory bucket key => kvHistoryDirectoryEntries bucket key
  | .listKvHistoryPrefix bucket pre => requestIo (.listKvHistoryPrefix bucket pre)
  | .listStreams => return namesAsDirs (← requestIo .listStreams)
  | .listEventLogs => return namesAsEventFiles (← requestIo .listStreams)
  | .listAgents => listAgentsRoot
  | .listStreamMessages stream => listStreamMessages stream false
  | .listStreamSubjects stream => requestIo (.listStreamSubjects stream)
  | .listObjectBuckets => return namesAsDirs (← requestIo .listObjectBuckets)
  | .listObjectPrefix bucket pre => requestIo (.listObjectPrefix bucket pre)
  | .noopDirectory => return []
  | _ => throw .notDirectory

/-! ## The overlay on directories -/

/-- `durable` lists what the storage holds under a path, if it can be listed; `exactFile`
says whether the storage holds a value at the path itself. The queue does not change
while a listing is computed, so its changes are a parameter. -/
structure DirectoryReader (m : Type → Type) where
  durable : MountPath → m (Option (List DirectoryEntry))
  exactFile : MountPath → m Bool

namespace DirectoryReader

variable {m : Type → Type} [Monad m] (reader : DirectoryReader m)

/-- `recurse` lays the overlay over the entries of a child. A path that is being
visited already counts as empty. -/
def childHasKnownVisibleEntries
    (recurse : MountPath → List DirectoryEntry → List MountPath → m (List DirectoryEntry))
    (path : MountPath) (visited : List MountPath) : m Bool := do
  if path ∈ visited then
    return false
  let entries ← recurse path ((← reader.durable path).getD []) (path :: visited)
  return !entries.isEmpty

/-- As above, but what cannot be listed counts as visible. -/
def childHasVisibleEntries
    (recurse : MountPath → List DirectoryEntry → List MountPath → m (List DirectoryEntry))
    (path : MountPath) (visited : List MountPath) : m Bool := do
  if path ∈ visited then
    return true
  match ← reader.durable path with
  | none => return true
  | some entries => return !(← recurse path entries (path :: visited)).isEmpty

def applyDelete
    (recurse : MountPath → List DirectoryEntry → List MountPath → m (List DirectoryEntry))
    (path : MountPath) (visited : List MountPath) (entries : List DirectoryEntry)
    (deleted : MountPath) : m (List DirectoryEntry) := do
  match queuedDirectoryChild path deleted with
  | none => return entries
  | some child =>
      match path.joinChild child.name with
      | .error _ => return entries
      | .ok childPath =>
          match child.kind with
          | .file =>
              let reveals ←
                if deleteCanElideDirectoryChild childPath then
                  reader.childHasKnownVisibleEntries recurse childPath visited
                else pure false
              if reveals then
                return insertDirectoryEntrySorted entries ⟨child.name, .directory⟩
              return entries.filter fun entry => entry.name != child.name
          | .directory =>
              if deleteCanElideDirectoryChild childPath &&
                  !directoryEntriesContainExactFile entries child.name then
                if ← reader.exactFile childPath then
                  return entries
                if ← reader.childHasVisibleEntries recurse childPath visited then
                  return entries
                return entries.filter fun entry => entry.name != child.name
              return entries

def applyVisible (path : MountPath) (entries : List DirectoryEntry) (visible : MountPath) :
    List DirectoryEntry :=
  match queuedDirectoryChild path visible with
  | some child => insertDirectoryEntry entries child
  | none => entries

def applyChange
    (recurse : MountPath → List DirectoryEntry → List MountPath → m (List DirectoryEntry))
    (path : MountPath) (visited : List MountPath) (entries : List DirectoryEntry)
    (change : QueuedOverlayChange) : m (List DirectoryEntry) := do
  let entries ← change.deletedPaths.foldlM (reader.applyDelete recurse path visited) entries
  return change.visiblePaths.foldl (applyVisible path) entries

/-- Replay the changes of the queue on the entries of one directory. Every nested call
is one level deeper on the way to a deleted path, so fuel beyond their length is never
used up. -/
def applyQueuedOverlayToDirectory (changes : List QueuedOverlayChange) :
    Nat → MountPath → List DirectoryEntry → List MountPath → m (List DirectoryEntry)
  | 0, _, entries, _ => pure entries
  | fuel + 1, path, entries, visited =>
      changes.foldlM
        (reader.applyChange (applyQueuedOverlayToDirectory changes fuel) path visited) entries

end DirectoryReader

/-- More than the longest deleted path. -/
def overlayFuel (changes : List QueuedOverlayChange) : Nat :=
  (changes.flatMap (·.deletedPaths)).foldl (fun n path => max n path.components.length) 0 + 1

def durableEntriesOf (path : MountPath) : RuntimeM (Option (List DirectoryEntry)) := do
  match parsePath path with
  | .error _ => return none
  | .ok parsed =>
      match ← (durableDirectoryEntries parsed).run with
      | .ok entries => return some entries
      | .error _ => return none

def queuedDirectoryChildHasExactDynamicFile (path : MountPath) : RuntimeM Bool := do
  match parsePath path with
  | .error _ => return false
  | .ok parsed =>
      match ← (exactDynamicFileExists parsed).run with
      | .ok found => return found
      | .error _ => return false

def storageReader : DirectoryReader RuntimeM where
  durable := durableEntriesOf
  exactFile := queuedDirectoryChildHasExactDynamicFile

def pendingFacts : RuntimeM (List PendingWriteOverlay) := do
  return (← get).replay.pendingOverlays

def applyQueuedDeletesToDirectory (path : MountPath) (entries : List DirectoryEntry) :
    RuntimeM (List DirectoryEntry) := do
  let changes := QueuedOverlay.changes (← pendingFacts)
  storageReader.applyQueuedOverlayToDirectory changes (overlayFuel changes) path entries []

def queuedDirectoryChildHasKnownVisibleEntries (path : MountPath) : RuntimeM Bool := do
  let changes := QueuedOverlay.changes (← pendingFacts)
  storageReader.childHasKnownVisibleEntries
    (storageReader.applyQueuedOverlayToDirectory changes (overlayFuel changes)) path []

def queuedDirectoryChildHasVisibleEntries (path : MountPath) : RuntimeM Bool := do
  let changes := QueuedOverlay.changes (← pendingFacts)
  storageReader.childHasVisibleEntries
    (storageReader.applyQueuedOverlayToDirectory changes (overlayFuel changes)) path []

def queuedExactDeleteRevealsSyntheticDirectory (path : MountPath) (parsed : JetStreamPath) :
    RuntimeM Bool := do
  return exactDeleteRevealsSyntheticDirectory parsed
    (← queuedDirectoryChildHasKnownVisibleEntries path)

def queuedDeletedDescendantEmptiesSyntheticDirectory (path : MountPath) (parsed : JetStreamPath) :
    Runtime Bool := do
  if !QueuedOverlay.hasDeletedDescendant (← pendingFacts) path then
    return false
  let exactDynamicFileExists ← exactDynamicFileExists parsed
  let hasVisibleEntries ← queuedDirectoryChildHasVisibleEntries path
  return deletedDescendantEmptiesSyntheticDirectory parsed exactDynamicFileExists hasVisibleEntries

/-! ## Directory entries -/

def deterministicDirectoryEntries : JetStreamPath → List DirectoryEntry
  | .kvBucket _ => [⟨".history".toList, .directory⟩]
  | _ => []

def mergeQueuedDirectoryEntries (parsed : JetStreamPath) (path : MountPath)
    (entries : Except Errno (List DirectoryEntry)) : Runtime (List DirectoryEntry) := do
  let localEntries := deterministicDirectoryEntries parsed
  let queued := QueuedOverlay.directoryEntries (← pendingFacts) path
  match entries with
  | .ok entries =>
      let entries := localEntries.foldl insertDirectoryEntrySorted entries
      let entries := queued.foldl insertDirectoryEntry entries
      applyQueuedDeletesToDirectory path entries
  | .error errno =>
      if directoryListingUnavailable errno && !queued.isEmpty then
        applyQueuedDeletesToDirectory path (queued.foldl insertDirectoryEntrySorted localEntries)
      else throw errno

def directoryEntries (path : MountPath) : Runtime (List DirectoryEntry) := do
  applyPendingWatchEvents
  let parsed ← liftErrno (parsePath path)
  let entries ← attempt (durableDirectoryEntries parsed)
  mergeQueuedDirectoryEntries parsed path entries

/-! ## Content -/

variable [Serde] [Rendering]

/-- Lines a failed publish has stored already; an error counts as none. -/
def durableJsonlAppliedPrefix (entry : QueuedJsonlEntry) : RuntimeM Nat := do
  match ← request (.publishJsonLinesAppliedPrefix entry.stream entry.subject entry.bytes
      entry.idempotencyKey) with
  | .ok applied => return applied
  | .error _ => return 0

def queuedJsonlBase (path : MountPath) (parsed : JetStreamPath) : Runtime Bytes := do
  match (← get).cache.get path.asStr with
  | some entry => return entry.bytes
  | none =>
      match jsonlTargetForPath parsed with
      | none => return []
      | some (stream, subject) =>
          match ← attempt (readStreamSubjectSnapshotAllowMissing stream subject) with
          | .ok bytes => return bytes
          | .error errno =>
              if directoryListingUnavailable errno then
                return []
              throw errno

def queuedJsonlSnapshot (path : MountPath) (parsed : JetStreamPath) : Runtime (Option Bytes) := do
  let pending := QueuedOverlay.jsonlEntries (← pendingFacts) path
  if pending.isEmpty then
    return none
  let base ← queuedJsonlBase path parsed
  let bytes ← pending.foldlM (fun (bytes : Bytes) (entry : QueuedJsonlEntry) => do
    let appliedLines := max (← durableJsonlAppliedPrefix entry) entry.appliedLines
    let unapplied ← liftErrno (unappliedJsonlBytes path.asStr entry.bytes appliedLines)
    return bytes ++ unapplied) base
  return some bytes

def cacheInsert (entry : CacheEntry) : RuntimeM Unit :=
  modify fun mount => { mount with cache := mount.cache.insert entry }

/-- Remember what has been read and return it. -/
def cacheAndReturn (path : MountPath) (origin : CacheOrigin) (bytes : Bytes) : Runtime Bytes := do
  cacheInsert ⟨path.asStr, origin, bytes, true⟩
  return bytes

def readAction (path : MountPath) (parsed : JetStreamPath) : JetStreamAction → Runtime Bytes
  | .kvGet bucket key => do
      match ← requestIo (.kvGet bucket key) with
      | some entry => cacheAndReturn path (.kvRevision bucket key entry.revision) entry.bytes
      | none => throw .notFound
  | .kvRevision bucket key revision => do
      match ← requestIo (.kvRevision bucket key revision) with
      | some entry => cacheAndReturn path (.kvRevision bucket key revision) entry.bytes
      | none => throw .notFound
  | .streamMessage stream sequence => do
      let message ← requestIo (.streamMessage stream sequence)
      match Rendering.streamMessageBytes message with
      | .ok bytes => cacheAndReturn path (.streamSequence stream sequence) bytes
      | .error err => throw (ioError err)
  | .objectGet bucket object => do
      match ← requestIo (.objectGet bucket object) with
      | some entry => cacheAndReturn path (.objectVersion bucket object) entry.bytes
      | none => throw .notFound
  | .metadataRead file => return Rendering.metadataBytes (← get) file
  | .materializedGet target => do
      let bytes ← readMaterialized target
      cacheAndReturn path (.materializedView path.asStr) bytes
  | .publishJsonLines _ _ =>
      match jsonlTargetForPath parsed with
      | some (stream, subject) => readStreamSubjectSnapshot stream subject
      | none => return []
  | _ => throw .isDirectory

def readSnapshot (path : MountPath) (parsed : JetStreamPath) : Runtime Bytes := do
  let facts ← pendingFacts
  if QueuedOverlay.latestDeleteCovers facts path then
    throw .notFound
  if let some bytes := QueuedOverlay.wholeValueSnapshot facts path then
    return bytes
  if let some bytes ← queuedJsonlSnapshot path parsed then
    return bytes
  if let some entry := (← get).cache.get path.asStr then
    return entry.bytes
  if let .streamSubject stream subject := parsed then
    requireStream stream
    if !(← streamSubjectExists stream subject.asStr) then
      throw .notFound
  readAction path parsed (← liftErrno (planOrErrno .read parsed))

def readBytes (path : MountPath) : Runtime Bytes := do
  applyPendingWatchEvents
  readSnapshot path (← liftErrno (parsePath path))

/-! ## Kind and attributes -/

def cachedProjectionKind (mount : Mount) (path : MountPath) : Option MountProjectionKind :=
  (mount.paths.entry path).map fun (_, kind) =>
    match kind with
    | .directory => .directory
    | .regularFile => .file

omit [Serde] [Rendering] in
def durableKind (parsed : JetStreamPath) : Runtime MountProjectionKind :=
  match parsed with
  | .root | .kvRoot | .streamsRoot | .objectsRoot | .eventsRoot | .tasksRoot | .agentsRoot
  | .semanticRoot | .metadataRoot => return .directory
  | .kvBucket bucket | .kvHistoryRoot bucket => do
      requireKvBucket bucket
      return .directory
  | .kvHistoryKey bucket key => do
      if !(← requestIo (.kvHistory bucket key)).isEmpty then
        return .directory
      if (← requestIo (.listKvHistoryPrefix bucket key)).isEmpty then
        throw .notFound
      return .directory
  | .streamRoot stream | .streamMessages stream | .streamSubjects stream => do
      requireStream stream
      return .directory
  | .streamSubject stream subject => do
      requireStream stream
      if ← streamSubjectExists stream subject.asStr then
        return .file
      throw .notFound
  | .objectBucket bucket => do
      requireObjectBucket bucket
      return .directory
  | .taskNamespace _ | .agentRoot _ | .agentDirectory _ _ | .semanticArea _ => return .directory
  | .kvKey bucket key => kvPrefixProjectionKind bucket key
  | .agentRecord _ _ _ | .semanticRecord _ _ =>
      match MaterializedTarget.fromPath parsed with
      | some (.kv bucket key) => kvPrefixProjectionKind bucket key
      | _ => return .file
  | .object bucket object => do
      match ← classifyObjectDynamicPath bucket object with
      | .directory => return .directory
      | .file | .missing => return .file
  | _ => return .file

omit [Serde] [Rendering] in
def kindForParsed (path : MountPath) (parsed : JetStreamPath) : Runtime MountProjectionKind := do
  let facts ← pendingFacts
  if QueuedOverlay.latestDeleteCovers facts path then
    let reveals ← queuedExactDeleteRevealsSyntheticDirectory path parsed
    clearStalePath path
    if reveals then
      return .directory
    throw .notFound
  if (QueuedOverlay.wholeValueSnapshot facts path).isSome ||
      QueuedOverlay.hasJsonlEntry facts path then
    clearStalePath path
    return .file
  if !(QueuedOverlay.directoryEntries facts path).isEmpty then
    clearStalePath path
    return .directory
  if ← queuedDeletedDescendantEmptiesSyntheticDirectory path parsed then
    clearStalePath path
    throw .notFound
  let mount ← get
  if !mount.stalePaths.contains path then
    if let some kind := cachedProjectionKind mount path then
      return kind
  if (mount.cache.get path.asStr).isSome then
    clearStalePath path
    return .file
  durableKind parsed

/-- The size of a file. -/
def attrMetadata (path : MountPath) (parsed : JetStreamPath) : Runtime Nat := do
  let facts ← pendingFacts
  if QueuedOverlay.latestDeleteCovers facts path then
    throw .notFound
  if let some bytes := QueuedOverlay.wholeValueSnapshot facts path then
    return bytes.length
  if let some bytes ← queuedJsonlSnapshot path parsed then
    return bytes.length
  if let some entry := (← get).cache.get path.asStr then
    return entry.bytes.length
  if let .object bucket object := parsed then
    match ← objectMetadata bucket object with
    | some metadata => return metadata.size
    | none => throw .notFound
  return (← readSnapshot path parsed).length

/-- What `stat` reports. -/
def attr (path : MountPath) : Runtime MountProjectionAttr := do
  applyPendingWatchEvents
  let parsed ← liftErrno (parsePath path)
  match ← kindForParsed path parsed with
  | .directory => return ⟨.directory, 0⟩
  | .file => return ⟨.file, ← attrMetadata path parsed⟩

/-! ## Creating files -/

omit [Serde] [Rendering] in
def writeMode (path : MountPath) : Runtime HandleMode := do
  let parsed ← liftErrno (parsePath path)
  let action ← liftErrno (planOrErrno .write parsed)
  return if actionPublishesJsonl action then .jsonLines else .wholeValue

omit [Serde] [Rendering] in
def queuedCreateTargetKind (path : MountPath) (parsed : JetStreamPath) :
    Runtime (Option DynamicPathKind) := do
  let facts ← pendingFacts
  if QueuedOverlay.latestDeleteCovers facts path then
    if ← queuedExactDeleteRevealsSyntheticDirectory path parsed then
      return some .directory
    return some .missing
  if (QueuedOverlay.wholeValueSnapshot facts path).isSome ||
      QueuedOverlay.hasJsonlEntry facts path then
    return some .file
  if !(QueuedOverlay.directoryEntries facts path).isEmpty then
    return some .directory
  if ← queuedDeletedDescendantEmptiesSyntheticDirectory path parsed then
    return some .missing
  return none

omit [Serde] [Rendering] in
def materializedKvCreateTargetKind (bucket key : Str) : Runtime DynamicPathKind := do
  match ← attempt (classifyKvDynamicPath bucket key) with
  | .ok kind => return kind
  | .error .notFound => return .missing
  | .error errno => throw errno

omit [Serde] [Rendering] in
def createTargetKind (path : MountPath) (parsed : JetStreamPath) (action : JetStreamAction) :
    Runtime DynamicPathKind := do
  if let some kind ← queuedCreateTargetKind path parsed then
    return kind
  match action with
  | .kvPut bucket key => classifyKvDynamicPath bucket key
  | .objectPut bucket object => classifyObjectDynamicPath bucket object
  | .materializedPut (.kv bucket key) => materializedKvCreateTargetKind bucket key
  | _ => return .missing

def createDefaultPayload : JetStreamAction → Bytes
  | .materializedPut (.kv _ _) => Text.asBytes "null".toList
  | _ => []

omit [Serde] [Rendering] in
/-- The payload a new file starts with, if one may be created at the path. -/
def createTarget (path : MountPath) : Runtime Bytes := do
  applyPendingWatchEvents
  let parsed ← liftErrno (parsePath path)
  let action ← liftErrno (planOrErrno .create parsed)
  if actionPublishesJsonl action then
    throw .notSupported
  match ← createTargetKind path parsed action with
  | .missing => return createDefaultPayload action
  | .file => throw .exists_
  | .directory => throw .isDirectory

end EventFs.Fuse
