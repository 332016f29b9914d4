import EventFs.Fuse.Projection

/-!
# The operations of a mount

Handles are opened, written and committed; files are made, removed and renamed. A write
goes to the backend when it is committed, and to the queue if the backend fails. Every
operation that changes something first looks at the write gate.
-/

namespace EventFs.Fuse

open Library Protocol Transport

/-! ## Names and payloads -/

def handleCommitBytes (handle : Handle) : Bytes :=
  match handle.stagedCreate with
  | some stagedCreate =>
      if handle.mode = .wholeValue ∧ handle.buffer.isEmpty then stagedCreate.defaultPayload
      else handle.buffer
  | none => handle.buffer

def renameCompletionKeyMaterial (fromPath : Str) (sourceGeneration : Nat) (bytes : Bytes) : Bytes :=
  Text.asBytes fromPath ++ 0 :: Text.asBytes (Text.decimal sourceGeneration) ++ 0 :: bytes

section Json

variable [Serde]

def jsonlAppliedPrefixCount (path : Str) (base current pending : Bytes) : Except Errno Nat := do
  let base ← jsonlCanonicalLines path base
  let current ← jsonlCanonicalLines path current
  let pending ← jsonlCanonicalLines path pending
  if current.length < base.length ∨ current.take base.length ≠ base then
    return 0
  return (((current.drop base.length).zip pending).takeWhile
    fun (left, right) => left == right).length

end Json

def u64Max : Nat := 2 ^ 64 - 1

def nextCommitSeed : RuntimeM Str := do
  let mount ← get
  modify fun mount => { mount with nextCommitId := min (mount.nextCommitId + 1) u64Max }
  return mount.mountName ++ ':' :: Text.decimal mount.mountInstance ++
    ':' :: Text.decimal mount.nextCommitId

/-! ## The gate and the queue -/

def ensureWritesAllowed : Runtime Unit := do
  if (← get).replay.gate.acceptingWrites then
    return ()
  throw .readOnly

def setReplay (replay : WritebackReplay) : RuntimeM Unit :=
  modify fun mount => { mount with replay }

def enqueueFailedWrite (failed : FailedWrite) : RuntimeM (TransportResult Unit) := do
  let (replay, result) ← StateT.lift ((← get).replay.enqueueFailedWrite failed)
  setReplay replay
  return result.map fun _ => ()

def syncWritebackGate : RuntimeM Unit := do
  setReplay (← get).replay.syncGate.1

def replayQueue : RuntimeM Unit := do
  let (replay, _) ← StateT.lift (← get).replay.replay
  setReplay replay
  modify fun mount => mount.applyInvalidationPlan .gap

variable [Serde] [Rendering]

/-! ## Committing a write -/

omit [Rendering] in
def validatePayload (action : JetStreamAction) (path : MountPath) (bytes : Bytes) :
    Except Errno Unit :=
  match action with
  | .publishJsonLines _ _ | .materializedPut (.stream _ _) =>
      (validateJsonLines path.asStr bytes).mapError (·.errno)
  | .materializedPut (.kv _ _) => (validateJsonDocument path.asStr bytes).mapError (·.errno)
  | _ => .ok ()

omit [Serde] [Rendering] in
def jsonlBaseSnapshot (parsed : JetStreamPath) (action : JetStreamAction) :
    RuntimeM (Option Bytes) := do
  if !actionPublishesJsonl action then
    return none
  match jsonlTargetForPath parsed with
  | none => return none
  | some (stream, subject) =>
      match ← (readStreamSubjectSnapshotAllowMissing stream subject).run with
      | .ok bytes => return some bytes
      | .error errno => return if directoryListingUnavailable errno then some [] else none

omit [Rendering] in
def appliedJsonlLinesForQueue (stream subject : Str) (bytes : Bytes) (base : Option Bytes) :
    RuntimeM Nat := do
  match base with
  | none => return 0
  | some base =>
      match ← (readStreamSubjectSnapshotAllowMissing stream subject).run with
      | .ok current => return (jsonlAppliedPrefixCount subject base current bytes).toOption.getD 0
      | .error errno =>
          if directoryListingUnavailable errno then
            return (jsonlAppliedPrefixCount subject base [] bytes).toOption.getD 0
          return 0

omit [Rendering] in
def executeWriteAction (action : JetStreamAction) (bytes : Bytes) (idempotencyKey : Str) :
    RuntimeM (TransportResult Unit) :=
  match action with
  | .kvPut bucket key =>
      return (← request (.kvPutIdempotent bucket key bytes idempotencyKey)).map fun _ => ()
  | .objectPut bucket object =>
      return (← request (.objectPutIdempotent bucket object bytes idempotencyKey)).map fun _ => ()
  | .publishJsonLines stream subject | .materializedPut (.stream stream subject) =>
      return (← request (.publishJsonLines stream subject bytes idempotencyKey)).map fun _ => ()
  | .materializedPut (.kv bucket key) =>
      match validateJsonDocument key bytes with
      -- the source's `Invalid` with the text of the error
      | .error err => return .error (.protocol err)
      | .ok () =>
          return (← request (.kvPutIdempotent bucket key bytes idempotencyKey)).map fun _ => ()
  | _ => return .error (.invalid "not a write".toList)

omit [Serde] [Rendering] in
def cacheEntryAfterWrite (path : MountPath) (action : JetStreamAction) (bytes : Bytes) :
    RuntimeM (TransportResult (Option CacheEntry)) :=
  match action with
  | .kvPut bucket key =>
      return (← request (.kvGet bucket key)).map fun entry => entry.map fun entry =>
        ⟨path.asStr, .kvRevision bucket key entry.revision, entry.bytes, true⟩
  | .objectPut bucket object =>
      return (← request (.objectMetadata bucket object)).map fun metadata => metadata.map fun _ =>
        ⟨path.asStr, .objectVersion bucket object, bytes, true⟩
  | .materializedPut (.kv bucket key) =>
      return (← request (.kvGet bucket key)).map fun entry => entry.map fun entry =>
        ⟨path.asStr, .materializedView path.asStr, entry.bytes, true⟩
  | _ => return .ok none

omit [Serde] [Rendering] in
def refreshCacheAfterWrite (path : MountPath) (action : JetStreamAction) (bytes : Bytes) :
    RuntimeM Unit := do
  modify fun mount => mount.invalidateAfterLocalWrite path
  match ← cacheEntryAfterWrite path action bytes with
  | .ok (some entry) => cacheInsert entry
  | _ => return ()

omit [Rendering] in
def failedWriteOperation (action : JetStreamAction) (bytes : Bytes) (jsonlBase : Option Bytes) :
    RuntimeM (Option FailedWriteOperation) :=
  match action with
  | .kvPut bucket key => return some (.kvPut bucket key bytes)
  | .objectPut bucket object => return some (.objectPut bucket object bytes)
  | .publishJsonLines stream subject | .materializedPut (.stream stream subject) => do
      let appliedLines ← appliedJsonlLinesForQueue stream subject bytes jsonlBase
      return some (.publishJsonLines stream subject bytes appliedLines)
  | .materializedPut (.kv bucket key) => return some (.materializedPut bucket key bytes)
  | _ => return none

omit [Rendering] in
def enqueueAction (action : JetStreamAction) (bytes : Bytes) (idempotencyKey : Str)
    (jsonlBase : Option Bytes) : RuntimeM (TransportResult Unit) := do
  match ← failedWriteOperation action bytes jsonlBase with
  | some operation => enqueueFailedWrite ⟨idempotencyKey, operation⟩
  | none => return .ok ()

def commitMountPathWithSeed (path : MountPath) (bytes : Bytes) (commitSeed : Str) :
    Runtime Unit := do
  ensureWritesAllowed
  let parsed ← liftErrno (parsePath path)
  let action ← liftErrno (planOrErrno .write parsed)
  liftErrno (validatePayload action path bytes)
  let idempotencyKey := Rendering.idempotencyKey path.asStr bytes commitSeed
  let jsonlBase ← jsonlBaseSnapshot parsed action
  match ← executeWriteAction action bytes idempotencyKey with
  | .ok () => refreshCacheAfterWrite path action bytes
  | .error _ =>
      match ← enqueueAction action bytes idempotencyKey jsonlBase with
      | .error err => throw (ioError err)
      | .ok () =>
          modify fun mount => mount.invalidateAfterLocalWrite path
          syncWritebackGate

/-! ## Handles -/

def getHandle (fh : Nat) : RuntimeM (Option Handle) := do
  return (← get).handles[fh]?

def setHandle (fh : Nat) (handle : Handle) : RuntimeM Unit :=
  modify fun mount => { mount with handles := mount.handles.insert fh handle }

def removeHandle (fh : Nat) : RuntimeM Unit :=
  modify fun mount => { mount with handles := mount.handles.erase fh }

def initialHandleState (path : MountPath) (writable : Bool) (mode : HandleMode)
    (truncate create : Bool) : Runtime (Bytes × Nat × Option StagedCreate) := do
  if !writable then
    return ([], 0, none)
  if create then
    return ([], 0, some ⟨← createTarget path⟩)
  if truncate then
    return ([], 0, none)
  match mode with
  | .jsonLines =>
      match ← attempt (readBytes path) with
      | .ok bytes => return ([], bytes.length, none)
      | .error errno => if errno = .notFound then return ([], 0, none) else throw errno
  | .wholeValue => return (← readBytes path, 0, none)

def buildHandle (path : MountPath) (writable truncate create : Bool) : Runtime Handle := do
  if writable then
    ensureWritesAllowed
  let mode ← if writable then writeMode path else pure .wholeValue
  if truncate && mode == .jsonLines then
    throw .readOnly
  let (buffer, baseOffset, stagedCreate) ← initialHandleState path writable mode truncate create
  let commitSeed ← nextCommitSeed
  return {
    path, buffer, writable, commitSeed, mode, baseOffset, stagedCreate
    dirty := writable && (truncate || create)
    committed := false }

def openHandle (path : MountPath) (writable truncate create : Bool) : Runtime Nat := do
  let fh := (← get).nextFh
  -- the counter is a `u64`, which wraps in a release build
  modify fun mount => { mount with nextFh := (mount.nextFh + 1) % 2 ^ 64 }
  let handle ← buildHandle path writable truncate create
  setHandle fh handle
  return fh

def writableHandle (rawHandle : Nat) (path : MountPath) : Runtime Nat := do
  if (← getHandle rawHandle).isNone then
    setHandle rawHandle (← buildHandle path true false false)
  return rawHandle

/-- `Vec::resize` to a length that is not smaller. -/
def padTo (length : Nat) (bytes : Bytes) : Bytes :=
  bytes ++ List.replicate (length - bytes.length) 0

/-- Copy `data` over the bytes that start at `start`. -/
def overwrite (bytes : Bytes) (start : Nat) (data : Bytes) : Bytes :=
  bytes.take start ++ data ++ bytes.drop (start + data.length)

/-- A handle that has been committed gets a new seed before it is changed again. The seed
is drawn even if the change is refused. -/
def refreshedSeed (fh : Nat) : Runtime (Option Str) := do
  match ← getHandle fh with
  | none => throw .badFile
  | some handle => if handle.committed then return some (← nextCommitSeed) else return none

/-- Where a write at this offset of the file starts in the buffer. -/
def Handle.bufferStart (handle : Handle) (offset : Nat) : Option Nat :=
  match handle.mode with
  | .wholeValue => some offset
  | .jsonLines => if offset < handle.baseOffset then none else some (offset - handle.baseOffset)

omit [Serde] [Rendering] in
def writeToHandleBuffer (fh : Nat) (offset : Int) (data : Bytes) : Runtime Nat := do
  if offset < 0 then
    throw .invalidInput
  let newCommitSeed ← refreshedSeed fh
  ensureWritesAllowed
  match ← getHandle fh with
  | none => throw .badFile
  | some handle =>
      let handle := { handle with commitSeed := newCommitSeed.getD handle.commitSeed }
      setHandle fh handle
      if !handle.writable then
        throw .badFile
      match handle.bufferStart offset.toNat with
      | none => throw .invalidInput
      | some start =>
          let padded := { handle with buffer := padTo start handle.buffer }
          if u64Max < start + data.length then
            setHandle fh padded
            throw .invalidInput
          setHandle fh { padded with
            buffer := overwrite (padTo (start + data.length) padded.buffer) start data
            dirty := true
            committed := false }
          return data.length

omit [Serde] [Rendering] in
def stageTruncate (fh : Nat) : Runtime Unit := do
  match ← getHandle fh with
  | none => throw .badFile
  | some handle => if handle.mode = .jsonLines then throw .readOnly
  let newCommitSeed ← refreshedSeed fh
  ensureWritesAllowed
  match ← getHandle fh with
  | none => throw .badFile
  | some handle =>
      let handle := { handle with commitSeed := newCommitSeed.getD handle.commitSeed }
      setHandle fh handle
      if !handle.writable then
        throw .badFile
      setHandle fh { handle with
        buffer := []
        baseOffset := 0
        dirty := handle.mode == .wholeValue
        committed := false }

def Handle.afterCommit (handle : Handle) (mode : HandleMode) (bytes : Bytes) : Handle :=
  match mode with
  | .jsonLines =>
      { handle with
        baseOffset := min (handle.baseOffset + bytes.length) u64Max
        buffer := []
        dirty := false
        committed := true }
  | .wholeValue => { handle with buffer := bytes, dirty := false, committed := true }

def commitHandle (fh : Nat) : Runtime Unit := do
  match ← getHandle fh with
  | none => return ()
  | some handle =>
      if !handle.writable || !handle.dirty || handle.committed then
        return ()
      let bytes := handleCommitBytes handle
      commitMountPathWithSeed handle.path bytes handle.commitSeed
      match ← getHandle fh with
      | none => return ()
      | some current => setHandle fh (current.afterCommit handle.mode bytes)

omit [Serde] [Rendering] in
def flushHandle (fh : Nat) : Runtime Unit := do
  if (← getHandle fh).isNone then
    throw .badFile

def releaseHandle (fh : Nat) : Runtime Unit := do
  let result ← attempt (commitHandle fh)
  removeHandle fh
  liftErrno result

omit [Serde] [Rendering] in
def discardHandle (fh : Nat) : Runtime Unit := removeHandle fh

def readBytesForHandle (fh : Nat) (path : MountPath) : Runtime Bytes := do
  let _ ← liftErrno (parsePath path)
  match (← getHandle fh).filter fun handle => handle.path == path && handle.dirty with
  | none => readBytes path
  | some handle =>
      match handle.mode with
      | .wholeValue => return handle.buffer
      | .jsonLines =>
          let bytes ← match ← attempt (readBytes path) with
            | .ok bytes => pure bytes
            | .error errno => if errno = .notFound then pure [] else throw errno
          return padTo handle.baseOffset (bytes.take handle.baseOffset) ++ handle.buffer

def createdHandleAttr (fh : Nat) (path : MountPath) : Runtime MountProjectionAttr := do
  match ← getHandle fh with
  | none => throw .badFile
  | some handle =>
      if handle.path ≠ path then
        throw .invalidInput
      if handle.mode = .wholeValue ∧ handle.stagedCreate.isSome then
        return ⟨.file, handle.buffer.length⟩
      attr path

/-! ## Truncating, removing and making -/

omit [Serde] [Rendering] in
def rejectAppendOnlyTruncate (path : MountPath) : Runtime Unit := do
  if (← writeMode path) = .jsonLines then
    throw .readOnly

def truncatePath (path : MountPath) : Runtime Unit := do
  rejectAppendOnlyTruncate path
  let commitSeed ← nextCommitSeed
  commitMountPathWithSeed path [] commitSeed

omit [Serde] [Rendering] in
def executeUnlink (path : MountPath) : Runtime Unit := do
  ensureWritesAllowed
  let parsed ← liftErrno (parsePath path)
  match ← liftErrno (planOrErrno .unlink parsed) with
  | .kvDelete bucket key | .materializedDelete (.kv bucket key) =>
      requestIo (.kvDelete bucket key)
  | .objectDelete bucket object => requestIo (.objectDelete bucket object)
  | .materializedDelete (.stream _ _) => throw .readOnly
  | _ => throw .notSupported
  modify fun mount => mount.invalidateAfterLocalUnlink path

/-- A directory that exists because something is stored below it. -/
def ensureSyntheticDirectory : DynamicPathKind → Runtime Unit
  | .file => throw .exists_
  | .missing => throw .notFound
  | .directory => return ()

omit [Serde] [Rendering] in
def ensureKvSyntheticDirectory (bucket pre : Str) : Runtime Unit := do
  ensureSyntheticDirectory (← classifyKvDynamicPath bucket pre)

omit [Serde] [Rendering] in
def ensureObjectSyntheticDirectory (bucket pre : Str) : Runtime Unit := do
  ensureSyntheticDirectory (← classifyObjectDynamicPath bucket pre)

omit [Serde] [Rendering] in
def executeMkdir (path : MountPath) : Runtime Unit := do
  ensureWritesAllowed
  let parsed ← liftErrno (parsePath path)
  match ← liftErrno (planOrErrno .mkdir parsed) with
  | .ensureKvBucket bucket => requestIo (.ensureKvBucket bucket)
  | .ensureKvDirectory bucket pre => ensureKvSyntheticDirectory bucket pre
  | .ensureStream stream => requestIo (.ensureStream stream)
  | .ensureObjectBucket bucket => requestIo (.ensureObjectBucket bucket)
  | .ensureObjectDirectory bucket pre => ensureObjectSyntheticDirectory bucket pre
  | .noopDirectory => return ()
  | _ => throw .notSupported

/-- The file type bits of a mode, and those of a regular file. -/
def fileTypeMask : Nat := 0o170000

def regularFileType : Nat := 0o100000

def executeMknod (path : MountPath) (mode : Nat) : Runtime Nat := do
  ensureWritesAllowed
  if mode &&& fileTypeMask ≠ regularFileType then
    throw .notSupported
  let payload ← createTarget path
  let commitSeed ← nextCommitSeed
  commitMountPathWithSeed path payload commitSeed
  return payload.length

/-! ## Renaming -/

omit [Serde] [Rendering] in
def kvRenameSource (bucket key : Str) : Runtime KeyRevision := do
  match ← classifyKvDynamicPath bucket key with
  | .missing => throw .notFound
  | .directory => throw .isDirectory
  | .file =>
      match ← requestIo (.kvGet bucket key) with
      | some entry => return entry
      | none => throw .notFound

omit [Serde] [Rendering] in
def objectRenameSource (bucket object : Str) : Runtime ObjectVersion := do
  match ← classifyObjectDynamicPath bucket object with
  | .missing => throw .notFound
  | .directory => throw .isDirectory
  | .file =>
      match ← requestIo (.objectGet bucket object) with
      | some entry => return entry
      | none => throw .notFound

def ensureRenameDestination : DynamicPathKind → Runtime Unit
  | .directory => throw .isDirectory
  | .file | .missing => return ()

omit [Serde] [Rendering] in
def ensureKvRenameDestination (bucket key : Str) : Runtime Unit := do
  ensureRenameDestination (← classifyKvDynamicPath bucket key)

omit [Serde] [Rendering] in
def ensureObjectRenameDestination (bucket object : Str) : Runtime Unit := do
  ensureRenameDestination (← classifyObjectDynamicPath bucket object)

omit [Serde] in
/-- Put the completion of a rename into the queue. -/
def queueRenameCompletion (fromPath toPath : MountPath) (sourceGeneration : Nat) (bytes : Bytes)
    (seed : Str) (operation : FailedWriteOperation) : Runtime Unit := do
  let idempotencyKey := Rendering.idempotencyKey toPath.asStr
    (renameCompletionKeyMaterial fromPath.asStr sourceGeneration bytes) seed
  match ← enqueueFailedWrite ⟨idempotencyKey, operation⟩ with
  | .ok () => return ()
  | .error err => throw (ioError err)

omit [Serde] in
def queueKvRenameCompletion (fromPath toPath : MountPath) (fromBucket fromKey : Str)
    (expectedFromRevision : Nat) (toBucket toKey : Str) (bytes : Bytes) (seed : Str) :
    Runtime Unit :=
  queueRenameCompletion fromPath toPath expectedFromRevision bytes seed
    (.kvRenameComplete fromBucket fromKey ⟨expectedFromRevision⟩ toBucket toKey bytes)

omit [Serde] in
def queueObjectRenameCompletion (fromPath toPath : MountPath) (fromBucket fromObject : Str)
    (expectedFromSequence : Nat) (expectedFromNuid toBucket toObject : Str) (bytes : Bytes)
    (seed : Str) : Runtime Unit :=
  queueRenameCompletion fromPath toPath expectedFromSequence bytes seed
    (.objectRenameComplete fromBucket fromObject ⟨expectedFromSequence, expectedFromNuid⟩ toBucket
      toObject bytes)

omit [Serde] in
def queueRename (fromPath toPath : MountPath) : RenamePlan → Runtime Unit
  | .kv fromBucket fromKey toBucket toKey => do
      let entry ← kvRenameSource fromBucket fromKey
      ensureKvRenameDestination toBucket toKey
      let seed ← nextCommitSeed
      queueKvRenameCompletion fromPath toPath fromBucket fromKey entry.revision toBucket toKey
        entry.bytes seed
  | .object fromBucket fromObject toBucket toObject => do
      let object ← objectRenameSource fromBucket fromObject
      ensureObjectRenameDestination toBucket toObject
      let seed ← nextCommitSeed
      queueObjectRenameCompletion fromPath toPath fromBucket fromObject object.sequence object.nuid
        toBucket toObject object.bytes seed

omit [Serde] in
def executeRename (fromPath toPath : MountPath) (flags : Nat) : Runtime Unit := do
  ensureWritesAllowed
  if flags ≠ 0 then
    throw .invalidInput
  if fromPath = toPath then
    return ()
  let source ← liftErrno (parsePath fromPath)
  let target ← liftErrno (parsePath toPath)
  match ← liftErrno (planOrErrno (.rename target) source) with
  | .rename plan =>
      queueRename fromPath toPath plan
      replayQueue
      modify fun mount => mount.invalidateAfterLocalUnlink fromPath
      modify fun mount => mount.invalidateAfterLocalWrite toPath
  | _ => throw .notSupported

/-! ## Mounting -/

omit [Serde] [Rendering] in
/-- `JetStreamFuse::new` on a queue that has been opened. -/
def newMount (queue : WritebackQueue) (mountName : Str) (mountInstance : Nat) :
    Program io Mount := do
  let (_, mount) ← replayQueue.run (Mount.new queue mountName mountInstance)
  return mount

omit [Serde] [Rendering] in
def openMount (capacity : Nat) (mountName : Str) (mountInstance : Nat) : Transport Mount := do
  let queue ← WritebackQueue.open capacity
  ExceptT.lift (newMount queue mountName mountInstance)

end EventFs.Fuse
