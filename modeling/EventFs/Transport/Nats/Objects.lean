import EventFs.Transport.Nats.Core
import EventFs.Protocol.VisiblePaths

/-!
# Object buckets on the broker

The metadata of an object is the last message of its metadata subject; its bytes are
chunks under a subject named after the nuid of that metadata. Replacing or deleting an
object leaves the old chunks behind, and the code here purges them once it takes the
old generation for superseded.
-/

namespace EventFs.Transport.Nats.Objects

open Library Protocol

structure ObjectApplyMarker where
  sequence : Nat
  identity : ObjectWritebackIdentity
deriving DecidableEq, Repr

def objectWritebackMarkerSubject (bucket idempotencyKey : Str) : Str :=
  "$O.".toList ++ bucket ++ ".W.".toList ++ hexEncode (Text.asBytes idempotencyKey)

def objectWritebackMarkerSubjectFilter (bucket : Str) : Str :=
  "$O.".toList ++ bucket ++ ".W.>".toList

def objectWritebackIdentity (idempotencyKey : Str) (previousNuid : Option Str) :
    ObjectWritebackIdentity :=
  ⟨idempotencyKey, previousNuid.filter fun nuid => !nuid.isEmpty⟩

def objectIdempotencyDescription (idempotencyKey : Str) (previousNuid : Option Str) :
    ObjectDescription :=
  .identity (objectWritebackIdentity idempotencyKey previousNuid)

def objectWritebackIdentityFromDescription : ObjectDescription → Option ObjectWritebackIdentity
  | .identity identity => some identity
  | .text _ => none

def jsonError : TransportError := .json "expected value at line 1 column 1".toList

def objectWritebackIdentityFromMarker (payload : Payload) (expectedIdempotencyKey : Str) :
    TransportResult ObjectWritebackIdentity :=
  match payload with
  | .objectIdentity identity =>
      if identity.idempotencyKey = expectedIdempotencyKey then .ok identity
      else .error (.invalid ("object writeback marker identity mismatch for ".toList ++
        expectedIdempotencyKey))
  | _ => .error jsonError

def objectInfoFromPayload : Payload → TransportResult ObjectInfo
  | .objectInfo info => .ok info
  | _ => .error jsonError

/-- The identity of the write that stored this metadata, if it is the given one. -/
def appliedIdentity (info : ObjectInfo) (idempotencyKey : Str) :
    Option ObjectWritebackIdentity :=
  (info.description.bind objectWritebackIdentityFromDescription).filter fun identity =>
    identity.idempotencyKey == idempotencyKey

def objectPutPreviousNuid (identity : Option ObjectWritebackIdentity)
    (marker : Option ObjectApplyMarker) : Option Str :=
  ((identity.bind (·.previousNuid)).or (marker.bind (·.identity.previousNuid))).filter fun nuid =>
    !nuid.isEmpty

def objectWritebackLedgerKey (bucket object idempotencyKey : Str) : Str :=
  scopedKey "object".toList [bucket, object, idempotencyKey]

def liftResult {α : Type} : TransportResult α → NatsM α
  | .ok value => return value
  | .error err => throw err

variable (config : NatsStorageConfig)

/-! ## Buckets -/

def objectStore (bucket : Str) : NatsM Unit := do
  match ← attempt (.objectStore bucket) with
  | .ok _ => return ()
  | .error err => throw (lookupError err)

def ensureBucket (bucket : Str) : NatsM Unit := do
  match ← (ExceptT.lift (objectStore bucket).run : NatsM _) with
  | .ok _ => return ()
  | .error .notFound =>
      match ← (ExceptT.lift (retryIo (perform (.createObjectStore bucket)) config.retries).run :
          NatsM _) with
      | .ok _ => return ()
      | .error err => if isAlreadyExists err then return () else throw err
  | .error err => throw err

def objectStoreOrCreate (bucket : Str) : NatsM Unit := do
  match ← (ExceptT.lift (objectStore bucket).run : NatsM _) with
  | .ok _ => return ()
  | .error .notFound =>
      ensureBucket config bucket
      perform (.objectStore bucket)
  | .error err => throw err

/-! ## Metadata and markers -/

def metadataMessage (bucket object : Str) : NatsM (Option (ObjectInfo × Nat)) := do
  match ← lookup (.getLastMessage (objectStreamName bucket) (objectMetaSubject bucket object)) with
  | none => return none
  | some message =>
      let info ← liftResult (objectInfoFromPayload message.payload)
      return some (info, message.sequence)

def applyMarker (bucket idempotencyKey : Str) : NatsM (Option ObjectApplyMarker) := do
  match ← lookup (.getLastMessage (objectStreamName bucket)
      (objectWritebackMarkerSubject bucket idempotencyKey)) with
  | none => return none
  | some message =>
      let identity ← liftResult (objectWritebackIdentityFromMarker message.payload idempotencyKey)
      return some ⟨message.sequence, identity⟩

def targetSequenceAfterApplyMarker (bucket object idempotencyKey : Str) :
    NatsM (Option ObjectApplyMarker) := do
  match ← applyMarker bucket idempotencyKey with
  | none => return none
  | some marker =>
      match ← lookup (.getLastMessage (objectStreamName bucket)
          (objectMetaSubject bucket object)) with
      | none => return none
      | some message =>
          if marker.sequence < message.sequence then
            return some marker
          return none

def ensureMarkerSubject (bucket : Str) : NatsM Unit := do
  let subject := objectWritebackMarkerSubjectFilter bucket
  let info ← streamInfo (objectStreamName bucket)
  if info.subjects.any fun candidate => subjectMatches candidate subject then
    return ()
  perform (.updateStream (objectStreamName bucket)
    { info with subjects := info.subjects ++ [subject] })

def ensureApplyMarker (bucket idempotencyKey : Str) (previousNuid : Option Str) : NatsM Nat := do
  if let some marker ← applyMarker bucket idempotencyKey then
    return marker.sequence
  ensureBucket config bucket
  ensureDuplicateWindow config (objectStreamName bucket)
  ensureMarkerSubject bucket
  retryPublish config.retries (objectStreamName bucket)
    (objectWritebackMarkerSubject bucket idempotencyKey) []
    (.objectIdentity (objectWritebackIdentity idempotencyKey previousNuid))
    ⟨some ("writeback-marker:".toList ++ idempotencyKey), none⟩

def historyAppliedIdentity (bucket object idempotencyKey : Str) :
    NatsM (Option ObjectWritebackIdentity) :=
  scanSubjectHistoryUntil (objectStreamName bucket) (objectMetaSubject bucket object)
    fun message => do
      let info ← objectInfoFromPayload message.payload
      return if info.deleted then none else appliedIdentity info idempotencyKey

/-! ## Purging -/

def purgeChunks (bucket nuid : Str) : NatsM Unit := do
  let _ ← lookup (.purgeStreamSubject (objectStreamName bucket) (objectChunkSubject bucket nuid))

def purgeChunksIfKnown (bucket nuid : Str) : NatsM Unit :=
  if nuid.isEmpty then return () else purgeChunks bucket nuid

/-- The put has been seen: purge what it replaced and note it. -/
def settle (bucket ledgerKey : Str) (identity : Option ObjectWritebackIdentity)
    (marker : Option ObjectApplyMarker) : NatsM Bool := do
  purgeChunksIfKnown bucket ((objectPutPreviousNuid identity marker).getD [])
  Ledger.recordApplied config ledgerKey
  return true

/-! ## Idempotent puts -/

/-- The identity in the current metadata, if this write stored it and it is not deleted. -/
def currentIdentity (bucket object idempotencyKey : Str) :
    NatsM (Option ObjectWritebackIdentity) := do
  match ← (ExceptT.lift (objectStore bucket).run : NatsM _) with
  | .error .notFound => return none
  | .error err => throw err
  | .ok _ =>
      match ← metadataMessage bucket object with
      | some (info, _) => return if info.deleted then none else appliedIdentity info idempotencyKey
      | none => return none

def putApplied (bucket object idempotencyKey : Str) : NatsM Bool := do
  let ledgerKey := objectWritebackLedgerKey bucket object idempotencyKey
  let marker ← applyMarker bucket idempotencyKey
  if ← Ledger.hasApplied ledgerKey then
    purgeChunksIfKnown bucket ((objectPutPreviousNuid none marker).getD [])
    return true
  if let some identity ← currentIdentity bucket object idempotencyKey then
    return ← settle config bucket ledgerKey (some identity) marker
  if let some identity ← historyAppliedIdentity bucket object idempotencyKey then
    return ← settle config bucket ledgerKey (some identity) marker
  if let some marker ← targetSequenceAfterApplyMarker bucket object idempotencyKey then
    return ← settle config bucket ledgerKey none (some marker)
  return false

def putIdempotent (bucket object : Str) (bytes : Bytes) (idempotencyKey : Str) : NatsM Unit := do
  let ledgerKey := objectWritebackLedgerKey bucket object idempotencyKey
  if ← putApplied config bucket object idempotencyKey then
    Ledger.recordApplied config ledgerKey
    return ()
  let previousNuid := match ← metadataMessage bucket object with
    | some (info, _) => if info.deleted then none else some info.nuid
    | none => none
  let _ ← ensureApplyMarker config bucket idempotencyKey previousNuid
  objectStoreOrCreate config bucket
  retryIo (perform (.putObject bucket object
    (some (objectIdempotencyDescription idempotencyKey previousNuid)) bytes)) config.retries
  purgeChunksIfKnown bucket (previousNuid.getD [])
  Ledger.recordApplied config ledgerKey

/-! ## Conditional deletes -/

def deleteSuperseded (bucket object : Str) (expectedSequence : Nat) (expectedNuid : Str) :
    NatsM Bool := do
  match ← metadataMessage bucket object with
  | none =>
      purgeChunksIfKnown bucket expectedNuid
      return true
  | some (info, sequence) =>
      if info.deleted then
        purgeChunks bucket (if expectedNuid.isEmpty then info.nuid else expectedNuid)
        return true
      else if sequence ≠ expectedSequence ∨
          (!expectedNuid.isEmpty && info.nuid != expectedNuid) then
        purgeChunksIfKnown bucket expectedNuid
        return true
      else return false

def deleteIfSequence (bucket object : Str) (expectedSequence : Nat) (expectedNuid : Str) :
    NatsM Unit := do
  match ← metadataMessage bucket object with
  | none => purgeChunksIfKnown bucket expectedNuid
  | some (info, currentSequence) =>
      if info.deleted then
        purgeChunks bucket (if expectedNuid.isEmpty then info.nuid else expectedNuid)
      else if currentSequence ≠ expectedSequence ∨
          (!expectedNuid.isEmpty && info.nuid != expectedNuid) then
        purgeChunksIfKnown bucket expectedNuid
      else do
        let tombstone := { info with chunks := 0, size := 0, deleted := true }
        match ← (ExceptT.lift (retryPublish config.retries (objectStreamName bucket)
            (objectMetaSubject bucket object) [(natsRollup, rollupSubject)]
            (.objectInfo tombstone) ⟨none, some expectedSequence⟩).run : NatsM _) with
        | .ok _ => purgeChunks bucket info.nuid
        | .error err =>
            if ← deleteSuperseded bucket object expectedSequence info.nuid then
              return ()
            throw err

def deleteIfSequenceApplied (bucket object : Str) (expectedSequence : Nat) (expectedNuid : Str) :
    NatsM Bool :=
  deleteSuperseded bucket object expectedSequence expectedNuid

/-! ## Watching -/

inductive ObjectWatchSubject
  | metadata (bucket : Str)
  | marker
  | chunk
deriving DecidableEq, Repr

def objectWatchSubject (subject : Str) : Option ObjectWatchSubject := do
  let rest ← Text.stripPrefix "$O.".toList subject
  let (bucket, kind) ← Text.splitOnce '.' rest
  if Text.startsWith "M.".toList kind then some (.metadata bucket)
  else if Text.startsWith "W.".toList kind then some .marker
  else if Text.startsWith "C.".toList kind then some .chunk
  else none

def objectWatchFact (bucket : Str) (message : Message) : Option StorageFact :=
  match message.payload with
  | .objectInfo info => some (.object bucket info.name)
  | _ => none

end EventFs.Transport.Nats.Objects
