import EventFs.Transport.Nats.Core

/-!
# KV buckets on the broker

A put that carries an idempotency key is preceded by a marker in the stream of the
bucket and followed by a second marker and a ledger entry; whether it has been applied
is read off any of these, the last message of the key, or its retained history.
-/

namespace EventFs.Transport.Nats

open Library Protocol

def writebackIdempotencyHeader : Str := "EventFS-Idempotency-Key".toList

def writebackMarkerOperation : Str := "kv-writeback-marker".toList

def appliedMarkerOperation : Str := "kv-applied-marker".toList

namespace Kv

def subject (bucket key : Str) : Str := "$KV.".toList ++ bucket ++ '.' :: key

def subjectParts (subject : Str) : Option (Str × Str) :=
  (Text.stripPrefix "$KV.".toList subject).bind (Text.splitOnce '.')

def writebackMarkerKey (idempotencyKey : Str) : Str :=
  kvWritebackMarkerKeyPrefix ++ '.' :: hexEncode (Text.asBytes idempotencyKey)

def writebackMarkerSubject (bucket idempotencyKey : Str) : Str :=
  subject bucket (writebackMarkerKey idempotencyKey)

def appliedMarkerKey (idempotencyKey : Str) : Str :=
  kvAppliedMarkerKeyPrefix ++ '.' :: hexEncode (Text.asBytes idempotencyKey)

def appliedMarkerSubject (bucket idempotencyKey : Str) : Str :=
  subject bucket (appliedMarkerKey idempotencyKey)

def markerPayload (operation key idempotencyKey : Str) : Payload :=
  .kvMarker ⟨operation, idempotencyKey, key⟩

def markerMatches (payload : Payload) (operation key idempotencyKey : Str) : Bool :=
  match payload with
  | .kvMarker marker =>
      marker.operation == operation && marker.key == key &&
        marker.idempotencyKey == idempotencyKey
  | _ => false

def headersContainIdempotencyKey (headers : Headers) (idempotencyKey : Str) : Bool :=
  headers.get writebackIdempotencyHeader == some idempotencyKey

def writebackLedgerKey (bucket key idempotencyKey : Str) : Str :=
  scopedKey "kv".toList [bucket, key, idempotencyKey]

variable (config : NatsStorageConfig)

def store (bucket : Str) : NatsM Unit := do
  match ← attempt (.keyValue bucket) with
  | .ok _ => return ()
  | .error err => throw (lookupError err)

def ensureBucket (bucket : Str) : NatsM Unit := do
  match ← (ExceptT.lift (store bucket).run : NatsM _) with
  | .ok _ => return ()
  | .error .notFound =>
      match ← (ExceptT.lift (retryIo (perform (.createKeyValue bucket config.kvHistory))
          config.retries).run : NatsM _) with
      | .ok _ => return ()
      | .error err => if isAlreadyExists err then return () else throw err
  | .error err => throw err

/-! ## Markers -/

/-- The sequence of the last message of a marker subject, if it is that marker. -/
def markerSequence (markerSubject operation bucket key idempotencyKey : Str) :
    NatsM (Option Nat) := do
  match ← lookup (.getLastMessage (streamName bucket) markerSubject) with
  | none => return none
  | some message =>
      if markerMatches message.payload operation key idempotencyKey then
        return some message.sequence
      return none

def applyMarkerSequence (bucket key idempotencyKey : Str) : NatsM (Option Nat) :=
  markerSequence (writebackMarkerSubject bucket idempotencyKey) writebackMarkerOperation bucket
    key idempotencyKey

def appliedMarkerSequence (bucket key idempotencyKey : Str) : NatsM (Option Nat) :=
  markerSequence (appliedMarkerSubject bucket idempotencyKey) appliedMarkerOperation bucket key
    idempotencyKey

/-- The sequence of a marker, which is published first if it is not there. -/
def ensureMarker (found : NatsM (Option Nat)) (markerSubject operation publishId bucket key
    idempotencyKey : Str) : NatsM Nat := do
  if let some sequence ← found then
    return sequence
  ensureBucket config bucket
  ensureDuplicateWindow config (streamName bucket)
  retryPublish config.retries (streamName bucket) markerSubject []
    (markerPayload operation key idempotencyKey) ⟨some publishId, none⟩

def ensureApplyMarker (bucket key idempotencyKey : Str) : NatsM Nat :=
  ensureMarker config (applyMarkerSequence bucket key idempotencyKey)
    (writebackMarkerSubject bucket idempotencyKey) writebackMarkerOperation
    ("writeback-marker:".toList ++ idempotencyKey) bucket key idempotencyKey

def recordAppliedMarker (bucket key idempotencyKey : Str) : NatsM Nat :=
  ensureMarker config (appliedMarkerSequence bucket key idempotencyKey)
    (appliedMarkerSubject bucket idempotencyKey) appliedMarkerOperation
    ("writeback-applied-marker:".toList ++ idempotencyKey) bucket key idempotencyKey

/-! ## Evidence that a put has been applied -/

def latestAppliedRevision (bucket key idempotencyKey : Str) : NatsM (Option Nat) := do
  match ← lookup (.getLastMessage (streamName bucket) (subject bucket key)) with
  | none => return none
  | some message =>
      if headersContainIdempotencyKey message.headers idempotencyKey then
        return some message.sequence
      return none

def targetSequenceAfterApplyMarker (bucket key idempotencyKey : Str) : NatsM (Option Nat) := do
  match ← applyMarkerSequence bucket key idempotencyKey with
  | none => return none
  | some markerSequence =>
      match ← lookup (.getLastMessage (streamName bucket) (subject bucket key)) with
      | none => return none
      | some message =>
          if markerSequence < message.sequence then
            return some message.sequence
          return none

def historyAppliedRevision (bucket key idempotencyKey : Str) : NatsM (Option Nat) :=
  scanSubjectHistoryUntil (streamName bucket) (subject bucket key) fun message =>
    .ok (if headersContainIdempotencyKey message.headers idempotencyKey then
      some message.sequence else none)

/-- Evidence found outside the ledger is noted there. -/
def noting (ledgerKey : Str) (evidence : NatsM (Option Nat)) : NatsM (Option Nat) := do
  match ← evidence with
  | none => return none
  | some sequence =>
      Ledger.recordApplied config ledgerKey
      return some sequence

def anyAppliedRevision (bucket key idempotencyKey : Str) : NatsM (Option Nat) := do
  let ledgerKey := writebackLedgerKey bucket key idempotencyKey
  if ← Ledger.hasApplied ledgerKey then
    return some 0
  if let some sequence ←
      noting config ledgerKey (appliedMarkerSequence bucket key idempotencyKey) then
    return some sequence
  if let some revision ←
      noting config ledgerKey (latestAppliedRevision bucket key idempotencyKey) then
    return some revision
  if let some sequence ←
      noting config ledgerKey (targetSequenceAfterApplyMarker bucket key idempotencyKey) then
    return some sequence
  noting config ledgerKey (historyAppliedRevision bucket key idempotencyKey)

/-! ## Idempotent puts -/

def putIdempotent (bucket key : Str) (bytes : Bytes) (idempotencyKey : Str) : NatsM Nat := do
  let ledgerKey := writebackLedgerKey bucket key idempotencyKey
  if let some revision ← anyAppliedRevision config bucket key idempotencyKey then
    return revision
  ensureBucket config bucket
  ensureDuplicateWindow config (streamName bucket)
  let _ ← ensureApplyMarker config bucket key idempotencyKey
  let sequence ← retryPublish config.retries (streamName bucket) (subject bucket key)
    [(writebackIdempotencyHeader, idempotencyKey)] (.bytes bytes) ⟨some idempotencyKey, none⟩
  let _ ← recordAppliedMarker config bucket key idempotencyKey
  Ledger.recordApplied config ledgerKey
  return sequence

def putApplied (bucket key idempotencyKey : Str) : NatsM Bool := do
  return (← anyAppliedRevision config bucket key idempotencyKey).isSome

/-! ## Reading and deleting -/

def operationHeader : Str := "KV-Operation".toList

def operationDelete : Str := "DEL".toList

def operationPurge : Str := "PURGE".toList

def messageIsPut (headers : Headers) : Bool :=
  !(headers.get operationHeader).any fun operation =>
    operation == operationDelete || operation == operationPurge

/-- `KeyRevision` without its time, and with the value that its bytes encode. -/
structure Entry where
  revision : Nat
  value : Payload
deriving DecidableEq, Repr

def get (bucket key : Str) : NatsM (Option Entry) := do
  match ← (ExceptT.lift (store bucket).run : NatsM _) with
  | .error .notFound => return none
  | .error err => throw err
  | .ok _ =>
      match ← lookup (.getLastMessage (streamName bucket) (subject bucket key)) with
      | none => return none
      | some message =>
          if messageIsPut message.headers then
            return some ⟨message.sequence, message.payload⟩
          return none

inductive KvDeleteRevision
  | deleted
  | missing
  | revisionChanged
deriving DecidableEq, Repr

def deleteRevisionOnce (bucket key : Str) (expectedRevision : Nat) : NatsM KvDeleteRevision := do
  match ← (ExceptT.lift (retryIo (perform (.publish (streamName bucket) (subject bucket key)
      [(operationHeader, operationDelete)] (.bytes []) ⟨none, some expectedRevision⟩))
      config.retries).run : NatsM _) with
  | .ok _ => return .deleted
  | .error err =>
      match ← get bucket key with
      | none => return .missing
      | some entry =>
          if entry.revision ≠ expectedRevision then
            return .revisionChanged
          throw err

/-- The rounds that are left of `attempts`. -/
def plainKvDeleteRounds (currentRevision : NatsM (Option Nat))
    (deleteRevision : Nat → NatsM KvDeleteRevision) (attempts : Nat) : Nat → NatsM Unit
  | 0 => throw (.invalid "KV delete conflict with no attempts configured".toList)
  | left + 1 => do
      match ← currentRevision with
      | none => throw .notFound
      | some revision =>
          match ← deleteRevision revision with
          | .deleted => return ()
          | .missing => throw .notFound
          | .revisionChanged =>
              if left = 0 then
                throw (.invalid ("KV delete conflict after ".toList ++ Text.decimal attempts ++
                  " attempts".toList))
              plainKvDeleteRounds currentRevision deleteRevision attempts left

def retryPlainKvDelete (retries : Nat) (currentRevision : NatsM (Option Nat))
    (deleteRevision : Nat → NatsM KvDeleteRevision) : NatsM Unit :=
  let attempts := min (retries + 1) (2 ^ 64 - 1)
  plainKvDeleteRounds currentRevision deleteRevision attempts attempts

def delete (bucket key : Str) : NatsM Unit :=
  retryPlainKvDelete config.retries (do return (← get bucket key).map (·.revision))
    (deleteRevisionOnce config bucket key)

end Kv

end EventFs.Transport.Nats
