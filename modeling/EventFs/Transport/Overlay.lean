import EventFs.Transport.Writeback

/-!
# Pending writes as overlays

How a queued entry shows in the mount before it is replayed: the paths at which its
value becomes visible, the paths a rename takes away, and the payload.
-/

namespace EventFs.Transport

open Library Protocol

inductive PendingWritePayload
  | wholeValue (bytes : Bytes)
  | jsonLines (stream subject : Str) (bytes : Bytes) (appliedLines : Nat)
deriving DecidableEq, Repr

structure PendingWriteOverlay where
  idempotencyKey : Str
  visiblePaths : List MountPath
  deletedPaths : List MountPath
  payload : PendingWritePayload
deriving DecidableEq

/-- The paths that show a fact; none where its native path is not a mount path. -/
def storageFactVisiblePaths (fact : StorageFact) : List MountPath :=
  match Protocol.visiblePaths fact with
  | .ok paths => paths.map (·.path)
  | .error _ => []

def kvVisibleMountPaths (bucket key : Str) : List MountPath :=
  storageFactVisiblePaths (.kv bucket key)

def objectVisibleMountPaths (bucket name : Str) : List MountPath :=
  storageFactVisiblePaths (.object bucket name)

def publishJsonlVisibleMountPaths (stream subject : Str) : List MountPath :=
  storageFactVisiblePaths (.streamSubject stream subject)

def queueEntryPendingOverlay (entry : QueueEntry) : PendingWriteOverlay :=
  match entry.operation with
  | .kvPut bucket key bytes | .materializedPut bucket key bytes =>
      ⟨entry.idempotencyKey, kvVisibleMountPaths bucket key, [], .wholeValue bytes⟩
  | .kvRenameComplete fromBucket fromKey _ toBucket toKey bytes =>
      ⟨entry.idempotencyKey, kvVisibleMountPaths toBucket toKey,
        kvVisibleMountPaths fromBucket fromKey, .wholeValue bytes⟩
  | .objectPut bucket object bytes =>
      ⟨entry.idempotencyKey, objectVisibleMountPaths bucket object, [], .wholeValue bytes⟩
  | .objectRenameComplete fromBucket fromObject _ _ toBucket toObject bytes =>
      ⟨entry.idempotencyKey, objectVisibleMountPaths toBucket toObject,
        objectVisibleMountPaths fromBucket fromObject, .wholeValue bytes⟩
  | .publishJsonLines stream subject bytes appliedLines =>
      ⟨entry.idempotencyKey, publishJsonlVisibleMountPaths stream subject, [],
        .jsonLines stream subject bytes appliedLines⟩

def WritebackQueue.pendingOverlays (queue : WritebackQueue) : List PendingWriteOverlay :=
  queue.pendingEntries.map queueEntryPendingOverlay

def WritebackReplay.pendingOverlays (replay : WritebackReplay) : List PendingWriteOverlay :=
  replay.queue.pendingOverlays

end EventFs.Transport
