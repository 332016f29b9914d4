import EventFs.Transport.Storage

/-!
# The write-back queue

Writes that could not reach the backend wait in a queue that is kept in memory and
in a file. Everything the queue does goes through three kinds of calls: a storage
call, `persist` (write the whole file, rename it into place, sync the directory) and
`load` (read the file on opening). The file is modelled by the records it holds.
-/

namespace EventFs.Transport

open Library Protocol

/-! ## Entries -/

inductive QueueOperation
  | kvPut (bucket key : Str) (bytes : Bytes)
  | kvRenameComplete (fromBucket fromKey : Str) (expectedFromRevision : Nat)
      (toBucket toKey : Str) (bytes : Bytes)
  | objectPut (bucket object : Str) (bytes : Bytes)
  | objectRenameComplete (fromBucket fromObject : Str) (expectedFromSequence : Nat)
      (expectedFromNuid toBucket toObject : Str) (bytes : Bytes)
  | publishJsonLines (stream subject : Str) (bytes : Bytes) (appliedLines : Nat)
  | materializedPut (bucket key : Str) (bytes : Bytes)
deriving DecidableEq, Repr

structure QueueEntry where
  idempotencyKey : Str
  operation : QueueOperation
  attempts : Nat
  done : Bool
deriving DecidableEq, Repr

structure KvSourceGeneration where
  revision : Nat
deriving DecidableEq, Repr

structure ObjectSourceGeneration where
  sequence : Nat
  nuid : Str
deriving DecidableEq, Repr

inductive FailedWriteOperation
  | kvPut (bucket key : Str) (bytes : Bytes)
  | kvRenameComplete (fromBucket fromKey : Str) (source : KvSourceGeneration)
      (toBucket toKey : Str) (bytes : Bytes)
  | objectPut (bucket object : Str) (bytes : Bytes)
  | objectRenameComplete (fromBucket fromObject : Str) (source : ObjectSourceGeneration)
      (toBucket toObject : Str) (bytes : Bytes)
  | publishJsonLines (stream subject : Str) (bytes : Bytes) (appliedLines : Nat)
  | materializedPut (bucket key : Str) (bytes : Bytes)
deriving DecidableEq, Repr

structure FailedWrite where
  idempotencyKey : Str
  operation : FailedWriteOperation
deriving DecidableEq, Repr

def durableOperationFromFailedWrite : FailedWriteOperation → QueueOperation
  | .kvPut bucket key bytes => .kvPut bucket key bytes
  | .kvRenameComplete fromBucket fromKey source toBucket toKey bytes =>
      .kvRenameComplete fromBucket fromKey source.revision toBucket toKey bytes
  | .objectPut bucket object bytes => .objectPut bucket object bytes
  | .objectRenameComplete fromBucket fromObject source toBucket toObject bytes =>
      .objectRenameComplete fromBucket fromObject source.sequence source.nuid toBucket toObject
        bytes
  | .publishJsonLines stream subject bytes appliedLines =>
      .publishJsonLines stream subject bytes appliedLines
  | .materializedPut bucket key bytes => .materializedPut bucket key bytes

def durableEntryFromFailedWrite (failed : FailedWrite) : QueueEntry where
  idempotencyKey := failed.idempotencyKey
  operation := durableOperationFromFailedWrite failed.operation
  attempts := 0
  done := false

/-! ## Calls -/

inductive IoCall
  | store (call : StorageCall)
  | persist (entries : List QueueEntry)
  | load
deriving DecidableEq, Repr

def io : Interface where
  Call := IoCall
  Reply
    | .store call => TransportResult call.Value
    | .persist _ => TransportResult Unit
    | .load => TransportResult (List QueueEntry)

/-- Code that acts through the queue's calls and may fail. -/
abbrev Transport := ExceptT TransportError (Program io)

def call (request : StorageCall) : Transport request.Value :=
  ExceptT.mk (Program.perform (I := io) (.store request))

def persistEntries (entries : List QueueEntry) : Transport Unit :=
  ExceptT.mk (Program.perform (I := io) (.persist entries))

def readEntries : Transport (List QueueEntry) :=
  ExceptT.mk (Program.perform (I := io) .load)

/-- The backend and the queue file. -/
structure World (σ : Type) where
  store : σ
  file : List QueueEntry

def World.handle {σ : Type} (backend : Program.Handler storage σ) : Program.Handler io (World σ)
  | world, .store request =>
      ((backend world.store request).1, { world with store := (backend world.store request).2 })
  | world, .persist entries => (.ok (), { world with file := entries })
  | world, .load => (.ok world.file, world)

@[simp] theorem eval_persistEntries {σ : Type} (backend : Program.Handler storage σ)
    (entries : List QueueEntry) (w : World σ) :
    Program.eval (World.handle backend) (persistEntries entries).run w =
      (.ok (), { w with file := entries }) := rfl

theorem eval_call {σ : Type} (backend : Program.Handler storage σ) (request : StorageCall)
    (w : World σ) :
    Program.eval (World.handle backend) (call request).run w =
      ((backend w.store request).1, { w with store := (backend w.store request).2 }) := rfl

/-- The replies that report an error. -/
def Fails : (c : IoCall) → io.Reply c → Prop
  | .store _, reply => ∃ err, reply = .error err
  | .persist _, reply => ∃ err, reply = .error err
  | .load, reply => ∃ err, reply = .error err

/-! ## Executing an entry -/

structure WriteExecutor where
  isApplied : QueueEntry → Transport Bool
  refreshAfterFailedExecute : QueueEntry → Program io (QueueEntry × TransportResult Unit)
  execute : QueueEntry → Transport Unit

namespace StoreReplayExecutor

def isApplied (entry : QueueEntry) : Transport Bool :=
  match entry.operation with
  | .kvPut bucket key _ | .materializedPut bucket key _ =>
      call (.kvPutApplied bucket key entry.idempotencyKey)
  | .kvRenameComplete fromBucket fromKey expectedFromRevision toBucket toKey _ => do
      let destinationApplied ← call (.kvPutApplied toBucket toKey entry.idempotencyKey)
      if !destinationApplied then
        return false
      call (.kvDeleteIfRevisionApplied fromBucket fromKey expectedFromRevision)
  | .objectPut bucket object _ => call (.objectPutApplied bucket object entry.idempotencyKey)
  | .objectRenameComplete fromBucket fromObject expectedFromSequence expectedFromNuid toBucket
      toObject _ => do
      let destinationApplied ← call (.objectPutApplied toBucket toObject entry.idempotencyKey)
      if !destinationApplied then
        return false
      call (.objectDeleteIfSequenceApplied fromBucket fromObject expectedFromSequence
        expectedFromNuid)
  | .publishJsonLines stream subject bytes _ =>
      call (.publishJsonLinesApplied stream subject bytes entry.idempotencyKey)

/-- A failed publish may have stored some lines; the entry then records how many. -/
def refreshAfterFailedExecute (entry : QueueEntry) :
    Program io (QueueEntry × TransportResult Unit) :=
  match entry.operation with
  | .publishJsonLines stream subject bytes appliedLines => do
      match ← (call (.publishJsonLinesAppliedPrefix stream subject bytes
          entry.idempotencyKey)).run with
      | .ok durablePrefix =>
          return ({ entry with
            operation := .publishJsonLines stream subject bytes
              (max appliedLines durablePrefix) }, .ok ())
      | .error err => return (entry, .error err)
  | _ => return (entry, .ok ())

def execute (entry : QueueEntry) : Transport Unit :=
  match entry.operation with
  | .kvPut bucket key bytes | .materializedPut bucket key bytes => do
      let _ ← call (.kvPutIdempotent bucket key bytes entry.idempotencyKey)
  | .kvRenameComplete fromBucket fromKey expectedFromRevision toBucket toKey bytes => do
      let _ ← call (.kvPutIdempotent toBucket toKey bytes entry.idempotencyKey)
      call (.kvDeleteIfRevision fromBucket fromKey expectedFromRevision)
  | .objectPut bucket object bytes => do
      let _ ← call (.objectPutIdempotent bucket object bytes entry.idempotencyKey)
  | .objectRenameComplete fromBucket fromObject expectedFromSequence expectedFromNuid toBucket
      toObject bytes => do
      let _ ← call (.objectPutIdempotent toBucket toObject bytes entry.idempotencyKey)
      call (.objectDeleteIfSequence fromBucket fromObject expectedFromSequence expectedFromNuid)
  | .publishJsonLines stream subject bytes _ => do
      let _ ← call (.publishJsonLines stream subject bytes entry.idempotencyKey)

end StoreReplayExecutor

def storeReplayExecutor : WriteExecutor where
  isApplied := StoreReplayExecutor.isApplied
  refreshAfterFailedExecute := StoreReplayExecutor.refreshAfterFailedExecute
  execute := StoreReplayExecutor.execute

/-! ## The queue -/

structure WritebackQueue where
  capacity : Nat
  entries : List QueueEntry
deriving DecidableEq, Repr

structure QueueState where
  capacity : Nat
  pending : Nat
  done : Nat
deriving DecidableEq, Repr

/-- Attempts are a `u32` and saturate. -/
def QueueEntry.attempt (entry : QueueEntry) : QueueEntry :=
  { entry with attempts := min (entry.attempts + 1) (2 ^ 32 - 1) }

/-- Replay from the front until the queue is empty or a step fails. The result is the
queue in memory and the outcome. -/
def replayEntries (executor : WriteExecutor) :
    List QueueEntry → Program io (List QueueEntry × TransportResult Unit)
  | [] => return ([], .ok ())
  | entry :: rest =>
      let drop (current : QueueEntry) := do
        match ← (persistEntries rest).run with
        | .error err => return (current :: rest, .error err)
        | .ok () => replayEntries executor rest
      if entry.done then drop entry
      else do
        match ← (executor.isApplied entry).run with
        | .error err => return (entry :: rest, .error err)
        | .ok true => drop entry
        | .ok false =>
            match ← (persistEntries (entry.attempt :: rest)).run with
            | .error err => return (entry :: rest, .error err)
            | .ok () =>
                match ← (executor.execute entry.attempt).run with
                | .ok () => drop entry.attempt
                | .error err => do
                    let (refreshed, _) ← executor.refreshAfterFailedExecute entry.attempt
                    match ← (persistEntries (refreshed :: rest)).run with
                    | .error persistErr => return (entry.attempt :: rest, .error persistErr)
                    | .ok () => return (refreshed :: rest, .error err)

/-- What `replayEntries` does once an entry needs no more work. -/
def dropEntry (executor : WriteExecutor) (current : QueueEntry) (rest : List QueueEntry) :
    Program io (List QueueEntry × TransportResult Unit) := do
  match ← (persistEntries rest).run with
  | .error err => return (current :: rest, .error err)
  | .ok () => replayEntries executor rest

namespace WritebackQueue

def compactCompletedEntries (entries : List QueueEntry) : List QueueEntry :=
  entries.filter fun entry => !entry.done

def «open» (capacity : Nat) : Transport WritebackQueue := do
  let entries ← readEntries
  let compacted := compactCompletedEntries entries
  if compacted.length ≠ entries.length then
    persistEntries compacted
  return ⟨capacity, compacted⟩

/-- The entries of a batch whose idempotency key is neither queued nor earlier in it. -/
def admitted (queued : List QueueEntry) : List QueueEntry → List QueueEntry → List QueueEntry
  | pending, [] => pending
  | pending, entry :: rest =>
      if (queued.any fun existing => existing.idempotencyKey == entry.idempotencyKey) ||
          pending.any fun existing => existing.idempotencyKey == entry.idempotencyKey then
        admitted queued pending rest
      else admitted queued (pending ++ [entry]) rest

def enqueueAll (queue : WritebackQueue) (entries : List QueueEntry) :
    Program io (WritebackQueue × TransportResult Unit) := do
  let pending := admitted queue.entries [] entries
  if pending.isEmpty then
    return (queue, .ok ())
  if queue.capacity < queue.entries.length + pending.length then
    return (queue, .error .queueFull)
  match ← (persistEntries (queue.entries ++ pending)).run with
  | .error err => return (queue, .error err)
  | .ok () => return ({ queue with entries := queue.entries ++ pending }, .ok ())

def enqueue (queue : WritebackQueue) (entry : QueueEntry) :
    Program io (WritebackQueue × TransportResult Unit) :=
  queue.enqueueAll [entry]

def enqueueFailedWrite (queue : WritebackQueue) (failed : FailedWrite) :
    Program io (WritebackQueue × TransportResult Unit) :=
  queue.enqueue (durableEntryFromFailedWrite failed)

def replay (queue : WritebackQueue) (executor : WriteExecutor) :
    Program io (WritebackQueue × TransportResult Unit) := do
  let (entries, result) ← replayEntries executor queue.entries
  return ({ queue with entries }, result)

def replayWithStore (queue : WritebackQueue) : Program io (WritebackQueue × TransportResult Unit) :=
  queue.replay storeReplayExecutor

def pendingEntries (queue : WritebackQueue) : List QueueEntry :=
  queue.entries.filter fun entry => !entry.done

def pendingLen (queue : WritebackQueue) : Nat := queue.pendingEntries.length

def hasPending (queue : WritebackQueue) : Bool := 0 < queue.pendingLen

def state (queue : WritebackQueue) : QueueState where
  capacity := queue.capacity
  pending := queue.pendingLen
  done := (queue.entries.filter fun entry => entry.done).length

end WritebackQueue

/-! ## The gate -/

inductive WritebackGateTransition
  | unchanged
  | blocked
  | unblocked
deriving DecidableEq, Repr

structure WritebackGate where
  acceptingWrites : Bool
deriving DecidableEq, Repr

def WritebackGate.new : WritebackGate := ⟨true⟩

def WritebackGate.syncPending (gate : WritebackGate) (hasPending : Bool) :
    WritebackGate × WritebackGateTransition :=
  match gate.acceptingWrites, hasPending with
  | true, true => (⟨false⟩, .blocked)
  | false, false => (⟨true⟩, .unblocked)
  | _, _ => (gate, .unchanged)

structure WritebackReplay where
  queue : WritebackQueue
  gate : WritebackGate
deriving DecidableEq, Repr

structure ReplayQueueOutcome where
  queue : QueueState
  acceptingWrites : Bool
  gateTransition : WritebackGateTransition
deriving DecidableEq, Repr

namespace WritebackReplay

def syncGate (replay : WritebackReplay) : WritebackReplay × ReplayQueueOutcome :=
  let (gate, gateTransition) := replay.gate.syncPending replay.queue.hasPending
  ({ replay with gate }, ⟨replay.queue.state, gate.acceptingWrites, gateTransition⟩)

def fromQueue (queue : WritebackQueue) : WritebackReplay :=
  (syncGate ⟨queue, WritebackGate.new⟩).1

def «open» (capacity : Nat) : Transport WritebackReplay := do
  return fromQueue (← WritebackQueue.open capacity)

def enqueueFailedWrite (replay : WritebackReplay) (failed : FailedWrite) :
    Program io (WritebackReplay × TransportResult ReplayQueueOutcome) := do
  let (queue, result) ← replay.queue.enqueueFailedWrite failed
  match result with
  | .error err => return ({ replay with queue }, .error err)
  | .ok () =>
      let (replay, outcome) := syncGate { replay with queue }
      return (replay, .ok outcome)

def replay (replay : WritebackReplay) :
    Program io (WritebackReplay × TransportResult ReplayQueueOutcome) := do
  let (queue, result) ← replay.queue.replayWithStore
  let (replay, outcome) := syncGate { replay with queue }
  return (replay, result.map fun _ => outcome)

end WritebackReplay

end EventFs.Transport
