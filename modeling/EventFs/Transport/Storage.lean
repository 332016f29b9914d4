import EventFs.Library.Program
import EventFs.Protocol.VisiblePaths

/-!
# The storage interface

The two storage traits as one set of calls. `StorageCall.Value` is what a call
returns when it succeeds; every reply may also be a `TransportError`. Timestamps are
not modelled.
-/

namespace EventFs.Transport

open Library Protocol

/-- The kinds of I/O error that the code tells apart. -/
inductive ErrorKind
  | notFound
  | alreadyExists
  | timedOut
  | other
deriving DecidableEq, Repr

structure IoError where
  kind : ErrorKind
  text : Str
deriving DecidableEq, Repr

def IoError.other (text : Str) : IoError := ⟨.other, text⟩

/-- `protocol` is the source's `Invalid` where its message is the text of a protocol
error. -/
inductive TransportError
  | io (err : IoError)
  | json (message : Str)
  | invalid (message : Str)
  | protocol (err : EventFsError)
  | queueFull
  | queueLocked (path : Str)
  | notFound
deriving DecidableEq, Repr

/-- The text of an error. A `protocol` error is always one about JSON. -/
def TransportError.text : TransportError → Str
  | .io err => "NATS IO failed: ".toList ++ err.text
  | .json message => "JSON failed: ".toList ++ message
  | .invalid message => "invalid transport request: ".toList ++ message
  | .protocol err => "invalid transport request: ".toList ++ err.text
  | .queueFull => "writeback queue is full".toList
  | .queueLocked path => "writeback queue is already open: ".toList ++ path
  | .notFound => "entry not found".toList

abbrev TransportResult (α : Type) := Except TransportError α

instance {α : Type} [DecidableEq α] : DecidableEq (TransportResult α)
  | .ok a, .ok b => decidable_of_iff (a = b) (by simp)
  | .error a, .error b => decidable_of_iff (a = b) (by simp)
  | .ok _, .error _ => isFalse (by simp)
  | .error _, .ok _ => isFalse (by simp)

inductive EntryKind
  | directory
  | file
deriving DecidableEq, Repr

structure DirectoryEntry where
  name : Str
  kind : EntryKind
deriving DecidableEq, Repr

/-- Change the first entry with this name. -/
def changeNamed (name : Str) (change : DirectoryEntry → DirectoryEntry) :
    List DirectoryEntry → List DirectoryEntry
  | [] => []
  | entry :: rest =>
      if entry.name = name then change entry :: rest else entry :: changeNamed name change rest

def sortByName (entries : List DirectoryEntry) : List DirectoryEntry :=
  entries.insertionSort fun left right => left.name ≤ right.name

structure KeyRevision where
  revision : Nat
  bytes : Bytes
deriving DecidableEq, Repr

structure StreamMessageView where
  stream : Str
  sequence : Nat
  subject : Str
  payload : Bytes
deriving DecidableEq, Repr

structure ObjectVersion where
  sequence : Nat
  nuid : Str
  bytes : Bytes
deriving DecidableEq, Repr

structure ObjectMetadata where
  size : Nat
  sequence : Nat
deriving DecidableEq, Repr

inductive CacheOrigin
  | kvRevision (bucket key : Str) (revision : Nat)
  | streamSequence (stream : Str) (sequence : Nat)
  | objectVersion (bucket object : Str)
  | materializedView (path : Str)
  | localDiagnostic
deriving DecidableEq, Repr

structure CacheEntry where
  path : Str
  origin : CacheOrigin
  bytes : Bytes
  valid : Bool
deriving DecidableEq, Repr

inductive WatchEvent
  | invalidatePath (path : MountPath)
  | invalidateAffectedPath (path : MountPath) (reason : AffectedPathReason)
  | refresh (entry : CacheEntry)
  | gap
deriving DecidableEq

/-- The methods of `ReplayStorage`, then those of `MountStorage`. -/
inductive StorageCall
  | kvPutIdempotent (bucket key : Str) (bytes : Bytes) (idempotencyKey : Str)
  | kvPutApplied (bucket key idempotencyKey : Str)
  | kvDeleteIfRevision (bucket key : Str) (expectedRevision : Nat)
  | kvDeleteIfRevisionApplied (bucket key : Str) (expectedRevision : Nat)
  | publishJsonLines (stream subject : Str) (bytes : Bytes) (idempotencySeed : Str)
  | publishJsonLinesApplied (stream subject : Str) (bytes : Bytes) (idempotencySeed : Str)
  | publishJsonLinesAppliedPrefix (stream subject : Str) (bytes : Bytes) (idempotencySeed : Str)
  | objectPutIdempotent (bucket object : Str) (bytes : Bytes) (idempotencyKey : Str)
  | objectPutApplied (bucket object idempotencyKey : Str)
  | objectDeleteIfSequence (bucket object : Str) (expectedSequence : Nat) (expectedNuid : Str)
  | objectDeleteIfSequenceApplied (bucket object : Str) (expectedSequence : Nat)
      (expectedNuid : Str)
  | listKvBuckets
  | ensureKvBucket (bucket : Str)
  | listKvPrefix (bucket pre : Str)
  | kvGet (bucket key : Str)
  | kvPut (bucket key : Str) (bytes : Bytes)
  | kvDelete (bucket key : Str)
  | kvHistory (bucket key : Str)
  | listKvHistoryPrefix (bucket pre : Str)
  | kvRevision (bucket key : Str) (revision : Nat)
  | listStreams
  | ensureStream (stream : Str)
  | listStreamMessages (stream : Str)
  | listStreamSubjects (stream : Str)
  | listAgentNames
  | streamMessage (stream : Str) (sequence : Nat)
  | listObjectBuckets
  | ensureObjectBucket (bucket : Str)
  | listObjectPrefix (bucket pre : Str)
  | objectGet (bucket object : Str)
  | objectMetadata (bucket object : Str)
  | objectPut (bucket object : Str) (bytes : Bytes)
  | objectDelete (bucket object : Str)
  | watchEvents
deriving DecidableEq, Repr

abbrev StorageCall.Value : StorageCall → Type
  | .kvPutIdempotent .. => Nat
  | .kvPutApplied .. => Bool
  | .kvDeleteIfRevision .. => Unit
  | .kvDeleteIfRevisionApplied .. => Bool
  | .publishJsonLines .. => List Nat
  | .publishJsonLinesApplied .. => Bool
  | .publishJsonLinesAppliedPrefix .. => Nat
  | .objectPutIdempotent .. => Unit
  | .objectPutApplied .. => Bool
  | .objectDeleteIfSequence .. => Unit
  | .objectDeleteIfSequenceApplied .. => Bool
  | .listKvBuckets => List Str
  | .ensureKvBucket _ => Unit
  | .listKvPrefix .. => List DirectoryEntry
  | .kvGet .. => Option KeyRevision
  | .kvPut .. => Nat
  | .kvDelete .. => Unit
  | .kvHistory .. => List KeyRevision
  | .listKvHistoryPrefix .. => List DirectoryEntry
  | .kvRevision .. => Option KeyRevision
  | .listStreams => List Str
  | .ensureStream _ => Unit
  | .listStreamMessages _ => List DirectoryEntry
  | .listStreamSubjects _ => List DirectoryEntry
  | .listAgentNames => List Str
  | .streamMessage .. => StreamMessageView
  | .listObjectBuckets => List Str
  | .ensureObjectBucket _ => Unit
  | .listObjectPrefix .. => List DirectoryEntry
  | .objectGet .. => Option ObjectVersion
  | .objectMetadata .. => Option ObjectMetadata
  | .objectPut .. => Unit
  | .objectDelete .. => Unit
  | .watchEvents => List WatchEvent

/-- The calls that only look. -/
def StorageCall.reads : StorageCall → Bool
  | .kvPutApplied .. | .kvDeleteIfRevisionApplied .. | .publishJsonLinesApplied ..
  | .publishJsonLinesAppliedPrefix .. | .objectPutApplied .. | .objectDeleteIfSequenceApplied ..
  | .listKvBuckets | .listKvPrefix .. | .kvGet .. | .kvHistory .. | .listKvHistoryPrefix ..
  | .kvRevision .. | .listStreams | .listStreamMessages _ | .listStreamSubjects _
  | .listAgentNames | .streamMessage .. | .listObjectBuckets | .listObjectPrefix ..
  | .objectGet .. | .objectMetadata .. | .watchEvents => true
  | _ => false

/-- The storage as an interface of its own. -/
def storage : Interface where
  Call := StorageCall
  Reply c := TransportResult c.Value

end EventFs.Transport
