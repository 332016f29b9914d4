import EventFs.Transport.Storage
import EventFs.Protocol.Json

/-!
# The in-memory storage

`MemoryStorage` with one function per trait method, over ordered maps as in the
source. `MemoryStorage.handle` answers every call of the storage interface.
-/

namespace EventFs.Transport

open Library Protocol

instance : Ord (Str × Str) := lexOrd

instance : Ord (Str × Str × Str) := lexOrd

instance : Std.TransCmp (compare (α := Str × Str)) := inferInstance

instance : Std.TransCmp (compare (α := Str × Str × Str)) := inferInstance

/-- The largest `u64`; revisions and sequences saturate there. -/
def u64Max : Nat := 2 ^ 64 - 1

def saturatingSucc (n : Nat) : Nat := min (n + 1) u64Max

structure MemoryStorage where
  kvBuckets : Std.ExtTreeSet Str
  kv : Std.ExtTreeMap (Str × Str) KeyRevision
  kvHistory : Std.ExtTreeMap (Str × Str) (List KeyRevision)
  kvApplied : Std.ExtTreeMap (Str × Str × Str) Nat
  streams : Std.ExtTreeMap Str (List StreamMessageView)
  streamApplied : Std.ExtTreeMap (Str × Str × Str) (List Nat)
  objectBuckets : Std.ExtTreeSet Str
  objects : Std.ExtTreeMap (Str × Str) ObjectVersion
  objectGenerations : Std.ExtTreeMap (Str × Str) Nat
  objectApplied : Std.ExtTreeSet (Str × Str × Str)

/-! ## Directory projection -/

def mergeChildEntry (entries : List DirectoryEntry) (name : Str) (kind : EntryKind) :
    List DirectoryEntry :=
  if entries.any fun entry => entry.name == name then
    changeNamed name (fun existing =>
      if existing.kind = .directory ∧ kind = .file then { existing with kind := .file }
      else existing) entries
  else entries ++ [⟨name, kind⟩]

/-- The child of the directory `normalizedPrefix` that a key contributes. -/
def immediateChild (normalizedPrefix key : Str) : Option DirectoryEntry :=
  let remainder :=
    if normalizedPrefix.isEmpty then some key
    else Text.stripPrefix (normalizedPrefix ++ ['/']) key
  match remainder with
  | none => none
  | some remainder =>
      if remainder.isEmpty then none
      else
        match Text.splitOnce '/' remainder with
        | some (name, _) => some ⟨name, .directory⟩
        | none => some ⟨remainder, .file⟩

def immediateChildren (keys : List Str) (pre : Str) : List DirectoryEntry :=
  sortByName <|
    (keys.filterMap (immediateChild (Text.trimMatches '/' pre))).foldl
      (fun entries child => mergeChildEntry entries child.name child.kind) []

def immediateHistoryChildren (keys : List Str) (pre : Str) : List DirectoryEntry :=
  (immediateChildren keys pre).map fun entry => { entry with kind := .directory }

namespace MemoryStorage

def new : MemoryStorage := ⟨∅, ∅, ∅, ∅, ∅, ∅, ∅, ∅, ∅, ∅⟩

/-! ## Puts -/

def putKv (state : MemoryStorage) (bucket key : Str) (bytes : Bytes) : Nat × MemoryStorage :=
  let history := state.kvHistory.getD (bucket, key) []
  let revision :=
    match history.getLast? with
    | some entry => saturatingSucc entry.revision
    | none => 1
  let entry : KeyRevision := ⟨revision, bytes⟩
  (revision,
    { state with
      kvBuckets := state.kvBuckets.insert bucket
      kv := state.kv.insert (bucket, key) entry
      kvHistory := state.kvHistory.insert (bucket, key) (history ++ [entry]) })

def memoryNuid (sequence : Nat) : Str := "memory-object-".toList ++ Text.decimal sequence

def putObject (state : MemoryStorage) (bucket object : Str) (bytes : Bytes) :
    Nat × MemoryStorage :=
  let sequence := saturatingSucc (state.objectGenerations.getD (bucket, object) 0)
  (sequence,
    { state with
      objectBuckets := state.objectBuckets.insert bucket
      objectGenerations := state.objectGenerations.insert (bucket, object) sequence
      objects := state.objects.insert (bucket, object) ⟨sequence, memoryNuid sequence, bytes⟩ })

/-! ## `ReplayStorage` -/

def kvPutIdempotent (state : MemoryStorage) (bucket key : Str) (bytes : Bytes)
    (idempotencyKey : Str) : TransportResult Nat × MemoryStorage :=
  match state.kvApplied[(bucket, key, idempotencyKey)]? with
  | some revision => (.ok revision, state)
  | none =>
      let (revision, state) := state.putKv bucket key bytes
      (.ok revision,
        { state with
          kvApplied := state.kvApplied.insert (bucket, key, idempotencyKey) revision })

def kvPutApplied (state : MemoryStorage) (bucket key idempotencyKey : Str) :
    TransportResult Bool :=
  .ok (state.kvApplied.contains (bucket, key, idempotencyKey))

def kvDeleteIfRevision (state : MemoryStorage) (bucket key : Str) (expectedRevision : Nat) :
    TransportResult Unit × MemoryStorage :=
  match state.kv[(bucket, key)]? with
  | none => (.ok (), state)
  | some entry =>
      if entry.revision ≠ expectedRevision then (.ok (), state)
      else (.ok (), { state with kv := state.kv.erase (bucket, key) })

def kvGet (state : MemoryStorage) (bucket key : Str) : TransportResult (Option KeyRevision) :=
  .ok state.kv[(bucket, key)]?

def kvDeleteIfRevisionApplied (state : MemoryStorage) (bucket key : Str)
    (expectedRevision : Nat) : TransportResult Bool := do
  match ← state.kvGet bucket key with
  | none => return true
  | some entry => return entry.revision != expectedRevision

def appendLine (stream subject : Str) (messages : List StreamMessageView) (line : Str) :
    List StreamMessageView :=
  let sequence :=
    match messages.getLast? with
    | some message => saturatingSucc message.sequence
    | none => 1
  messages ++ [⟨stream, sequence, subject, Text.asBytes line⟩]

/-- Append every line and collect the sequences it got. -/
def appendLines (stream subject : Str) (messages : List StreamMessageView) (lines : List Str) :
    List StreamMessageView × List Nat :=
  let appended := lines.foldl (appendLine stream subject) messages
  (appended, (appended.drop messages.length).map (·.sequence))

section Json

variable [Serde]

def publishJsonLines (state : MemoryStorage) (stream subject : Str) (bytes : Bytes)
    (idempotencySeed : Str) : TransportResult (List Nat) × MemoryStorage :=
  match validateJsonLines subject bytes, jsonLines subject bytes with
  | .error err, _ => (.error (.protocol err), state)
  | .ok _, .error err => (.error (.protocol err), state)
  | .ok _, .ok lines =>
      match state.streamApplied[(stream, subject, idempotencySeed)]? with
      | some sequences => (.ok sequences, state)
      | none =>
          let (messages, sequences) :=
            appendLines stream subject (state.streams.getD stream []) lines
          (.ok sequences,
            { state with
              streams := state.streams.insert stream messages
              streamApplied :=
                state.streamApplied.insert (stream, subject, idempotencySeed) sequences })

def publishJsonLinesApplied (state : MemoryStorage) (stream subject : Str) (bytes : Bytes)
    (idempotencySeed : Str) : TransportResult Bool :=
  match validateJsonLines subject bytes with
  | .error err => .error (.protocol err)
  | .ok _ => .ok (state.streamApplied.contains (stream, subject, idempotencySeed))

def publishJsonLinesAppliedPrefix (state : MemoryStorage) (stream subject : Str) (bytes : Bytes)
    (idempotencySeed : Str) : TransportResult Nat :=
  match validateJsonLines subject bytes with
  | .error err => .error (.protocol err)
  | .ok _ =>
      .ok (match state.streamApplied[(stream, subject, idempotencySeed)]? with
        | some sequences => sequences.length
        | none => 0)

end Json

def objectPutIdempotent (state : MemoryStorage) (bucket object : Str) (bytes : Bytes)
    (idempotencyKey : Str) : TransportResult Unit × MemoryStorage :=
  if state.objectApplied.contains (bucket, object, idempotencyKey) then (.ok (), state)
  else
    let state := (state.putObject bucket object bytes).2
    (.ok (),
      { state with
        objectApplied := state.objectApplied.insert (bucket, object, idempotencyKey) })

def objectPutApplied (state : MemoryStorage) (bucket object idempotencyKey : Str) :
    TransportResult Bool :=
  .ok (state.objectApplied.contains (bucket, object, idempotencyKey))

/-- The generation a conditional delete expects is not the stored one. -/
def objectSuperseded (entry : ObjectVersion) (expectedSequence : Nat) (expectedNuid : Str) :
    Bool :=
  entry.sequence != expectedSequence || (!expectedNuid.isEmpty && entry.nuid != expectedNuid)

def objectDeleteIfSequence (state : MemoryStorage) (bucket object : Str) (expectedSequence : Nat)
    (expectedNuid : Str) : TransportResult Unit × MemoryStorage :=
  match state.objects[(bucket, object)]? with
  | none => (.ok (), state)
  | some entry =>
      if objectSuperseded entry expectedSequence expectedNuid then (.ok (), state)
      else (.ok (), { state with objects := state.objects.erase (bucket, object) })

def objectDeleteIfSequenceApplied (state : MemoryStorage) (bucket object : Str)
    (expectedSequence : Nat) (expectedNuid : Str) : TransportResult Bool :=
  .ok (match state.objects[(bucket, object)]? with
    | none => true
    | some entry => objectSuperseded entry expectedSequence expectedNuid)

/-! ## `MountStorage` -/

def listKvBuckets (state : MemoryStorage) : TransportResult (List Str) :=
  .ok state.kvBuckets.toList

def ensureKvBucket (state : MemoryStorage) (bucket : Str) : TransportResult Unit × MemoryStorage :=
  (.ok (), { state with kvBuckets := state.kvBuckets.insert bucket })

/-- The names stored under one bucket, in order. -/
def namesIn (names : List (Str × Str)) (bucket : Str) : List Str :=
  names.filterMap fun (entryBucket, name) => if entryBucket = bucket then some name else none

def listKvPrefix (state : MemoryStorage) (bucket pre : Str) :
    TransportResult (List DirectoryEntry) :=
  if state.kvBuckets.contains bucket then
    .ok (immediateChildren (namesIn state.kv.keys bucket) pre)
  else .error .notFound

def kvPut (state : MemoryStorage) (bucket key : Str) (bytes : Bytes) :
    TransportResult Nat × MemoryStorage :=
  let (revision, state) := state.putKv bucket key bytes
  (.ok revision, state)

def kvDelete (state : MemoryStorage) (bucket key : Str) : TransportResult Unit × MemoryStorage :=
  if state.kv.contains (bucket, key) then
    (.ok (), { state with kv := state.kv.erase (bucket, key) })
  else (.error .notFound, state)

def kvHistoryOf (state : MemoryStorage) (bucket key : Str) : TransportResult (List KeyRevision) :=
  .ok (state.kvHistory.getD (bucket, key) [])

def listKvHistoryPrefix (state : MemoryStorage) (bucket pre : Str) :
    TransportResult (List DirectoryEntry) :=
  if state.kvBuckets.contains bucket then
    .ok (immediateHistoryChildren (namesIn state.kvHistory.keys bucket) pre)
  else .error .notFound

def kvRevision (state : MemoryStorage) (bucket key : Str) (revision : Nat) :
    TransportResult (Option KeyRevision) :=
  .ok ((state.kvHistory.getD (bucket, key) []).find? fun entry => entry.revision == revision)

def listStreams (state : MemoryStorage) : TransportResult (List Str) := .ok state.streams.keys

def ensureStream (state : MemoryStorage) (stream : Str) : TransportResult Unit × MemoryStorage :=
  (.ok (), { state with streams := state.streams.insertIfNew stream [] })

def listStreamMessages (state : MemoryStorage) (stream : Str) :
    TransportResult (List DirectoryEntry) :=
  match state.streams[stream]? with
  | none => .error .notFound
  | some messages =>
      .ok (messages.map fun message => ⟨Text.decimal message.sequence ++ ".json".toList, .file⟩)

def listStreamSubjects (state : MemoryStorage) (stream : Str) :
    TransportResult (List DirectoryEntry) :=
  match state.streams[stream]? with
  | none => .error .notFound
  | some messages =>
      .ok ((Std.ExtTreeSet.ofList (messages.map (·.subject))).toList.map fun subject =>
        ⟨streamSubjectFileNameFromStr subject, .file⟩)

def mailboxAgent (subject : Str) : Option Str :=
  match subject.splitOn '.' with
  | [first, agent, area] =>
      if first = "agents".toList ∧ (area = "inbox".toList ∨ area = "outbox".toList) ∧
          !isReservedKvKey agent then
        some agent
      else none
  | _ => none

def listAgentNames (state : MemoryStorage) : TransportResult (List Str) :=
  .ok (Std.ExtTreeSet.ofList
    ((state.streams.getD agentsStream []).filterMap fun message =>
      mailboxAgent message.subject)).toList

def streamMessage (state : MemoryStorage) (stream : Str) (sequence : Nat) :
    TransportResult StreamMessageView :=
  match (state.streams.getD stream []).find? fun message => message.sequence == sequence with
  | some message => .ok message
  | none => .error .notFound

def listObjectBuckets (state : MemoryStorage) : TransportResult (List Str) :=
  .ok state.objectBuckets.toList

def ensureObjectBucket (state : MemoryStorage) (bucket : Str) :
    TransportResult Unit × MemoryStorage :=
  (.ok (), { state with objectBuckets := state.objectBuckets.insert bucket })

def listObjectPrefix (state : MemoryStorage) (bucket pre : Str) :
    TransportResult (List DirectoryEntry) :=
  if state.objectBuckets.contains bucket then
    .ok (immediateChildren (namesIn state.objects.keys bucket) pre)
  else .error .notFound

def objectGet (state : MemoryStorage) (bucket object : Str) :
    TransportResult (Option ObjectVersion) :=
  .ok state.objects[(bucket, object)]?

def objectMetadata (state : MemoryStorage) (bucket object : Str) :
    TransportResult (Option ObjectMetadata) := do
  let version ← state.objectGet bucket object
  return version.map fun entry => ⟨entry.bytes.length, entry.sequence⟩

def objectPut (state : MemoryStorage) (bucket object : Str) (bytes : Bytes) :
    TransportResult Unit × MemoryStorage :=
  (.ok (), (state.putObject bucket object bytes).2)

def objectDelete (state : MemoryStorage) (bucket object : Str) :
    TransportResult Unit × MemoryStorage :=
  if state.objects.contains (bucket, object) then
    (.ok (), { state with objects := state.objects.erase (bucket, object) })
  else (.error .notFound, state)

/-! ## All calls -/

variable [Serde]

def handle : Program.Handler storage MemoryStorage
  | state, .kvPutIdempotent bucket key bytes idempotencyKey =>
      state.kvPutIdempotent bucket key bytes idempotencyKey
  | state, .kvPutApplied bucket key idempotencyKey =>
      (state.kvPutApplied bucket key idempotencyKey, state)
  | state, .kvDeleteIfRevision bucket key expectedRevision =>
      state.kvDeleteIfRevision bucket key expectedRevision
  | state, .kvDeleteIfRevisionApplied bucket key expectedRevision =>
      (state.kvDeleteIfRevisionApplied bucket key expectedRevision, state)
  | state, .publishJsonLines stream subject bytes seed =>
      state.publishJsonLines stream subject bytes seed
  | state, .publishJsonLinesApplied stream subject bytes seed =>
      (state.publishJsonLinesApplied stream subject bytes seed, state)
  | state, .publishJsonLinesAppliedPrefix stream subject bytes seed =>
      (state.publishJsonLinesAppliedPrefix stream subject bytes seed, state)
  | state, .objectPutIdempotent bucket object bytes idempotencyKey =>
      state.objectPutIdempotent bucket object bytes idempotencyKey
  | state, .objectPutApplied bucket object idempotencyKey =>
      (state.objectPutApplied bucket object idempotencyKey, state)
  | state, .objectDeleteIfSequence bucket object sequence nuid =>
      state.objectDeleteIfSequence bucket object sequence nuid
  | state, .objectDeleteIfSequenceApplied bucket object sequence nuid =>
      (state.objectDeleteIfSequenceApplied bucket object sequence nuid, state)
  | state, .listKvBuckets => (state.listKvBuckets, state)
  | state, .ensureKvBucket bucket => state.ensureKvBucket bucket
  | state, .listKvPrefix bucket pre => (state.listKvPrefix bucket pre, state)
  | state, .kvGet bucket key => (state.kvGet bucket key, state)
  | state, .kvPut bucket key bytes => state.kvPut bucket key bytes
  | state, .kvDelete bucket key => state.kvDelete bucket key
  | state, .kvHistory bucket key => (state.kvHistoryOf bucket key, state)
  | state, .listKvHistoryPrefix bucket pre => (state.listKvHistoryPrefix bucket pre, state)
  | state, .kvRevision bucket key revision => (state.kvRevision bucket key revision, state)
  | state, .listStreams => (state.listStreams, state)
  | state, .ensureStream stream => state.ensureStream stream
  | state, .listStreamMessages stream => (state.listStreamMessages stream, state)
  | state, .listStreamSubjects stream => (state.listStreamSubjects stream, state)
  | state, .listAgentNames => (state.listAgentNames, state)
  | state, .streamMessage stream sequence => (state.streamMessage stream sequence, state)
  | state, .listObjectBuckets => (state.listObjectBuckets, state)
  | state, .ensureObjectBucket bucket => state.ensureObjectBucket bucket
  | state, .listObjectPrefix bucket pre => (state.listObjectPrefix bucket pre, state)
  | state, .objectGet bucket object => (state.objectGet bucket object, state)
  | state, .objectMetadata bucket object => (state.objectMetadata bucket object, state)
  | state, .objectPut bucket object bytes => state.objectPut bucket object bytes
  | state, .objectDelete bucket object => state.objectDelete bucket object
  | state, .watchEvents => (.ok [], state)

theorem handle_reads {call : StorageCall} (h : call.reads = true) (state : MemoryStorage) :
    (handle state call).2 = state := by
  cases call <;> first | rfl | cases h

end MemoryStorage

end EventFs.Transport
