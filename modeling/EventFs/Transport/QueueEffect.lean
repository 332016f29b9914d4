import EventFs.Transport.MemoryStorage
import EventFs.Transport.Writeback

/-!
# What a queued entry does to the in-memory storage

`QueueEntry.put` is the put of an entry without its idempotency check, together with
the record that the put happened; `QueueEntry.finish` is the conditional delete that
completes a rename; `QueueEntry.apply` is both. `QueueEntry.recorded` is the record.
The lemmas say how the idempotent calls of the storage relate to these.
-/

namespace EventFs.Transport

open Library Protocol

namespace MemoryStorage

/-- A KV put together with its applied record. -/
def putKvRecorded (state : MemoryStorage) (bucket key : Str) (bytes : Bytes)
    (idempotencyKey : Str) : MemoryStorage :=
  let (revision, state) := state.putKv bucket key bytes
  { state with kvApplied := state.kvApplied.insert (bucket, key, idempotencyKey) revision }

/-- An object put together with its applied record. -/
def putObjectRecorded (state : MemoryStorage) (bucket object : Str) (bytes : Bytes)
    (idempotencyKey : Str) : MemoryStorage :=
  let state := (state.putObject bucket object bytes).2
  { state with objectApplied := state.objectApplied.insert (bucket, object, idempotencyKey) }

/-- The publication of lines together with its applied record. -/
def publishRecorded (state : MemoryStorage) (stream subject : Str) (lines : List Str)
    (idempotencySeed : Str) : MemoryStorage :=
  let (messages, sequences) := appendLines stream subject (state.streams.getD stream []) lines
  { state with
    streams := state.streams.insert stream messages
    streamApplied := state.streamApplied.insert (stream, subject, idempotencySeed) sequences }

end MemoryStorage

namespace QueueEntry

variable [Serde]

/-- A payload to publish consists of JSON lines. -/
def ValidPayload (entry : QueueEntry) : Prop :=
  match entry.operation with
  | .publishJsonLines _ subject bytes _ => validateJsonLines subject bytes = .ok ()
  | _ => True

def put (entry : QueueEntry) (state : MemoryStorage) : MemoryStorage :=
  match entry.operation with
  | .kvPut bucket key bytes | .materializedPut bucket key bytes
  | .kvRenameComplete _ _ _ bucket key bytes =>
      state.putKvRecorded bucket key bytes entry.idempotencyKey
  | .objectPut bucket object bytes | .objectRenameComplete _ _ _ _ bucket object bytes =>
      state.putObjectRecorded bucket object bytes entry.idempotencyKey
  | .publishJsonLines stream subject bytes _ =>
      match jsonLines subject bytes with
      | .ok lines => state.publishRecorded stream subject lines entry.idempotencyKey
      | .error _ => state

omit [Serde] in
def finish (entry : QueueEntry) (state : MemoryStorage) : MemoryStorage :=
  match entry.operation with
  | .kvRenameComplete fromBucket fromKey expectedFromRevision _ _ _ =>
      (state.kvDeleteIfRevision fromBucket fromKey expectedFromRevision).2
  | .objectRenameComplete fromBucket fromObject expectedFromSequence expectedFromNuid _ _ _ =>
      (state.objectDeleteIfSequence fromBucket fromObject expectedFromSequence
        expectedFromNuid).2
  | _ => state

/-- The operation of the entry, executed once. -/
def apply (entry : QueueEntry) (state : MemoryStorage) : MemoryStorage :=
  entry.finish (entry.put state)

def recorded (entry : QueueEntry) (state : MemoryStorage) : Bool :=
  match entry.operation with
  | .kvPut bucket key _ | .materializedPut bucket key _ | .kvRenameComplete _ _ _ bucket key _ =>
      state.kvApplied.contains (bucket, key, entry.idempotencyKey)
  | .objectPut bucket object _ | .objectRenameComplete _ _ _ _ bucket object _ =>
      state.objectApplied.contains (bucket, object, entry.idempotencyKey)
  | .publishJsonLines stream subject _ _ =>
      state.streamApplied.contains (stream, subject, entry.idempotencyKey)

/-- Nothing is left to delete. -/
def finished (entry : QueueEntry) (state : MemoryStorage) : Bool :=
  match entry.operation with
  | .kvRenameComplete fromBucket fromKey expectedFromRevision _ _ _ =>
      match state.kv[(fromBucket, fromKey)]? with
      | none => true
      | some stored => stored.revision != expectedFromRevision
  | .objectRenameComplete fromBucket fromObject expectedFromSequence expectedFromNuid _ _ _ =>
      match state.objects[(fromBucket, fromObject)]? with
      | none => true
      | some stored =>
          MemoryStorage.objectSuperseded stored expectedFromSequence expectedFromNuid
  | _ => true

/-! ## Records -/

theorem recorded_put {entry : QueueEntry} (hValid : entry.ValidPayload) (state : MemoryStorage) :
    entry.recorded (entry.put state) = true := by
  obtain ⟨key, operation, attempts, done⟩ := entry
  cases operation with
  | publishJsonLines stream subject bytes applied =>
      obtain ⟨lines, hLines⟩ := jsonLines_of_validateJsonLines hValid
      simp [recorded, put, hLines, MemoryStorage.publishRecorded]
  | kvPut | materializedPut | kvRenameComplete =>
      simp [recorded, put, MemoryStorage.putKvRecorded]
  | objectPut | objectRenameComplete =>
      simp [recorded, put, MemoryStorage.putObjectRecorded]

omit [Serde] in
theorem recorded_finish (entry other : QueueEntry) (state : MemoryStorage) :
    entry.recorded (other.finish state) = entry.recorded state := by
  obtain ⟨key, operation, attempts, done⟩ := other
  cases operation with
  | kvRenameComplete =>
      simp only [finish, MemoryStorage.kvDeleteIfRevision]
      split
      · rfl
      · split <;> rfl
  | objectRenameComplete =>
      simp only [finish, MemoryStorage.objectDeleteIfSequence]
      split
      · rfl
      · split <;> rfl
  | kvPut | materializedPut | objectPut | publishJsonLines => rfl

theorem recorded_put_other {entry other : QueueEntry}
    (hKey : entry.idempotencyKey ≠ other.idempotencyKey) (state : MemoryStorage) :
    entry.recorded (other.put state) = entry.recorded state := by
  have hTriple : ∀ a b c d : Str,
      (compare (a, b, other.idempotencyKey) (c, d, entry.idempotencyKey) == .eq) = false := by
    intro a b c d
    rw [beq_eq_false_iff_ne, ne_eq, Std.compare_eq_iff_eq]
    intro h
    exact hKey (congrArg (fun t => t.2.2) h).symm
  obtain ⟨key, operation, attempts, done⟩ := other
  cases operation with
  | publishJsonLines stream subject bytes applied =>
      simp only [put]
      split
      · simp only [recorded, MemoryStorage.publishRecorded]
        split <;> simp [Std.ExtTreeMap.contains_insert, hTriple]
      · rfl
  | kvPut | materializedPut | kvRenameComplete =>
      simp only [recorded, put, MemoryStorage.putKvRecorded, MemoryStorage.putKv]
      split <;> simp [Std.ExtTreeMap.contains_insert, hTriple]
  | objectPut | objectRenameComplete =>
      simp only [recorded, put, MemoryStorage.putObjectRecorded, MemoryStorage.putObject]
      split <;> simp [Std.ExtTreeSet.contains_insert, hTriple]

theorem recorded_apply_other {entry other : QueueEntry}
    (hKey : entry.idempotencyKey ≠ other.idempotencyKey) (state : MemoryStorage) :
    entry.recorded (other.apply state) = entry.recorded state := by
  rw [apply, recorded_finish, recorded_put_other hKey]

/-! ## The conditional delete -/

omit [Serde] in
theorem finish_of_finished {entry : QueueEntry} {state : MemoryStorage}
    (h : entry.finished state = true) : entry.finish state = state := by
  obtain ⟨key, operation, attempts, done⟩ := entry
  cases operation with
  | kvRenameComplete =>
      simp only [finished, finish, MemoryStorage.kvDeleteIfRevision] at h ⊢
      split
      · rfl
      · next stored hStored =>
        rw [hStored] at h
        rw [if_pos (bne_iff_ne.mp h)]
  | objectRenameComplete =>
      simp only [finished, finish, MemoryStorage.objectDeleteIfSequence] at h ⊢
      split
      · rfl
      · next stored hStored =>
        rw [hStored] at h
        rw [if_pos h]
  | kvPut | materializedPut | objectPut | publishJsonLines => rfl

omit [Serde] in
theorem finished_finish (entry : QueueEntry) (state : MemoryStorage) :
    entry.finished (entry.finish state) = true := by
  obtain ⟨key, operation, attempts, done⟩ := entry
  cases operation with
  | kvRenameComplete fromBucket fromKey expected =>
      simp only [finished, finish, MemoryStorage.kvDeleteIfRevision]
      cases hStored : state.kv[(fromBucket, fromKey)]? with
      | none => simp [hStored]
      | some stored =>
          by_cases hRevision : stored.revision = expected
          · simp [hRevision]
          · simp [hRevision, hStored]
  | objectRenameComplete fromBucket fromObject expected nuid =>
      simp only [finished, finish, MemoryStorage.objectDeleteIfSequence]
      cases hStored : state.objects[(fromBucket, fromObject)]? with
      | none => simp [hStored]
      | some stored =>
          by_cases hSuperseded : MemoryStorage.objectSuperseded stored expected nuid = true
          · simp [hSuperseded, hStored]
          · simp [hSuperseded]
  | kvPut | materializedPut | objectPut | publishJsonLines => rfl

omit [Serde] in
theorem finish_finish (entry : QueueEntry) (state : MemoryStorage) :
    entry.finish (entry.finish state) = entry.finish state :=
  finish_of_finished (finished_finish entry state)

end QueueEntry

/-! ## The idempotent calls -/

namespace MemoryStorage

theorem kvPutIdempotent_state (state : MemoryStorage) (bucket key : Str) (bytes : Bytes)
    (idempotencyKey : Str) :
    (state.kvPutIdempotent bucket key bytes idempotencyKey).2 =
      if state.kvApplied.contains (bucket, key, idempotencyKey) then state
      else state.putKvRecorded bucket key bytes idempotencyKey := by
  simp only [kvPutIdempotent]
  cases hApplied : state.kvApplied[(bucket, key, idempotencyKey)]? with
  | some revision =>
      have hContains : state.kvApplied.contains (bucket, key, idempotencyKey) = true := by
        rw [Std.ExtTreeMap.contains_eq_isSome_getElem?, hApplied]
        rfl
      rw [if_pos hContains]
  | none =>
      have hContains : ¬ state.kvApplied.contains (bucket, key, idempotencyKey) = true := by
        rw [Std.ExtTreeMap.contains_eq_isSome_getElem?, hApplied]
        simp
      rw [if_neg hContains]
      rfl

theorem kvDeleteIfRevisionApplied_eq (state : MemoryStorage) (bucket key : Str) (expected : Nat) :
    state.kvDeleteIfRevisionApplied bucket key expected =
      .ok (match state.kv[(bucket, key)]? with
        | none => true
        | some stored => stored.revision != expected) := by
  simp only [kvDeleteIfRevisionApplied, kvGet]
  cases hStored : state.kv[(bucket, key)]? <;> rfl

theorem objectPutIdempotent_state (state : MemoryStorage) (bucket object : Str) (bytes : Bytes)
    (idempotencyKey : Str) :
    (state.objectPutIdempotent bucket object bytes idempotencyKey).2 =
      if state.objectApplied.contains (bucket, object, idempotencyKey) then state
      else state.putObjectRecorded bucket object bytes idempotencyKey := by
  simp only [objectPutIdempotent]
  split <;> rfl

theorem publishJsonLines_state [Serde] (state : MemoryStorage) (stream seed : Str)
    {subject : Str} {bytes : Bytes} {lines : List Str}
    (hValid : validateJsonLines subject bytes = .ok ())
    (hLines : jsonLines subject bytes = .ok lines) :
    (state.publishJsonLines stream subject bytes seed).2 =
      if state.streamApplied.contains (stream, subject, seed) then state
      else state.publishRecorded stream subject lines seed := by
  simp only [publishJsonLines, hValid, hLines]
  cases hApplied : state.streamApplied[(stream, subject, seed)]? with
  | some sequences =>
      have hContains : state.streamApplied.contains (stream, subject, seed) = true := by
        rw [Std.ExtTreeMap.contains_eq_isSome_getElem?, hApplied]
        rfl
      rw [if_pos hContains]
  | none =>
      have hContains : ¬ state.streamApplied.contains (stream, subject, seed) = true := by
        rw [Std.ExtTreeMap.contains_eq_isSome_getElem?, hApplied]
        simp
      rw [if_neg hContains]
      rfl

end MemoryStorage

end EventFs.Transport
