import EventFs.Transport.PublishedLines

/-!
# What a change of a fact leaves alone

A put, a delete or a publish changes one fact. Containers, streams and histories only grow,
and no other key or object comes or goes.
-/

namespace EventFs.Transport

open Library Protocol

/-- The fact that a put, a delete or a publish changes. -/
def StorageCall.changedFact : StorageCall → Option StorageFact
  | .kvPut bucket key _ | .kvPutIdempotent bucket key _ _ | .kvDelete bucket key
  | .kvDeleteIfRevision bucket key _ => some (.kv bucket key)
  | .publishJsonLines stream subject _ _ => some (.streamSubject stream subject)
  | .objectPut bucket object _ | .objectPutIdempotent bucket object _ _
  | .objectDelete bucket object | .objectDeleteIfSequence bucket object _ _ =>
      some (.object bucket object)
  | _ => none

/-- Only the fact has changed: containers, streams and histories grow, and no other value comes
or goes. -/
structure ChangesOnly (fact : StorageFact) (before after : MemoryStorage) : Prop where
  kvBuckets : ∀ bucket, bucket ∈ before.kvBuckets → bucket ∈ after.kvBuckets
  objectBuckets : ∀ bucket, bucket ∈ before.objectBuckets → bucket ∈ after.objectBuckets
  streams : ∀ stream, stream ∈ before.streams → stream ∈ after.streams
  messages : ∀ stream, before.messages stream <+: after.messages stream
  history : ∀ bucket key,
    before.kvHistory.getD (bucket, key) [] <+: after.kvHistory.getD (bucket, key) []
  histories : ∀ bucket key, (bucket, key) ∈ before.kvHistory → (bucket, key) ∈ after.kvHistory
  kv : ∀ bucket key, fact ≠ .kv bucket key →
    ((bucket, key) ∈ after.kv ↔ (bucket, key) ∈ before.kv)
  objects : ∀ bucket name, fact ≠ .object bucket name →
    ((bucket, name) ∈ after.objects ↔ (bucket, name) ∈ before.objects)

namespace ChangesOnly

variable {state : MemoryStorage} {fact : StorageFact}

theorem refl (fact : StorageFact) (state : MemoryStorage) : ChangesOnly fact state state where
  kvBuckets _ := id
  objectBuckets _ := id
  streams _ := id
  messages _ := List.prefix_rfl
  history _ _ := List.prefix_rfl
  histories _ _ := id
  kv _ _ _ := Iff.rfl
  objects _ _ _ := Iff.rfl

theorem putKv (state : MemoryStorage) (bucket key : Str) (bytes : Bytes) :
    ChangesOnly (.kv bucket key) state (state.putKv bucket key bytes).2 where
  kvBuckets _ h := Std.ExtTreeSet.mem_insert.mpr (Or.inr h)
  objectBuckets _ := id
  streams _ := id
  messages _ := List.prefix_rfl
  history other name := by
    simp only [MemoryStorage.putKv, Std.ExtTreeMap.getD_insert, Std.compare_eq_iff_eq]
    split_ifs with hSame
    · cases hSame
      exact List.prefix_append _ _
    · exact List.prefix_rfl
  histories _ _ h := Std.ExtTreeMap.mem_insert.mpr (Or.inr h)
  kv other name hOther := by
    simp only [MemoryStorage.putKv, Std.ExtTreeMap.mem_insert, Std.compare_eq_iff_eq]
    refine or_iff_right ?_
    intro hSame
    cases hSame
    exact hOther rfl
  objects _ _ _ := Iff.rfl

theorem eraseKv (state : MemoryStorage) (bucket key : Str) :
    ChangesOnly (.kv bucket key) state { state with kv := state.kv.erase (bucket, key) } where
  kvBuckets _ := id
  objectBuckets _ := id
  streams _ := id
  messages _ := List.prefix_rfl
  history _ _ := List.prefix_rfl
  histories _ _ := id
  kv other name hOther := by
    simp only [Std.ExtTreeMap.mem_erase, ne_eq, Std.compare_eq_iff_eq]
    refine and_iff_right ?_
    intro hSame
    cases hSame
    exact hOther rfl
  objects _ _ _ := Iff.rfl

theorem putObject (state : MemoryStorage) (bucket object : Str) (bytes : Bytes) :
    ChangesOnly (.object bucket object) state (state.putObject bucket object bytes).2 where
  kvBuckets _ := id
  objectBuckets _ h := Std.ExtTreeSet.mem_insert.mpr (Or.inr h)
  streams _ := id
  messages _ := List.prefix_rfl
  history _ _ := List.prefix_rfl
  histories _ _ := id
  kv _ _ _ := Iff.rfl
  objects other name hOther := by
    simp only [MemoryStorage.putObject, Std.ExtTreeMap.mem_insert, Std.compare_eq_iff_eq]
    refine or_iff_right ?_
    intro hSame
    cases hSame
    exact hOther rfl

theorem eraseObject (state : MemoryStorage) (bucket object : Str) :
    ChangesOnly (.object bucket object) state
      { state with objects := state.objects.erase (bucket, object) } where
  kvBuckets _ := id
  objectBuckets _ := id
  streams _ := id
  messages _ := List.prefix_rfl
  history _ _ := List.prefix_rfl
  histories _ _ := id
  kv _ _ _ := Iff.rfl
  objects other name hOther := by
    simp only [Std.ExtTreeMap.mem_erase, ne_eq, Std.compare_eq_iff_eq]
    refine and_iff_right ?_
    intro hSame
    cases hSame
    exact hOther rfl

variable [Serde]

theorem publish (state : MemoryStorage) (stream subject : Str) (bytes : Bytes) (seed : Str) :
    ChangesOnly (.streamSubject stream subject) state
      (MemoryStorage.handle state (.publishJsonLines stream subject bytes seed)).2 := by
  have hMessages :=
    MemoryStorage.messages_prefix state (.publishJsonLines stream subject bytes seed)
  simp only [MemoryStorage.handle, MemoryStorage.publishJsonLines] at hMessages ⊢
  split at hMessages
  · exact refl _ state
  · exact refl _ state
  · split at hMessages
    · exact refl _ state
    · exact {
        kvBuckets := fun _ => id
        objectBuckets := fun _ => id
        streams := fun _ h => Std.ExtTreeMap.mem_insert.mpr (Or.inr h)
        messages := hMessages
        history := fun _ _ => List.prefix_rfl
        histories := fun _ _ => id
        kv := fun _ _ _ => Iff.rfl
        objects := fun _ _ _ => Iff.rfl }

/-- What a call may do. -/
theorem handle {call : StorageCall} (h : call.changedFact = some fact) :
    ChangesOnly fact state (MemoryStorage.handle state call).2 := by
  cases call with
  | kvPut bucket key bytes =>
      cases h
      exact putKv state bucket key bytes
  | kvPutIdempotent bucket key bytes idempotencyKey =>
      cases h
      simp only [MemoryStorage.handle, MemoryStorage.kvPutIdempotent]
      split
      · exact refl _ state
      · obtain ⟨hKvBuckets, hObjectBuckets, hStreams, hMessages, hHistory, hHistories, hKv,
          hObjects⟩ := putKv state bucket key bytes
        exact ⟨hKvBuckets, hObjectBuckets, hStreams, hMessages, hHistory, hHistories, hKv, hObjects⟩
  | kvDelete bucket key =>
      cases h
      simp only [MemoryStorage.handle, MemoryStorage.kvDelete]
      split_ifs
      · exact eraseKv state bucket key
      · exact refl _ state
  | kvDeleteIfRevision bucket key revision =>
      cases h
      simp only [MemoryStorage.handle, MemoryStorage.kvDeleteIfRevision]
      split
      · exact refl _ state
      · split_ifs
        · exact refl _ state
        · exact eraseKv state bucket key
  | objectPut bucket object bytes =>
      cases h
      exact putObject state bucket object bytes
  | objectPutIdempotent bucket object bytes idempotencyKey =>
      cases h
      simp only [MemoryStorage.handle, MemoryStorage.objectPutIdempotent]
      split_ifs
      · exact refl _ state
      · obtain ⟨hKvBuckets, hObjectBuckets, hStreams, hMessages, hHistory, hHistories, hKv,
          hObjects⟩ := putObject state bucket object bytes
        exact ⟨hKvBuckets, hObjectBuckets, hStreams, hMessages, hHistory, hHistories, hKv, hObjects⟩
  | objectDelete bucket object =>
      cases h
      simp only [MemoryStorage.handle, MemoryStorage.objectDelete]
      split_ifs
      · exact eraseObject state bucket object
      · exact refl _ state
  | objectDeleteIfSequence bucket object sequence nuid =>
      cases h
      simp only [MemoryStorage.handle, MemoryStorage.objectDeleteIfSequence]
      split
      · exact refl _ state
      · split_ifs
        · exact refl _ state
        · exact eraseObject state bucket object
  | publishJsonLines stream subject bytes seed =>
      cases h
      exact publish state stream subject bytes seed
  | _ => cases h

end ChangesOnly

end EventFs.Transport
