import EventFs.Library.LatestChange
import EventFs.Transport.ReplayOnce
import EventFs.Transport.Overlay
import EventFs.Protocol.PathFacts

/-!
# Values behind a pending queue

A queued put or rename is a change of the map from facts to values. Executing the queue
applies the changes in order, so each fact ends with what its latest change left there.
-/

namespace EventFs.Transport

open Library Protocol

namespace MemoryStorage

/-- The value stored for a fact. -/
def value (state : MemoryStorage) : StorageFact → Option Bytes
  | .kv bucket key => state.kv[(bucket, key)]?.map (·.bytes)
  | .object bucket name => state.objects[(bucket, name)]?.map (·.bytes)
  | .streamSubject _ _ => none

end MemoryStorage

namespace QueueEntry

/-- The change a queued put or rename makes. -/
def change (entry : QueueEntry) : Option (Change StorageFact Bytes) :=
  match entry.operation with
  | .kvPut bucket key bytes | .materializedPut bucket key bytes =>
      some ⟨.kv bucket key, bytes, none⟩
  | .kvRenameComplete fromBucket fromKey _ toBucket toKey bytes =>
      some ⟨.kv toBucket toKey, bytes, some (.kv fromBucket fromKey)⟩
  | .objectPut bucket object bytes => some ⟨.object bucket object, bytes, none⟩
  | .objectRenameComplete fromBucket fromObject _ _ toBucket toObject bytes =>
      some ⟨.object toBucket toObject, bytes, some (.object fromBucket fromObject)⟩
  | .publishJsonLines .. => none

/-- A rename has different ends, and the generation it was taken from is still the one
stored. -/
def SourceCurrent (entry : QueueEntry) (state : MemoryStorage) : Prop :=
  match entry.operation with
  | .kvRenameComplete fromBucket fromKey expectedFromRevision toBucket toKey _ =>
      (fromBucket, fromKey) ≠ (toBucket, toKey) ∧
        ∀ stored, state.kv[(fromBucket, fromKey)]? = some stored →
          stored.revision = expectedFromRevision
  | .objectRenameComplete fromBucket fromObject expectedFromSequence expectedFromNuid toBucket
      toObject _ =>
      (fromBucket, fromObject) ≠ (toBucket, toObject) ∧
        ∀ stored, state.objects[(fromBucket, fromObject)]? = some stored →
          stored.sequence = expectedFromSequence ∧ stored.nuid = expectedFromNuid
  | _ => True

end QueueEntry

variable [Serde]

/-- Every rename of the queue finds the generation it was taken from when its turn comes. -/
def SourcesCurrent : List QueueEntry → MemoryStorage → Prop
  | [], _ => True
  | entry :: rest, state => entry.SourceCurrent state ∧ SourcesCurrent rest (entry.apply state)

def changes (queue : List QueueEntry) : List (Change StorageFact Bytes) :=
  queue.filterMap (·.change)

/-! ## One entry -/

section Entry

variable {entry : QueueEntry} {change : Change StorageFact Bytes}

omit [Serde] in
theorem value_putKvRecorded (state : MemoryStorage) (bucket key : Str) (bytes : Bytes)
    (idempotencyKey : Str) (fact : StorageFact) :
    (state.putKvRecorded bucket key bytes idempotencyKey).value fact =
      if StorageFact.kv bucket key = fact then some bytes else state.value fact := by
  cases fact with
  | kv bucket' key' =>
      simp only [MemoryStorage.putKvRecorded, MemoryStorage.putKv, MemoryStorage.value,
        Std.ExtTreeMap.getElem?_insert, StorageFact.kv.injEq]
      by_cases h : bucket = bucket' ∧ key = key'
      · obtain ⟨rfl, rfl⟩ := h
        simp
      · rw [if_neg h]
        have hCmp : compare (bucket, key) (bucket', key') ≠ .eq := by
          rw [ne_eq, Std.compare_eq_iff_eq, Prod.mk.injEq]
          exact h
        simp [hCmp]
  | object | streamSubject => rfl

omit [Serde] in
theorem value_putObjectRecorded (state : MemoryStorage) (bucket name : Str) (bytes : Bytes)
    (idempotencyKey : Str) (fact : StorageFact) :
    (state.putObjectRecorded bucket name bytes idempotencyKey).value fact =
      if StorageFact.object bucket name = fact then some bytes else state.value fact := by
  cases fact with
  | object bucket' name' =>
      simp only [MemoryStorage.putObjectRecorded, MemoryStorage.putObject, MemoryStorage.value,
        Std.ExtTreeMap.getElem?_insert, StorageFact.object.injEq]
      by_cases h : bucket = bucket' ∧ name = name'
      · obtain ⟨rfl, rfl⟩ := h
        simp
      · rw [if_neg h]
        have hCmp : compare (bucket, name) (bucket', name') ≠ .eq := by
          rw [ne_eq, Std.compare_eq_iff_eq, Prod.mk.injEq]
          exact h
        simp [hCmp]
  | kv | streamSubject => rfl

theorem value_put (hChange : entry.change = some change) (state : MemoryStorage)
    (fact : StorageFact) :
    (entry.put state).value fact =
      if change.target = fact then some change.value else state.value fact := by
  obtain ⟨key, operation, attempts, done⟩ := entry
  cases operation with
  | kvPut | materializedPut | kvRenameComplete =>
      cases hChange
      exact value_putKvRecorded _ _ _ _ _ fact
  | objectPut | objectRenameComplete =>
      cases hChange
      exact value_putObjectRecorded _ _ _ _ _ fact
  | publishJsonLines => cases hChange

omit [Serde] in
theorem value_kvDeleteIfRevision {state : MemoryStorage} {bucket key : Str} {expected : Nat}
    (hCurrent : ∀ stored, state.kv[(bucket, key)]? = some stored → stored.revision = expected)
    (fact : StorageFact) :
    (state.kvDeleteIfRevision bucket key expected).2.value fact =
      if StorageFact.kv bucket key = fact then none else state.value fact := by
  simp only [MemoryStorage.kvDeleteIfRevision]
  cases hStored : state.kv[(bucket, key)]? with
  | none =>
      by_cases h : StorageFact.kv bucket key = fact
      · subst h
        simp [MemoryStorage.value, hStored]
      · rw [if_neg h]
  | some stored =>
      simp only [hCurrent stored hStored, ne_eq, not_true_eq_false, if_false]
      cases fact with
      | kv bucket' key' =>
          simp only [MemoryStorage.value, Std.ExtTreeMap.getElem?_erase, StorageFact.kv.injEq]
          by_cases h : bucket = bucket' ∧ key = key'
          · obtain ⟨rfl, rfl⟩ := h
            simp
          · rw [if_neg h]
            have hCmp : compare (bucket, key) (bucket', key') ≠ .eq := by
              rw [ne_eq, Std.compare_eq_iff_eq, Prod.mk.injEq]
              exact h
            simp [hCmp]
      | object | streamSubject => rfl

omit [Serde] in
theorem value_objectDeleteIfSequence {state : MemoryStorage} {bucket name : Str} {expected : Nat}
    {nuid : Str}
    (hCurrent : ∀ stored, state.objects[(bucket, name)]? = some stored →
      stored.sequence = expected ∧ stored.nuid = nuid)
    (fact : StorageFact) :
    (state.objectDeleteIfSequence bucket name expected nuid).2.value fact =
      if StorageFact.object bucket name = fact then none else state.value fact := by
  simp only [MemoryStorage.objectDeleteIfSequence]
  cases hStored : state.objects[(bucket, name)]? with
  | none =>
      by_cases h : StorageFact.object bucket name = fact
      · subst h
        simp [MemoryStorage.value, hStored]
      · rw [if_neg h]
  | some stored =>
      obtain ⟨hSequence, hNuid⟩ := hCurrent stored hStored
      have hSame : MemoryStorage.objectSuperseded stored expected nuid = false := by
        simp [MemoryStorage.objectSuperseded, hSequence, hNuid]
      simp only [hSame, Bool.false_eq_true, if_false]
      cases fact with
      | object bucket' name' =>
          simp only [MemoryStorage.value, Std.ExtTreeMap.getElem?_erase, StorageFact.object.injEq]
          by_cases h : bucket = bucket' ∧ name = name'
          · obtain ⟨rfl, rfl⟩ := h
            simp
          · rw [if_neg h]
            have hCmp : compare (bucket, name) (bucket', name') ≠ .eq := by
              rw [ne_eq, Std.compare_eq_iff_eq, Prod.mk.injEq]
              exact h
            simp [hCmp]
      | kv | streamSubject => rfl

/-- The put of a rename leaves its source alone, so the delete finds what it expects. -/
theorem value_apply (hChange : entry.change = some change) {state : MemoryStorage}
    (hCurrent : entry.SourceCurrent state) :
    (entry.apply state).value = change.apply state.value := by
  have hPut := value_put hChange state
  have hOn : ∀ fact, change.apply state.value fact =
      if change.source = some fact then none else (entry.put state).value fact := by
    intro fact
    rw [Change.apply, Change.on, hPut]
    split_ifs <;> rfl
  funext fact
  rw [hOn]
  obtain ⟨key, operation, attempts, done⟩ := entry
  cases operation with
  | kvPut | materializedPut | objectPut =>
      cases hChange
      rfl
  | kvRenameComplete fromBucket fromKey expected toBucket toKey bytes =>
      cases hChange
      obtain ⟨hEnds, hStored⟩ := hCurrent
      have hCmp : compare (toBucket, toKey) (fromBucket, fromKey) ≠ .eq := by
        rw [ne_eq, Std.compare_eq_iff_eq]
        exact Ne.symm hEnds
      refine (value_kvDeleteIfRevision ?_ fact).trans ?_
      · intro stored h
        apply hStored stored
        simpa [QueueEntry.put, MemoryStorage.putKvRecorded, MemoryStorage.putKv,
          Std.ExtTreeMap.getElem?_insert, hCmp] using h
      · simp only [Option.some.injEq]
  | objectRenameComplete fromBucket fromObject expected nuid toBucket toObject bytes =>
      cases hChange
      obtain ⟨hEnds, hStored⟩ := hCurrent
      have hCmp : compare (toBucket, toObject) (fromBucket, fromObject) ≠ .eq := by
        rw [ne_eq, Std.compare_eq_iff_eq]
        exact Ne.symm hEnds
      refine (value_objectDeleteIfSequence ?_ fact).trans ?_
      · intro stored h
        apply hStored stored
        simpa [QueueEntry.put, MemoryStorage.putObjectRecorded, MemoryStorage.putObject,
          Std.ExtTreeMap.getElem?_insert, hCmp] using h
      · simp only [Option.some.injEq]
  | publishJsonLines => cases hChange

end Entry

/-! ## The whole queue -/

/-- Executing the queue applies its changes in order. -/
theorem value_applyAll {queue : List QueueEntry} (hWhole : ∀ entry ∈ queue, entry.change ≠ none) :
    ∀ state, SourcesCurrent queue state →
      (applyAll queue state).value = Change.applyAll (changes queue) state.value := by
  induction queue with
  | nil =>
      intro state _
      rfl
  | cons entry rest ih =>
      rintro state ⟨hHead, hRest⟩
      obtain ⟨change, hChange⟩ := Option.ne_none_iff_exists'.mp (hWhole entry List.mem_cons_self)
      have hTail := ih (fun e hMem => hWhole e (List.mem_cons_of_mem entry hMem)) _ hRest
      rw [value_apply hChange hHead] at hTail
      rw [changes, List.filterMap_cons_some hChange]
      exact hTail

/-- A fact that no change touches has its value at every stage of the first entry. -/
theorem value_of_stage {state store : MemoryStorage} {queue : List QueueEntry}
    (hWhole : ∀ entry ∈ queue, entry.change ≠ none) (hCurrent : SourcesCurrent queue state)
    (hStage : Stage state queue store) {fact : StorageFact}
    (hNone : Change.latest (changes queue) fact = none) :
    store.value fact = state.value fact := by
  cases queue with
  | nil => rw [show store = state from hStage]
  | cons entry rest =>
      obtain ⟨change, hChange⟩ := Option.ne_none_iff_exists'.mp (hWhole entry List.mem_cons_self)
      have hMem : change ∈ changes (entry :: rest) := by
        rw [changes, List.filterMap_cons_some hChange]
        exact List.mem_cons_self
      have hOn : change.on fact = none := Change.latest_eq_none.mp hNone change hMem
      have hTarget : change.target ≠ fact := by
        intro h
        simp only [Change.on, h] at hOn
        split at hOn <;> cases hOn
      rcases hStage with rfl | rfl | rfl
      · rfl
      · rw [value_put hChange, if_neg hTarget]
      · rw [value_apply hChange hCurrent.1, Change.apply, hOn]
        rfl

end EventFs.Transport
