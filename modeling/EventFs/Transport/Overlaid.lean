import EventFs.Transport.PendingValue
import EventFs.Transport.ReplayOrder
import EventFs.Transport.Settled

/-!
# What the queue shows

A value with changes waiting in the queue is shown as the latest of them leaves it. The
queue shows what it leads to if settling it leaves the same there. A replay takes entries
from the front of the queue, so what it leaves of a queue still shows what that led to.
-/

namespace EventFs.Transport

open Library Protocol Program

/-! ## Changes and works -/

section Works

variable {entry other : QueueEntry} {queue file left : List QueueEntry}

theorem change_work (entry : QueueEntry) : entry.work.change = entry.change := by
  obtain ⟨key, operation, attempts, done⟩ := entry
  cases operation <;> rfl

theorem changes_works (queue : List QueueEntry) : changes (queue.map (·.work)) = changes queue := by
  rw [changes, changes, List.filterMap_map]
  exact List.filterMap_congr fun entry _ => change_work entry

theorem changes_of_works (h : file.map (·.work) = queue.map (·.work)) :
    changes file = changes queue := by
  rw [← changes_works, h, changes_works]

/-- What the queue shows of values can be found in this state. -/
def Overlaid (final : MemoryStorage) (queue : List QueueEntry) : Prop :=
  ∀ fact value, Change.latest (changes queue) fact = some value → final.value fact = value

theorem overlaid_nil (final : MemoryStorage) : Overlaid final [] := by
  intro fact value h
  cases h

theorem latest_append (older newer : List (Change StorageFact Bytes)) (fact : StorageFact) :
    Change.latest (older ++ newer) fact =
      (Change.latest newer fact).or (Change.latest older fact) := by
  induction newer using List.reverseRecOn with
  | nil => simp
  | append_singleton newer change ih =>
      rw [← List.append_assoc, Change.latest_concat, Change.latest_concat, ih, Option.or_assoc]

/-- The end of a queue shows no other values than the queue. -/
theorem Overlaid.suffix {final : MemoryStorage} (h : Overlaid final queue)
    (hSuffix : left.map (·.work) <:+ queue.map (·.work)) : Overlaid final left := by
  obtain ⟨removed, hQueue⟩ := hSuffix
  have hChanges : changes queue = changes removed ++ changes left := by
    rw [← changes_works queue, ← hQueue, changes, List.filterMap_append]
    exact congrArg _ (changes_works left)
  intro fact value hLatest
  refine h fact value ?_
  rw [hChanges, latest_append, hLatest]
  rfl

end Works

/-! ## Settling one entry -/

section Settling

variable [Serde] {entry : QueueEntry} {change : Change StorageFact Bytes} {state : MemoryStorage}
  {fact : StorageFact}

/-- A new entry leaves what it shows. -/
theorem overlaid_settle (hPending : entry.done = false) (hNew : entry.recorded state = false)
    (hCurrent : entry.SourceCurrent state) : Overlaid (entry.settle state) [entry] := by
  intro fact value hLatest
  rw [QueueEntry.settle_of_new hPending hNew]
  cases hChange : entry.change with
  | none => simp [changes, hChange] at hLatest
  | some change =>
      have hOn : change.on fact = some value := by
        simpa [changes, hChange, Change.latest] using hLatest
      rw [value_apply hChange hCurrent, Change.apply, hOn]
      rfl

omit [Serde] in
theorem value_kvDeleteIfRevision_other {bucket key : Str} {expected : Nat}
    (hOther : StorageFact.kv bucket key ≠ fact) :
    (state.kvDeleteIfRevision bucket key expected).2.value fact = state.value fact := by
  cases hStored : state.kv[(bucket, key)]? with
  | none => simp only [MemoryStorage.kvDeleteIfRevision, hStored]
  | some stored =>
      by_cases hRevision : stored.revision = expected
      · have hCurrent (found : KeyRevision) (hFound : state.kv[(bucket, key)]? = some found) :
            found.revision = expected := by
          rw [hStored] at hFound
          rw [← Option.some.inj hFound, hRevision]
        rw [value_kvDeleteIfRevision hCurrent, if_neg hOther]
      · simp only [MemoryStorage.kvDeleteIfRevision, hStored, ne_eq, hRevision, not_false_eq_true,
          if_true]

omit [Serde] in
theorem value_objectDeleteIfSequence_other {bucket name nuid : Str} {expected : Nat}
    (hOther : StorageFact.object bucket name ≠ fact) :
    (state.objectDeleteIfSequence bucket name expected nuid).2.value fact = state.value fact := by
  cases hStored : state.objects[(bucket, name)]? with
  | none => simp only [MemoryStorage.objectDeleteIfSequence, hStored]
  | some stored =>
      by_cases hSuperseded : MemoryStorage.objectSuperseded stored expected nuid = true
      · simp only [MemoryStorage.objectDeleteIfSequence, hStored, hSuperseded, if_true]
      · have hSame : (state.objectDeleteIfSequence bucket name expected nuid).2 =
            (state.objectDeleteIfSequence bucket name stored.sequence stored.nuid).2 := by
          have hItself : ¬ MemoryStorage.objectSuperseded stored stored.sequence stored.nuid =
              true := by
            simp [MemoryStorage.objectSuperseded]
          simp only [MemoryStorage.objectDeleteIfSequence, hStored, if_neg hSuperseded,
            if_neg hItself]
        have hCurrent (found : ObjectVersion)
          (hFound : state.objects[(bucket, name)]? = some found) :
            found.sequence = stored.sequence ∧ found.nuid = stored.nuid := by
          rw [hStored] at hFound
          rw [← Option.some.inj hFound]
          exact ⟨rfl, rfl⟩
        rw [hSame, value_objectDeleteIfSequence hCurrent, if_neg hOther]

omit [Serde] in
/-- The delete of a rename leaves all other values alone. -/
theorem value_finish (state : MemoryStorage) (hSource : ∀ found, entry.change = some found →
    found.source ≠ some fact) : (entry.finish state).value fact = state.value fact := by
  obtain ⟨key, operation, attempts, done⟩ := entry
  cases operation with
  | kvPut | materializedPut | objectPut | publishJsonLines => rfl
  | kvRenameComplete fromBucket fromKey expected toBucket toKey bytes =>
      refine value_kvDeleteIfRevision_other ?_
      intro h
      exact hSource _ rfl (congrArg some h)
  | objectRenameComplete fromBucket fromObject expected nuid toBucket toObject bytes =>
      refine value_objectDeleteIfSequence_other ?_
      intro h
      exact hSource _ rfl (congrArg some h)

/-- Lines that are published leave all values alone. -/
theorem value_put_lines (hChange : entry.change = none) :
    (entry.put state).value fact = state.value fact := by
  obtain ⟨key, operation, attempts, done⟩ := entry
  cases operation with
  | publishJsonLines stream subject bytes applied =>
      simp only [QueueEntry.put]
      split
      · cases fact <;> rfl
      · rfl
  | _ => cases hChange

/-- An entry leaves the values alone that it does not show. -/
theorem value_settle (hOther : ∀ found, entry.change = some found → found.on fact = none) :
    (entry.settle state).value fact = state.value fact := by
  have hEnds (found : Change StorageFact Bytes) (hFound : entry.change = some found) :
      found.source ≠ some fact ∧ found.target ≠ fact := by
    have hOn := hOther found hFound
    rw [Change.on] at hOn
    split_ifs at hOn with hSource hTarget
    exact ⟨hSource, hTarget⟩
  have hPut : (entry.put state).value fact = state.value fact := by
    cases hChange : entry.change with
    | none => exact value_put_lines hChange
    | some found => rw [value_put hChange, if_neg (hEnds found hChange).2]
  have hSource (found : Change StorageFact Bytes) (hFound : entry.change = some found) :=
    (hEnds found hFound).1
  rw [QueueEntry.settle]
  split
  · rfl
  · split
    · exact value_finish state hSource
    · rw [QueueEntry.apply, value_finish _ hSource, hPut]

end Settling

/-! ## What a replay leaves -/

section Replay

variable {entry : QueueEntry} {queue queue' : List QueueEntry} {log : Log io}

theorem work_of_refresh {refreshed : QueueEntry} {noted : TransportResult Unit}
    (h : Answers (StoreReplayExecutor.refreshAfterFailedExecute entry) log (refreshed, noted)) :
    refreshed.work = entry.work := by
  obtain ⟨key, operation, attempts, done⟩ := entry
  cases operation with
  | kvPut | materializedPut | objectPut | kvRenameComplete | objectRenameComplete =>
      obtain ⟨-, hOutcome⟩ := h.of_pure
      rw [(Prod.mk.inj hOutcome).1]
  | publishJsonLines stream subject bytes applied =>
      obtain ⟨first, second, reply, -, -, hEnd⟩ := h.of_bind
      cases reply with
      | ok durable =>
          obtain ⟨-, hOutcome⟩ := hEnd.of_pure
          rw [(Prod.mk.inj hOutcome).1]
          rfl
      | error err =>
          obtain ⟨-, hOutcome⟩ := hEnd.of_pure
          rw [(Prod.mk.inj hOutcome).1]

theorem Kept.work {kept : QueueEntry} {rest : List QueueEntry} {err : TransportError}
    (h : Kept storeReplayExecutor entry rest log kept err) : kept.work = entry.work := by
  cases h with
  | done | unknown | applied | unattempted => rfl
  | executed | unrecorded => exact QueueEntry.work_attempt entry
  | failed _ _ _ hLooks => exact (work_of_refresh hLooks).trans (QueueEntry.work_attempt entry)

/-- A replay takes entries from the front. -/
theorem works_of_replay {result : TransportResult Unit}
    (h : Answers (replayEntries storeReplayExecutor queue) log (queue', result)) :
    queue'.map (·.work) <:+ queue.map (·.work) := by
  obtain ⟨removed, left, turns, last, rfl, -, -, hEnds⟩ := replayed_of_answers _ _ h
  have hLeft : queue'.map (·.work) = left.map (·.work) := by
    cases hEnds with
    | drained => rfl
    | stopped hTurn => rw [List.map_cons, List.map_cons, hTurn.work]
  rw [hLeft, List.map_append]
  exact List.suffix_append _ _

end Replay

end EventFs.Transport
