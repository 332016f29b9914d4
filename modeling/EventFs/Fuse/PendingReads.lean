import EventFs.Transport.PendingValue
import EventFs.Fuse.Exec

/-!
# Reading a value with writes pending

The scans of the overlay find the latest change of the fact a path shows. So a read
with the queue pending returns what a read finds after the queue has been replayed.
-/

namespace EventFs.Fuse

open Library Protocol Transport Program

/-! ## The scans -/

section Scans

variable {path : MountPath} {fact : StorageFact}

/-- Among values, only the fact a path shows is visible at it. -/
theorem mem_storageFactVisiblePaths (hShows : Shows path.components fact) {other : StorageFact}
    (hValue : ∀ stream subject, other ≠ .streamSubject stream subject) :
    path ∈ storageFactVisiblePaths other ↔ other = fact := by
  have hMem : path ∈ storageFactVisiblePaths other ↔
      ∃ paths, visiblePaths other = .ok paths ∧ path ∈ paths.map (·.path) := by
    unfold storageFactVisiblePaths
    cases visiblePaths other with
    | ok paths => simp
    | error err => simp
  rw [hMem]
  cases other with
  | kv bucket key =>
      rw [mem_visiblePaths_kv]
      exact ⟨fun h => h.functional hShows, fun h => h ▸ hShows⟩
  | object bucket name =>
      rw [mem_visiblePaths_object]
      exact ⟨fun h => h.functional hShows, fun h => h ▸ hShows⟩
  | streamSubject stream subject => exact absurd rfl (hValue stream subject)

theorem queueEntryPendingOverlay_of_change {entry : QueueEntry}
    {change : Change StorageFact Bytes} (hChange : entry.change = some change)
    (hShows : Shows path.components fact) :
    ((queueEntryPendingOverlay entry).deletedPaths.any fun candidate => candidate == path) =
        decide (change.source = some fact) ∧
      ((queueEntryPendingOverlay entry).visiblePaths.any fun candidate => candidate == path) =
        decide (change.target = fact) ∧
      (queueEntryPendingOverlay entry).payload = .wholeValue change.value := by
  have hAny : ∀ other : StorageFact, (∀ stream subject, other ≠ .streamSubject stream subject) →
      ((storageFactVisiblePaths other).any fun candidate => candidate == path) =
        decide (other = fact) := by
    intro other hValue
    rw [Bool.eq_iff_iff, List.any_beq', decide_eq_true_iff, List.contains_iff_mem,
      mem_storageFactVisiblePaths hShows hValue]
  obtain ⟨key, operation, attempts, done⟩ := entry
  cases operation with
  | kvPut | materializedPut | objectPut =>
      cases hChange
      exact ⟨by simp [queueEntryPendingOverlay], hAny _ (by simp), rfl⟩
  | kvRenameComplete | objectRenameComplete =>
      cases hChange
      refine ⟨?_, hAny _ (by simp), rfl⟩
      simp only [Option.some.injEq]
      exact hAny _ (by simp)
  | publishJsonLines => cases hChange

/-- Both scans of the overlay, by induction from the newest entry. -/
theorem scans_eq_latest (hShows : Shows path.components fact) {queue : List QueueEntry}
    (hWhole : ∀ entry ∈ queue, entry.change ≠ none) :
    QueuedOverlay.latestDeleteCovers (queue.map queueEntryPendingOverlay) path =
        decide (Change.latest (changes queue) fact = some none) ∧
      QueuedOverlay.wholeValueSnapshot (queue.map queueEntryPendingOverlay) path =
        (Change.latest (changes queue) fact).join := by
  induction queue using List.reverseRecOn with
  | nil => exact ⟨rfl, rfl⟩
  | append_singleton older entry ih =>
      obtain ⟨change, hChange⟩ := Option.ne_none_iff_exists'.mp (hWhole entry (by simp))
      obtain ⟨hDelete, hVisible, hPayload⟩ := queueEntryPendingOverlay_of_change hChange hShows
      obtain ⟨ihDelete, ihValue⟩ := ih fun e hMem => hWhole e (by simp [hMem])
      have hLatest : Change.latest (changes (older ++ [entry])) fact =
          (change.on fact).or (Change.latest (changes older) fact) := by
        rw [changes, List.filterMap_append, List.filterMap_cons_some hChange, List.filterMap_nil,
          Change.latest_concat]
        rfl
      unfold QueuedOverlay.latestDeleteCovers at ihDelete ⊢
      unfold QueuedOverlay.wholeValueSnapshot at ihValue ⊢
      rw [hLatest, List.map_append, List.reverse_append, List.map_singleton, List.reverse_singleton,
        List.singleton_append, QueuedOverlay.latestDeleteCoversIn,
        QueuedOverlay.wholeValueSnapshotIn, hDelete, hVisible, hPayload, ihDelete, ihValue]
      unfold Change.on
      by_cases hSource : change.source = some fact
      · simp [hSource]
      · by_cases hTarget : change.target = fact
        · simp [hSource, hTarget]
        · simp [hSource, hTarget]

end Scans

theorem jsonlEntries_eq_nil {queue : List QueueEntry}
    (hWhole : ∀ entry ∈ queue, entry.change ≠ none) (path : MountPath) :
    QueuedOverlay.jsonlEntries (queue.map queueEntryPendingOverlay) path = [] := by
  rw [QueuedOverlay.jsonlEntries, List.filterMap_eq_nil_iff]
  intro overlay hMem
  obtain ⟨entry, hEntry, rfl⟩ := List.mem_map.mp hMem
  have hChange := hWhole entry hEntry
  obtain ⟨key, operation, attempts, done⟩ := entry
  cases operation with
  | publishJsonLines => exact absurd rfl hChange
  | _ => simp [queueEntryPendingOverlay]

/-! ## Reading -/

section Reading

variable [Serde] [Rendering]

/-- What a read finds in the storage. -/
def storedOutcome (value : Option Bytes) : Except Errno Bytes :=
  match value with
  | some bytes => .ok bytes
  | none => .error .notFound

omit [Rendering] in
theorem exec_readKv (path : MountPath) (origin : KeyRevision → CacheOrigin) (bucket key : Str)
    (mount : Mount) (w : World MemoryStorage) :
    (exec faultless (do
      match ← requestIo (.kvGet bucket key) with
      | some entry => cacheAndReturn path (origin entry) entry.bytes
      | none => throw .notFound) mount w).1 = storedOutcome (w.store.value (.kv bucket key)) := by
  rw [exec_bind, exec_kvGet]
  simp only [MemoryStorage.value]
  cases w.store.kv[(bucket, key)]? with
  | none => rfl
  | some entry => rfl

theorem exec_readMaterializedKv (path : MountPath) (bucket key : Str) (mount : Mount)
    (w : World MemoryStorage) (parsed : JetStreamPath) :
    (exec faultless (readAction path parsed (.materializedGet (.kv bucket key))) mount w).1 =
      storedOutcome (w.store.value (.kv bucket key)) := by
  simp only [readAction, readMaterialized]
  rw [exec_bind, exec_bind, exec_kvGet]
  simp only [MemoryStorage.value]
  cases w.store.kv[(bucket, key)]? with
  | none => rfl
  | some entry => rfl

/-- A read of a value that no pending write decides. -/
theorem exec_readAction {path : MountPath} {parsed : JetStreamPath} {fact : StorageFact}
    (hValue : parsed.isValue = true) (hFact : StorageFact.fromJetstreamPath parsed = some fact)
    (mount : Mount) (w : World MemoryStorage) :
    ∃ action, planOrErrno .read parsed = .ok action ∧
      (exec faultless (readAction path parsed action) mount w).1 =
        storedOutcome (w.store.value fact) := by
  cases parsed with
  | kvKey bucket key =>
      cases hFact
      exact ⟨.kvGet bucket key, rfl, exec_readKv path _ bucket key mount w⟩
  | object bucket name =>
      cases hFact
      refine ⟨.objectGet bucket name, rfl, ?_⟩
      simp only [readAction]
      rw [exec_bind, exec_objectGet]
      simp only [MemoryStorage.value]
      cases w.store.objects[(bucket, name)]? with
      | none => rfl
      | some entry => rfl
  | task ns task =>
      cases hFact
      exact ⟨_, rfl, exec_readMaterializedKv path _ _ mount w _⟩
  | agentRecord agent area name =>
      cases hFact
      exact ⟨_, rfl, exec_readMaterializedKv path _ _ mount w _⟩
  | semanticRecord area name =>
      cases hFact
      exact ⟨_, rfl, exec_readMaterializedKv path _ _ mount w _⟩
  | _ => cases hValue

/-- A read decides by the latest pending change of the fact, then by the storage. -/
theorem exec_readSnapshot {path : MountPath} {parsed : JetStreamPath} {fact : StorageFact}
    (hValue : parsed.isValue = true) (hFact : StorageFact.fromJetstreamPath parsed = some fact)
    (hShows : Shows path.components fact) {queue : List QueueEntry}
    (hWhole : ∀ entry ∈ queue, entry.change ≠ none) {mount : Mount}
    (hPending : mount.replay.queue.pendingEntries = queue) (hCache : mount.cache = LocalCache.new)
    (w : World MemoryStorage) :
    (exec faultless (readSnapshot path parsed) mount w).1 =
      storedOutcome ((Change.latest (changes queue) fact).getD (w.store.value fact)) := by
  obtain ⟨hDelete, hSnapshot⟩ := scans_eq_latest hShows hWhole
  have hFacts : run faultless pendingFacts mount w =
      (queue.map queueEntryPendingOverlay, mount, w) := by
    rw [← hPending]
    rfl
  rw [readSnapshot, exec_bind, exec_liftM, hFacts]
  simp only [hDelete, hSnapshot]
  rcases Change.latest (changes queue) fact with _ | _ | bytes
  rotate_left
  · rfl
  · rfl
  · have hJsonl : exec faultless (queuedJsonlSnapshot path parsed) mount w =
        (.ok none, mount, w) := by
      rw [queuedJsonlSnapshot, exec_bind, exec_liftM, hFacts]
      simp only [jsonlEntries_eq_nil hWhole path]
      rfl
    obtain ⟨action, hPlan, hAction⟩ := exec_readAction hValue hFact mount w
    have hEmpty : mount.cache.get path.asStr = none := by
      rw [hCache]
      rfl
    have hRest : exec faultless (do
        readAction path parsed (← liftErrno (planOrErrno .read parsed))) mount w =
          exec faultless (readAction path parsed action) mount w := by
      rw [exec_bind, exec_liftErrno, hPlan]
    rw [decide_eq_false (by simp), if_neg Bool.false_ne_true]
    simp only [Option.join_none]
    rw [exec_bind, hJsonl]
    simp only []
    rw [exec_bind, exec_get]
    simp only [hEmpty]
    cases parsed with
    | streamSubject stream subject => cases hValue
    | _ => exact (congrArg Prod.fst hRest).trans hAction

omit [Rendering] in
theorem pendingEntries_of_ready {state : MemoryStorage} {queue : WritebackQueue}
    (hReady : Ready state queue.entries) : queue.pendingEntries = queue.entries := by
  rw [WritebackQueue.pendingEntries, List.filter_eq_self]
  intro entry hMem
  simp [hReady.pending entry hMem]

/-- With writes pending, and replay interrupted anywhere in the first of them, a value
path reads as it will once the queue has been replayed. -/
theorem readSnapshot_pending_eq_replayed {state store : MemoryStorage} {mount replayed : Mount}
    (hReady : Ready state mount.replay.queue.entries)
    (hWhole : ∀ entry ∈ mount.replay.queue.entries, entry.change ≠ none)
    (hCurrent : SourcesCurrent mount.replay.queue.entries state)
    (hStage : Stage state mount.replay.queue.entries store)
    (hCache : mount.cache = LocalCache.new) (hDrained : replayed.replay.queue.entries = [])
    (hCacheReplayed : replayed.cache = LocalCache.new) {path : MountPath} {parsed : JetStreamPath}
    (hParse : parsePath path = .ok parsed) (hValue : parsed.isValue = true) :
    (exec faultless (readSnapshot path parsed) mount ⟨store, mount.replay.queue.entries⟩).1 =
      (exec faultless (readSnapshot path parsed) replayed
        (eval faultless mount.replay.queue.replayWithStore
          ⟨store, mount.replay.queue.entries⟩).2).1 := by
  have hParsed : JetStreamPath.parse path.asStr = .ok parsed := by
    simp only [parsePath] at hParse
    cases hResult : JetStreamPath.parse path.asStr with
    | ok found => rw [hResult] at hParse; cases hParse; rfl
    | error err => rw [hResult] at hParse; cases hParse
  obtain ⟨fact, hFact, hShows⟩ := shows_of_parse hParsed hValue
  have hReplayed : (eval faultless mount.replay.queue.replayWithStore
      ⟨store, mount.replay.queue.entries⟩).2 =
        ⟨applyAll mount.replay.queue.entries state, []⟩ := by
    have hPending : Pending (applyAll mount.replay.queue.entries state) state
        mount.replay.queue.entries ⟨store, mount.replay.queue.entries⟩ :=
      ⟨rfl, hReady, hStage, rfl⟩
    rw [WritebackQueue.replayWithStore, WritebackQueue.replay, eval_bind,
      eval_replayEntries hPending]
    rfl
  have hNothing : replayed.replay.queue.pendingEntries = [] := by
    rw [WritebackQueue.pendingEntries, hDrained]
    rfl
  rw [hReplayed,
    exec_readSnapshot hValue hFact hShows hWhole (pendingEntries_of_ready hReady) hCache,
    exec_readSnapshot hValue hFact hShows (by simp) hNothing hCacheReplayed]
  congr 1
  show _ = (applyAll mount.replay.queue.entries state).value fact
  rw [value_applyAll hWhole state hCurrent, Change.applyAll_eq_latest]
  cases hLatest : Change.latest (changes mount.replay.queue.entries) fact with
  | some left => rfl
  | none => exact value_of_stage hWhole hCurrent hStage hLatest

end Reading

/-! A rename whose put is done and whose delete is not, followed by a put at its source. -/

@[reducible] def plainRendering : Rendering where
  idempotencyKey path bytes seed := path ++ seed ++ Text.decimal bytes.length
  streamMessageBytes message := .ok message.payload
  metadataBytes _ _ := []

def renameMount : Mount := Mount.new ⟨8, renameQueue⟩ "events".toList 1

/-- The storage after the put of the rename. -/
def halfRenamed : MemoryStorage :=
  letI := literalSerde
  QueueEntry.put ⟨['1'], .kvRenameComplete ['b'] ['x'] 1 ['b'] ['y'] [1], 0, false⟩ renameStore

def sourcePath : MountPath := ⟨"/kv/b/x".toList, ["kv".toList, ['b'], ['x']], by decide, by decide⟩

theorem renameQueue_sourcesCurrent : @SourcesCurrent literalSerde renameQueue renameStore := by
  refine ⟨⟨by decide, ?_⟩, trivial, trivial⟩
  intro stored hStored
  have hFound : renameStore.kv[(['b'], ['x'])]? = some ⟨1, [1]⟩ := by decide
  rw [hFound] at hStored
  cases hStored
  rfl

/-- The storage still holds the old value at the source; the pending put is what is read. -/
theorem half_renamed_source_read :
    (@exec _ _ (@faultless literalSerde)
      (@readSnapshot literalSerde plainRendering sourcePath (.kvKey ['b'] ['x'])) renameMount
      ⟨halfRenamed, renameQueue⟩).1 = .ok [2] := by
  let _ := literalSerde
  let _ := plainRendering
  have hWhole : ∀ entry ∈ renameQueue, entry.change ≠ none := by decide
  have hRead := @readSnapshot_pending_eq_replayed literalSerde plainRendering renameStore
    halfRenamed renameMount (Mount.new ⟨8, []⟩ "events".toList 2) renameQueue_ready hWhole
    renameQueue_sourcesCurrent (Or.inr (Or.inl rfl)) rfl rfl rfl sourcePath (.kvKey ['b'] ['x'])
    (by decide) rfl
  exact hRead.trans (by rfl)

end EventFs.Fuse
