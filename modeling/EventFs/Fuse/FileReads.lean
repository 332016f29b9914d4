import EventFs.Fuse.FileRuns
import EventFs.Fuse.StoredKinds

/-!
# Reading files in whole runs

What a read finds is put together from the queue, the cache and the storage. Where neither
the storage nor a write of the queue file does anything without acknowledging it, all three
agree in every session, so that a file reads as what the changes before have made of it.
-/

namespace EventFs.Fuse

open Library Protocol Transport Program

variable {α β : Type}

/-! ## What the queue shows -/

section Shown

variable {path : MountPath} {fact : StorageFact} {queue : List QueueEntry}

/-- The value of a fact behind the changes that wait. -/
def shownValue (store : MemoryStorage) (queue : List QueueEntry) (fact : StorageFact) :
    Option Bytes :=
  (Change.latest (changes queue) fact).getD (store.value fact)

/-- Lines that wait do not show at the path of a value. -/
theorem lines_hidden (hHolds : HoldsValue path fact) (stream subject : Str) :
    (publishJsonlVisibleMountPaths stream subject).any (fun candidate => candidate == path) =
      false := by
  obtain ⟨parsed, hParsed, -, hFact⟩ := hHolds.parses
  rw [List.any_beq', ← Bool.not_eq_true, List.contains_iff_mem]
  intro hMem
  rw [publishJsonlVisibleMountPaths, storageFactVisiblePaths] at hMem
  split at hMem
  · next paths hPaths =>
    have hDenotes := denotes_of_parse (parse_of_parsePath hParsed) hFact
    exact hHolds.isValue _ _ (hDenotes.eq_of_visible hPaths hMem)
  · cases hMem

/-- Both scans of the overlay find the latest change, whatever else waits. -/
theorem scans_eq_shown (hHolds : HoldsValue path fact) (queue : List QueueEntry) :
    QueuedOverlay.latestDeleteCovers (queue.map queueEntryPendingOverlay) path =
        decide (Change.latest (changes queue) fact = some none) ∧
      QueuedOverlay.wholeValueSnapshot (queue.map queueEntryPendingOverlay) path =
        (Change.latest (changes queue) fact).join := by
  induction queue using List.reverseRecOn with
  | nil => exact ⟨rfl, rfl⟩
  | append_singleton older entry ih =>
      obtain ⟨ihDelete, ihValue⟩ := ih
      have hLatest : Change.latest (changes (older ++ [entry])) fact =
          (entry.change.bind (fun change => change.on fact)).or
            (Change.latest (changes older) fact) := by
        rw [changes, List.filterMap_append]
        cases hChange : entry.change with
        | none =>
            rw [List.filterMap_cons_none hChange, List.filterMap_nil, List.append_nil]
            rfl
        | some change =>
            rw [List.filterMap_cons_some hChange, List.filterMap_nil, Change.latest_concat]
            rfl
      unfold QueuedOverlay.latestDeleteCovers at ihDelete ⊢
      unfold QueuedOverlay.wholeValueSnapshot at ihValue ⊢
      rw [hLatest, List.map_append, List.reverse_append, List.map_singleton,
        List.reverse_singleton, List.singleton_append, QueuedOverlay.latestDeleteCoversIn,
        QueuedOverlay.wholeValueSnapshotIn, ihDelete, ihValue]
      cases hChange : entry.change with
      | none =>
          rw [Option.bind_none, Option.none_or]
          clear hLatest
          obtain ⟨key, operation, attempts, done⟩ := entry
          cases operation with
          | publishJsonLines stream subject bytes applied =>
              simp [queueEntryPendingOverlay, lines_hidden hHolds stream subject]
          | _ => cases hChange
      | some change =>
          obtain ⟨hDelete, hVisible, hPayload⟩ :=
            queueEntryPendingOverlay_of_change hChange hHolds.shows
          rw [hDelete, hVisible, hPayload, Option.bind_some, Change.on]
          by_cases hSource : change.source = some fact
          · simp [hSource]
          · by_cases hTarget : change.target = fact
            · simp [hSource, hTarget]
            · simp [hSource, hTarget]

variable [Serde] {world : World MemoryStorage} {mount : Mount}

omit [Serde] in
theorem changes_of_agrees (h : Agrees world mount) :
    changes world.file = changes mount.replay.queue.entries := changes_of_works h.1

/-- Settling the file leaves the values alone that it does not show. -/
theorem value_settledFrom (hNone : Change.latest (changes queue) fact = none)
    (store : MemoryStorage) : (settledFrom store queue).value fact = store.value fact := by
  have hOther : ∀ entry ∈ queue, ∀ found, entry.change = some found → found.on fact = none := by
    intro entry hMem found hFound
    exact Change.latest_eq_none.mp hNone found (List.mem_filterMap.mpr ⟨entry, hMem, hFound⟩)
  clear hNone
  induction queue generalizing store with
  | nil => rfl
  | cons entry rest ih =>
      have hRest := ih (entry.settle store) fun other hMem =>
        hOther other (List.mem_cons_of_mem _ hMem)
      rw [settledFrom, List.foldl_cons]
      exact hRest.trans (value_settle (hOther entry List.mem_cons_self))

/-- What is shown of a value is what it holds once the queue has been settled. -/
theorem shownValue_eq_contents (hOverlaid : Overlaid (settled world) world.file)
    (hAgrees : Agrees world mount) (hHolds : HoldsValue path fact) :
    shownValue world.store mount.replay.queue.entries fact = contents (settled world) fact := by
  rw [contents_of_isValue hHolds.isValue, shownValue, ← changes_of_agrees hAgrees]
  cases hLatest : Change.latest (changes world.file) fact with
  | some value => exact (hOverlaid fact value hLatest).symm
  | none => exact (value_settledFrom hLatest world.store).symm

omit [Serde] in
/-- No lines that wait belong to the path of a value. -/
theorem jsonlEntries_hidden (hHolds : HoldsValue path fact) (queue : List QueueEntry) :
    QueuedOverlay.jsonlEntries (queue.map queueEntryPendingOverlay) path = [] := by
  rw [QueuedOverlay.jsonlEntries, List.filterMap_eq_nil_iff]
  intro overlay hMem
  obtain ⟨entry, -, rfl⟩ := List.mem_map.mp hMem
  obtain ⟨key, operation, attempts, done⟩ := entry
  cases operation with
  | publishJsonLines stream subject =>
      simp [queueEntryPendingOverlay, lines_hidden hHolds stream subject]
  | _ => simp [queueEntryPendingOverlay]

end Shown

/-! ## What a read returns -/

section Reading

variable [Serde] {Lossy : StorageCall → Prop} {E : Mount → World MemoryStorage → Prop}
  {origin : World MemoryStorage} {start : Mount} {path : MountPath} {fact : StorageFact}

/-- Code that asks the storage, and what follows the answer. -/
theorem yields_told {call : StorageCall} {f : call.Value → Runtime β}
    {Q : β → Mount → World MemoryStorage → Prop} (hObserves : StorageCall.observes call = true)
    (hNext : ∀ value, (MemoryStorage.handle origin.store call).1 = .ok value →
      Leads (Atomic (flaky Lossy)) (Untouched origin start) (f value).run
        (Yields E origin start Q)) :
    Leads (Atomic (flaky Lossy)) (Untouched origin start) (requestIo call >>= f).run
      (Yields E origin start Q) := by
  refine .andThen (fun value mount world => Untouched origin start mount world ∧
    (MemoryStorage.handle origin.store call).1 = .ok value) ?_ ?_
  · refine .andThen (fun reply mount world => Untouched origin start mount world ∧
      ∀ value, reply = .ok value → (MemoryStorage.handle origin.store call).1 = .ok value)
      (.liftM (.request ?_)) ?_
    · intro mount world reply world' hUntouched hCall
      have hObserving : Observing (.store call) := hObserves
      have hTold := truthful_of_observing hObserving hCall
      obtain rfl := same_of_observing hObserving hCall
      refine ⟨hUntouched, fun value hValue => ?_⟩
      cases hTold with
      | told =>
          rw [← hUntouched.world]
          exact hValue
      | failed err => cases hValue
    · intro reply
      cases reply with
      | ok value => exact .pure fun _ _ h => ⟨h.1, h.2 value rfl⟩
      | error err => exact .throw fun _ _ h => Or.inl h.1
  · exact fun value => .assume (hNext value)

omit [Serde] in
theorem yields_cacheAndReturn {cacheOrigin : CacheOrigin} {bytes : Bytes} {value : Option Bytes}
    {P : Mount → World MemoryStorage → Prop} {B : Behaviour io (World MemoryStorage)}
    (h : value = some bytes) :
    Leads B P (cacheAndReturn path cacheOrigin bytes).run
      (Yields E origin start fun read _ _ => value = some read) :=
  .andThen (fun _ _ _ => True) (.liftM (.modify fun _ _ _ => trivial)) fun _ => .pure fun _ _ _ => h

theorem yields_readAction [Rendering] {parsed : JetStreamPath} {action : JetStreamAction}
    (hHolds : HoldsValue path fact) (hParsed : parsePath path = .ok parsed)
    (hPlan : planOrErrno .read parsed = .ok action) :
    Leads (Atomic (flaky Lossy)) (Untouched origin start) (readAction path parsed action).run
      (Yields (fun _ _ => True) origin start fun bytes _ _ =>
        origin.store.value fact = some bytes) := by
  obtain ⟨found, hFound, hValue, hFact⟩ := hHolds.parses
  obtain rfl : found = parsed := Except.ok.inj (hFound.symm.trans hParsed)
  cases found with
  | kvKey bucket key =>
      cases hPlan
      refine yields_told rfl fun entry hEntry => ?_
      cases entry with
      | none => exact yields_throw
      | some entry =>
          refine yields_cacheAndReturn ?_
          have hStored : origin.store.kv[(bucket, key)]? = some entry := Except.ok.inj hEntry
          rw [← Option.some.inj hFact]
          exact congrArg (Option.map (·.bytes)) hStored
  | object bucket name =>
      cases hPlan
      refine yields_told rfl fun version hVersion => ?_
      cases version with
      | none => exact yields_throw
      | some version =>
          refine yields_cacheAndReturn ?_
          have hStored : origin.store.objects[(bucket, name)]? = some version :=
            Except.ok.inj hVersion
          rw [← Option.some.inj hFact]
          exact congrArg (Option.map (·.bytes)) hStored
  | task | agentRecord | semanticRecord =>
      cases hPlan
      rw [readAction, readMaterialized, LawfulMonad.bind_assoc]
      refine yields_told rfl fun entry hEntry => ?_
      cases entry with
      | none => exact yields_throw
      | some entry =>
          refine yields_cacheAndReturn ?_
          have hStored : origin.store.kv[_]? = some entry := Except.ok.inj hEntry
          rw [← Option.some.inj hFact]
          exact congrArg (Option.map (·.bytes)) hStored
  | _ => cases hValue

theorem yields_withFacts {f : List PendingWriteOverlay → Runtime β}
    {Q : β → Mount → World MemoryStorage → Prop}
    (hNext : Leads (Atomic (flaky Lossy)) (Untouched origin start)
      (f start.replay.pendingOverlays).run (Yields E origin start Q)) :
    Leads (Atomic (flaky Lossy)) (Untouched origin start) (liftM pendingFacts >>= f : Runtime β).run
      (Yields E origin start Q) := by
  refine .andThen (fun facts mount world => Untouched origin start mount world ∧
    facts = start.replay.pendingOverlays) (.liftM (.bind (fun found mount world =>
      Untouched origin start mount world ∧ found = mount)
        (.get fun mount world h => ⟨h, rfl⟩) ?_)) ?_
  · intro found
    refine .pure ?_
    rintro mount world ⟨hUntouched, rfl⟩
    exact ⟨hUntouched, congrArg WritebackReplay.pendingOverlays hUntouched.replay⟩
  · intro facts
    refine .assume ?_
    rintro rfl
    exact hNext

variable [Rendering]

/-- The queue and the cache of the mount are those of a session. -/
structure Readable (world : World MemoryStorage) (mount : Mount) : Prop where
  pending : mount.replay.pendingOverlays =
    mount.replay.queue.entries.map queueEntryPendingOverlay
  coherent : Coherent world.store mount.cache

omit [Rendering] in
/-- What waits and what is cached comes before what the storage says. -/
theorem yields_shown {parsed : JetStreamPath} {g : Bytes → β} {stored : Runtime β}
    {Q : β → Prop} (hHolds : HoldsValue path fact) (hReadable : Readable origin start)
    (hShown : ∀ bytes, shownValue origin.store start.replay.queue.entries fact = some bytes →
      Q (g bytes))
    (hStored : (∀ bytes, origin.store.value fact = some bytes → Q (g bytes)) →
      Leads (Atomic (flaky Lossy)) (Untouched origin start) stored.run
        (Yields E origin start fun b _ _ => Q b)) :
    Leads (Atomic (flaky Lossy)) (Untouched origin start) (do
        let facts ← pendingFacts
        if QueuedOverlay.latestDeleteCovers facts path then
          throw .notFound
        if let some bytes := QueuedOverlay.wholeValueSnapshot facts path then
          return g bytes
        if let some bytes ← queuedJsonlSnapshot path parsed then
          return g bytes
        if let some entry := (← get).cache.get path.asStr then
          return g entry.bytes
        stored : Runtime β).run
      (Yields E origin start fun b _ _ => Q b) := by
  obtain ⟨hDelete, hSnapshot⟩ := scans_eq_shown hHolds start.replay.queue.entries
  refine yields_withFacts ?_
  rw [hReadable.pending, hDelete, hSnapshot]
  cases hLatest : Change.latest (changes start.replay.queue.entries) fact with
  | some left =>
      cases left with
      | none => exact yields_throw
      | some bytes =>
          refine .pure fun _ _ _ => hShown bytes ?_
          rw [shownValue, hLatest]
          rfl
  | none =>
      have hLines : QueuedOverlay.jsonlEntries start.replay.pendingOverlays path = [] := by
        rw [hReadable.pending]
        exact jsonlEntries_hidden hHolds _
      have hValue (bytes : Bytes) (h : origin.store.value fact = some bytes) : Q (g bytes) := by
        refine hShown bytes ?_
        rw [shownValue, hLatest]
        exact h
      refine .andThen (fun queued mount world => Untouched origin start mount world ∧ queued = none)
        ?_ ?_
      · refine yields_withFacts ?_
        rw [hLines]
        exact .pure fun _ _ h => ⟨h, rfl⟩
      intro queued
      refine .assume ?_
      rintro rfl
      refine .andThen (fun found mount world => Untouched origin start mount world ∧
        Coherent origin.store found.cache)
        (.liftM (.get fun mount world h => ⟨h, hReadable.coherent.rereads h.cache⟩)) ?_
      intro found
      refine .assume fun hCoherent => ?_
      cases hCached : found.cache.get path.asStr with
      | some entry =>
          have hEntry := (Option.filter_eq_some_iff.mp hCached).1
          exact .pure fun _ _ _ => hValue entry.bytes (hCoherent hHolds hEntry)
      | none => exact hStored hValue

theorem yields_readSnapshot {parsed : JetStreamPath} (hHolds : HoldsValue path fact)
    (hParsed : parsePath path = .ok parsed) (hReadable : Readable origin start) :
    Leads (Atomic (flaky Lossy)) (Untouched origin start) (readSnapshot path parsed).run
      (Yields (fun _ _ => True) origin start fun bytes _ _ =>
        shownValue origin.store start.replay.queue.entries fact = some bytes) := by
  refine yields_shown (g := fun bytes => bytes) hHolds hReadable (fun _ h => h) fun hStored => ?_
  have hRead : Leads (Atomic (flaky Lossy)) (Untouched origin start) (do
      readAction path parsed (← liftErrno (planOrErrno .read parsed)) : Runtime Bytes).run
      (Yields (fun _ _ => True) origin start fun bytes _ _ =>
        shownValue origin.store start.replay.queue.entries fact = some bytes) := by
    refine yields_afterErrno fun action hPlan => ?_
    exact (yields_readAction hHolds hParsed hPlan).weaken (fun _ _ h => h)
      (Yields.mono (fun _ _ _ => trivial) (fun _ _ h => h) fun bytes _ _ h => hStored bytes h)
  obtain ⟨known, hKnown, hValue, -⟩ := hHolds.parses
  obtain rfl : known = parsed := Except.ok.inj (hKnown.symm.trans hParsed)
  cases known with
  | streamSubject => cases hValue
  | _ => exact hRead

/-- A read that succeeds returns what is shown. -/
theorem yields_readBytes (hHolds : HoldsValue path fact) (hReadable : Readable origin start) :
    Leads (Atomic (flaky Lossy)) (Untouched origin start) (readBytes path).run
      (Yields (fun _ _ => True) origin start fun bytes _ _ =>
        shownValue origin.store start.replay.queue.entries fact = some bytes) := by
  refine yields_after (.liftM looking_rereading.watch) fun _ => ?_
  exact yields_afterErrno fun parsed hParsed => yields_readSnapshot hHolds hParsed hReadable

theorem yields_attrMetadata {parsed : JetStreamPath} (hHolds : HoldsValue path fact)
    (hParsed : parsePath path = .ok parsed) (hReadable : Readable origin start) :
    Leads (Atomic (flaky Lossy)) (Untouched origin start) (attrMetadata path parsed).run
      (Yields (fun _ _ => True) origin start fun size _ _ =>
        ∃ bytes, shownValue origin.store start.replay.queue.entries fact = some bytes ∧
          size = bytes.length) := by
  refine yields_shown (Q := fun size => ∃ bytes, shownValue origin.store
    start.replay.queue.entries fact = some bytes ∧ size = bytes.length) hHolds hReadable
    (fun bytes h => ⟨bytes, h, rfl⟩) fun hStored => ?_
  have hRead : Leads (Atomic (flaky Lossy)) (Untouched origin start) (do
      return (← readSnapshot path parsed).length : Runtime Nat).run
      (Yields (fun _ _ => True) origin start fun size _ _ =>
        ∃ bytes, shownValue origin.store start.replay.queue.entries fact = some bytes ∧
          size = bytes.length) := by
    refine .andThen (fun bytes _ _ =>
      shownValue origin.store start.replay.queue.entries fact = some bytes)
      ((yields_readSnapshot hHolds hParsed hReadable).weaken (fun _ _ h => h) ?_) ?_
    · intro result mount world h
      cases result with
      | ok bytes => exact h
      | error errno => exact Or.inr trivial
    · exact fun bytes => .pure fun _ _ h => ⟨bytes, h, rfl⟩
  obtain ⟨known, hKnown, hValue, hFact⟩ := hHolds.parses
  obtain rfl : known = parsed := Except.ok.inj (hKnown.symm.trans hParsed)
  cases known with
  | object bucket name =>
      refine yields_told rfl fun metadata hMetadata => ?_
      cases metadata with
      | none => exact yields_throw
      | some metadata =>
          obtain ⟨version, hVersion, rfl⟩ := Option.map_eq_some_iff.mp (Except.ok.inj hMetadata)
          refine .pure fun _ _ _ => hStored version.bytes ?_
          rw [← Option.some.inj hFact]
          exact congrArg (Option.map (·.bytes)) hVersion
  | streamSubject => cases hValue
  | _ => exact hRead

/-- A file that is there has the size of what is shown. -/
theorem yields_attr (hHolds : HoldsValue path fact) (hReadable : Readable origin start) :
    Leads (Atomic (flaky Lossy)) (Untouched origin start) (attr path).run
      (Yields (fun _ _ => True) origin start fun found _ _ => found.kind = .file →
        ∃ bytes, shownValue origin.store start.replay.queue.entries fact = some bytes ∧
          found.size = bytes.length) := by
  refine yields_after (.liftM looking_rereading.watch) fun _ => ?_
  refine yields_afterErrno fun parsed hParsed => ?_
  refine yields_after (looking_rereading.kindForParsed path parsed) fun kind => ?_
  cases kind with
  | directory => exact .pure fun _ _ _ h => by cases h
  | file =>
      refine .andThen (fun size _ _ => ∃ bytes,
        shownValue origin.store start.replay.queue.entries fact = some bytes ∧ size = bytes.length)
        ((yields_attrMetadata hHolds hParsed hReadable).weaken (fun _ _ h => h) ?_) ?_
      · intro result mount world h
        cases result with
        | ok size => exact h
        | error errno => exact Or.inr trivial
      · exact fun size => .pure fun _ _ h _ => h

/-- On a storage that answers, a read finds what is shown. -/
theorem exec_readBytes {world : World MemoryStorage} {mount : Mount} (hHolds : HoldsValue path fact)
    (hReadable : Readable world mount) :
    (exec faultless (readBytes path) mount world).1 =
      storedOutcome (shownValue world.store mount.replay.queue.entries fact) := by
  obtain ⟨parsed, hParsed, hValue, hFact⟩ := hHolds.parses
  obtain ⟨hDelete, hSnapshot⟩ := scans_eq_shown hHolds mount.replay.queue.entries
  have hFacts : run faultless pendingFacts mount world =
      (mount.replay.queue.entries.map queueEntryPendingOverlay, mount, world) := by
    rw [← hReadable.pending]
    rfl
  rw [readBytes, exec_bind, exec_watchEvents]
  simp only
  rw [exec_bind, exec_liftErrno, hParsed]
  simp only
  rw [readSnapshot, exec_bind, exec_liftM, hFacts]
  simp only [hDelete, hSnapshot, shownValue]
  cases hLatest : Change.latest (changes mount.replay.queue.entries) fact with
  | some left => cases left <;> rfl
  | none =>
      have hJsonl : exec faultless (queuedJsonlSnapshot path parsed) mount world =
          (.ok none, mount, world) := by
        rw [queuedJsonlSnapshot, exec_bind, exec_liftM, hFacts]
        simp only [jsonlEntries_hidden hHolds]
        rfl
      have hStored : ∃ action, planOrErrno .read parsed = .ok action ∧
          (exec faultless (readAction path parsed action) mount world).1 =
            storedOutcome (world.store.value fact) := exec_readAction hValue hFact mount world
      obtain ⟨action, hPlan, hAction⟩ := hStored
      have hRest : exec faultless (do
          readAction path parsed (← liftErrno (planOrErrno .read parsed))) mount world =
            exec faultless (readAction path parsed action) mount world := by
        rw [exec_bind, exec_liftErrno, hPlan]
      rw [decide_eq_false (by simp), if_neg Bool.false_ne_true]
      simp only [Option.join_none]
      rw [exec_bind, hJsonl]
      simp only
      rw [exec_bind, exec_get]
      cases hCached : mount.cache.get path.asStr with
      | some entry =>
          have hEntry := (Option.filter_eq_some_iff.mp hCached).1
          simp only [hCached, Option.getD_none, hReadable.coherent hHolds hEntry]
          rfl
      | none =>
          simp only [hCached]
          cases parsed with
          | streamSubject stream subject => cases hValue
          | _ => exact (congrArg Prod.fst hRest).trans hAction

end Reading

/-! ## Whole runs -/

section Runs

variable [Serde] [Rendering] {Hashed : KeyMaterial → Prop}
    {session session' : Session MemoryStorage}
  {events : List FileEvent} {event : FileEvent} {store : MemoryStorage} {mount : Mount}

/-- The mount, if there is one, agrees with the world. -/
def InStep (session : Session MemoryStorage) : Prop :=
  ∀ mount, session.mount = some mount → Agrees session.world mount

/-- A step on a storage that does nothing without acknowledging it. -/
theorem InStep.step (hApart : Apart Hashed) (hSound : Sound Hashed session) (h : InStep session)
    (hStep : FileStep (fun _ => False) Hashed session event session') : InStep session' := by
  cases hStep with
  | succeeded hRoom hHashed hRun =>
      rintro mount ⟨⟩
      exact (hSound.succeeded hApart hRoom hHashed hRun).2.2 (h _ rfl)
  | refused _ _ _ hRun | failed _ _ _ hRun =>
      rintro mount ⟨⟩
      obtain ⟨-, ⟨rfl, hAgrees⟩ | ⟨call, hLossy, -⟩⟩ := hSound.outcome hRun
      · exact hAgrees (h _ rfl)
      · exact hLossy.elim
  | mounted hFresh hRun =>
      rintro mount ⟨⟩
      exact ((settles_openMount hSound.stored (settles_used hSound.valid) hRun).2.2 _ rfl).2
  | crashed | unmounted | notMounted => exact fun mount hMount => by cases hMount

theorem Sound.readable (hSound : Sound Hashed session) (h : InStep session)
    (hMount : session.mount = some mount) : Readable session.world mount where
  coherent := (h mount hMount).2
  pending := by
    have hGuarded : Guarded mount.replay session.world.file := (hSound.mounted mount hMount).1
    rw [WritebackReplay.pendingOverlays, WritebackQueue.pendingOverlays]
    rcases hGuarded with hClear | hWaiting
    · rw [WritebackQueue.pendingEntries, hClear.entries]
      rfl
    · rw [pendingEntries_of_pending hWaiting.tracks.queue]

theorem inStep_of_trace (hApart : Apart Hashed)
    (run : Trace (FileStep (fun _ => False) Hashed) ⟨none, ⟨store, []⟩⟩ events session) :
    Sound Hashed session ∧ InStep session := by
  have hStart : Sound Hashed ⟨none, ⟨store, []⟩⟩ ∧ InStep ⟨none, ⟨store, []⟩⟩ :=
    ⟨sound_new store, fun mount h => by cases h⟩
  have hStep : ∀ ⦃s event t⦄, Sound Hashed s ∧ InStep s →
    FileStep (fun _ => False) Hashed s event t →
      Sound Hashed t ∧ InStep t := by
    intro s event t h hOne
    exact ⟨(h.1.step hApart hOne).1, h.2.step hApart h.1 hOne⟩
  have hEnd := run.keeps hStep hStart
  exact hEnd

/-- In every session on a storage that does nothing without acknowledging it, what is cached
at the path of a key or an object is what the storage holds. -/
theorem cache_coherent (hApart : Apart Hashed)
    (run : Trace (FileStep (fun _ => False) Hashed) ⟨none, ⟨store, []⟩⟩ events session)
    (hMount : session.mount = some mount) : Coherent session.world.store mount.cache :=
  ((inStep_of_trace hApart run).2 mount hMount).2

/-- What the session shows of a value is what the changes have made of it. -/
theorem shownValue_of_run (hSound : Sound Hashed session) (hInStep : InStep session)
    (hMount : session.mount = some mount) {path : MountPath} {fact : StorageFact}
    (hHolds : HoldsValue path fact) :
    shownValue session.world.store mount.replay.queue.entries fact =
      contents (settled session.world) fact :=
  shownValue_eq_contents hSound.overlaid (hInStep mount hMount) hHolds

/-- In every session on a storage that does nothing without acknowledging it, all keys and
objects read as one sequence of changes has left them, through whichever path. -/
theorem reads_durable (hApart : Apart Hashed)
    (run : Trace (FileStep (fun _ => False) Hashed) ⟨none, ⟨store, []⟩⟩ events session)
    (hMount : session.mount = some mount) :
    ∃ changes, TookPlace (events.map FileEvent.attempt) changes ∧
      ∀ ⦃path fact⦄, HoldsValue path fact →
        (exec faultless (readBytes path) mount session.world).1 =
          storedOutcome
            (changes.foldl (fun files change => change files) (contents store) fact) := by
  obtain ⟨hSound, hInStep⟩ := inStep_of_trace hApart run
  obtain ⟨changes, hTook, hContents⟩ := (sound_new store).durable hApart run
  refine ⟨changes, hTook, fun path fact hHolds => ?_⟩
  rw [exec_readBytes hHolds (hSound.readable hInStep hMount),
    shownValue_of_run hSound hInStep hMount hHolds, hContents]
  rfl

/-- Whichever calls are refused meanwhile, no read returns other bytes, and no other size is
reported. -/
theorem answers_durable (hApart : Apart Hashed)
    (run : Trace (FileStep (fun _ => False) Hashed) ⟨none, ⟨store, []⟩⟩ events session)
    (hMount : session.mount = some mount) :
    ∃ changes, TookPlace (events.map FileEvent.attempt) changes ∧
      ∀ ⦃path fact⦄, HoldsValue path fact → ∀ ⦃Lossy : StorageCall → Prop⦄ ⦃mount' world'⦄,
        (∀ ⦃bytes⦄, Run (Atomic (flaky Lossy)) Alone ((readBytes path).run.run mount) session.world
            (some (.ok bytes, mount')) world' →
          changes.foldl (fun files change => change files) (contents store) fact = some bytes) ∧
        ∀ ⦃size⦄, Run (Atomic (flaky Lossy)) Alone ((attr path).run.run mount) session.world
            (some (.ok ⟨.file, size⟩, mount')) world' →
          ∃ bytes, changes.foldl (fun files change => change files) (contents store) fact =
            some bytes ∧ size = bytes.length := by
  obtain ⟨hSound, hInStep⟩ := inStep_of_trace hApart run
  obtain ⟨changes, hTook, hContents⟩ := (sound_new store).durable hApart run
  have hReadable := hSound.readable hInStep hMount
  refine ⟨changes, hTook, fun path fact hHolds Lossy mount' world' => ?_⟩
  have hStart : contents (settled ⟨store, []⟩) = contents store := rfl
  rw [← hStart, ← hContents, ← shownValue_of_run hSound hInStep hMount hHolds]
  constructor
  · intro bytes hRun
    exact yields_readBytes hHolds hReadable (Untouched.refl session.world mount) hRun
  · intro size hRun
    exact yields_attr hHolds hReadable (Untouched.refl session.world mount) hRun rfl

end Runs

/-! ## Reading a write that has been cached -/

section Example

attribute [local instance] literalSerde plainRendering

/-- `/kv/b/x` is truncated, and what the storage holds then is cached. -/
def cachedTruncation : (Except Errno Unit × Mount) × World MemoryStorage :=
  eval (World.handle MemoryStorage.handle)
    ((Operation.truncatePath sourcePath).code.run.run emptyMount) ⟨renameStore, []⟩

theorem trace_cachedTruncation :
    Trace (FileStep (fun _ => False) (fun material => material = truncation))
      ⟨none, ⟨renameStore, []⟩⟩
      [⟨.keep, .acknowledged⟩, ⟨.put (.kv ['b'] ['x']) [], .acknowledged⟩]
      ⟨some cachedTruncation.1.2, cachedTruncation.2⟩ :=
  trace_truncation (fun state call => Faulty.done (I := storage) state call)
    (Prod.ext (Prod.ext (by decide) rfl) rfl)

theorem cache_coherent_truncated :
    (cachedTruncation.1.2.cache.entries["/kv/b/x".toList]?.map (·.bytes)) = some [] ∧
      Coherent cachedTruncation.2.store cachedTruncation.1.2.cache :=
  ⟨by decide, cache_coherent apart_truncation trace_cachedTruncation rfl⟩

theorem reads_durable_truncated :
    ∃ changes, TookPlace (([⟨.keep, .acknowledged⟩,
        ⟨.put (.kv ['b'] ['x']) [], .acknowledged⟩] : List FileEvent).map FileEvent.attempt)
          changes ∧
      ∀ ⦃path fact⦄, HoldsValue path fact →
        (exec faultless (readBytes path) cachedTruncation.1.2 cachedTruncation.2).1 =
          storedOutcome
            (changes.foldl (fun files change => change files) (contents renameStore) fact) :=
  reads_durable apart_truncation trace_cachedTruncation rfl

theorem answers_durable_truncated :
    ∃ changes, TookPlace (([⟨.keep, .acknowledged⟩,
        ⟨.put (.kv ['b'] ['x']) [], .acknowledged⟩] : List FileEvent).map FileEvent.attempt)
          changes ∧
      ∀ ⦃path fact⦄, HoldsValue path fact → ∀ ⦃Lossy : StorageCall → Prop⦄ ⦃mount' world'⦄,
        (∀ ⦃bytes⦄, Run (Atomic (flaky Lossy)) Alone
            ((readBytes path).run.run cachedTruncation.1.2) cachedTruncation.2
            (some (.ok bytes, mount')) world' →
          changes.foldl (fun files change => change files) (contents renameStore) fact =
            some bytes) ∧
        ∀ ⦃size⦄, Run (Atomic (flaky Lossy)) Alone
            ((attr path).run.run cachedTruncation.1.2) cachedTruncation.2
            (some (.ok ⟨.file, size⟩, mount')) world' →
          ∃ bytes, changes.foldl (fun files change => change files) (contents renameStore) fact =
            some bytes ∧ size = bytes.length :=
  answers_durable apart_truncation trace_cachedTruncation rfl

end Example

end EventFs.Fuse
