import EventFs.Transport.Overlaid
import EventFs.Fuse.CachedValues
import EventFs.Fuse.RenameCapture

/-!
# What a commit leaves

The in-memory storage may fail any call. A call that fails has done nothing, or it is one
of those that may take effect without being acknowledged. A commit that succeeds has put
its bytes or has left them in the queue, and settling the queue changes its file; the queue
in memory and the cache agree with the world after it. A commit that fails has changed
nothing, or its put was not acknowledged.
-/

namespace EventFs.Fuse

open Library Protocol Transport Program

variable {α β : Type}

/-! ## A storage that fails -/

section Failing

variable [Serde] {Lossy : StorageCall → Prop} {world world' : World MemoryStorage} {c : IoCall}
  {r : io.Reply c}

/-- Every call may fail, and these may take effect without being acknowledged. -/
abbrev flaky (Lossy : StorageCall → Prop) : Behaviour storage MemoryStorage :=
  Faulty MemoryStorage.handle (fun _ reply => ∃ err, reply = .error err) Lossy

/-- The storage calls among these. -/
def LossyStore (Lossy : StorageCall → Prop) (c : IoCall) : Prop :=
  ∃ call, c = .store call ∧ Lossy call

theorem unreliable_of_atomic (h : Atomic (flaky Lossy) world c r world') :
    unreliable (LossyStore Lossy) world c r world' := by
  cases h with
  | @store _ call reply store' hCall =>
      rcases hCall.inv with ⟨rfl, rfl⟩ | ⟨hFail, rfl | ⟨hLossy, rfl⟩⟩
      · exact Faulty.done (I := io) world (.store call)
      · exact Faulty.refused (I := io) world (.store call) hFail
      · exact Faulty.unacknowledged (I := io) world (.store call) ⟨call, rfl, hLossy⟩ hFail
  | persisted _ entries => exact Faulty.done (I := io) world (.persist entries)
  | refused _ entries err => exact Faulty.refused (I := io) world (.persist entries) ⟨err, rfl⟩
  | loaded _ => exact Faulty.done (I := io) world .load
  | unread _ err => exact Faulty.refused (I := io) world .load ⟨err, rfl⟩

theorem exists_refusal (world : World MemoryStorage) (c : IoCall) :
    ∃ r, Atomic (flaky Lossy) world c r world := by
  cases c with
  | store call =>
      exact ⟨.error .notFound, .store (Faulty.refused (I := storage) _ call ⟨_, rfl⟩)⟩
  | persist entries => exact ⟨.error .notFound, .refused world entries _⟩
  | load => exact ⟨.error .notFound, .unread world _⟩

theorem same_of_observing (hObserving : Observing c)
    (h : Atomic (flaky Lossy) world c r world') : world' = world := by
  cases h with
  | @store _ call reply store' hCall =>
      have hReads : call.reads = true := reads_of_observes hObserving
      rcases hCall.inv with ⟨-, rfl⟩ | ⟨-, rfl | ⟨-, rfl⟩⟩
      · rw [MemoryStorage.handle_reads hReads]
      · rfl
      · rw [MemoryStorage.handle_reads hReads]
  | persisted | refused | loaded | unread => cases hObserving

theorem truthful_of_observing (hObserving : Observing c)
    (h : Atomic (flaky Lossy) world c r world') : Truthful world.store c r := by
  cases h with
  | @store _ call reply store' hCall =>
      rcases hCall.inv with ⟨rfl, -⟩ | ⟨⟨err, rfl⟩, -⟩
      · exact .told call
      · exact .failed call err
  | persisted | refused | loaded | unread => cases hObserving

/-- Code that looks at the storage as it is leaves the world alone. -/
theorem leads_of_looks {store : MemoryStorage} {R : Mount → Mount → Prop} {p : RuntimeM α}
    {P : Mount → World MemoryStorage → Prop} {Q : α → Mount → World MemoryStorage → Prop}
    (h : Keeps (looksAt store) R p) (hStore : ∀ mount world, P mount world → world.store = store)
    (hEnd : ∀ ⦃a mount mount' world⦄, P mount world → R mount mount' → Q a mount' world) :
    Leads (Atomic (flaky Lossy)) P p Q := by
  intro mount world a mount' world' hP hRun
  have hCall : ∀ ⦃c s r t⦄, (looksAt store).issue c → s = world →
      Atomic (flaky Lossy) s c r t → t = world ∧ (looksAt store).answer c r := by
    rintro c s r t hObserving rfl hStep
    refine ⟨same_of_observing hObserving hStep, ?_⟩
    rw [← hStore mount s hP]
    exact truthful_of_observing hObserving hStep
  obtain ⟨rfl, hR⟩ := (h mount).run hCall rfl hRun
  exact hEnd hP hR

end Failing

/-! ## Keys -/

section Keys

variable [Serde] {K K' : Str → Prop} {store : MemoryStorage} {entry : QueueEntry}

/-- Only these keys have been recorded. -/
def KeysIn (K : Str → Prop) (store : MemoryStorage) : Prop :=
  ∀ id, store.applied id = true → K (id.idempotencyKey)

omit [Serde] in
theorem KeysIn.mono (h : KeysIn K store) (hK : ∀ key, K key → K' key) : KeysIn K' store :=
  fun id hApplied => hK _ (h id hApplied)

/-- An entry that would record this. -/
def EffectId.recording : EffectId → QueueEntry
  | .kv bucket key idempotencyKey => ⟨idempotencyKey, .kvPut bucket key [], 0, false⟩
  | .lines stream subject seed => ⟨seed, .publishJsonLines stream subject [] 0, 0, false⟩
  | .object bucket object idempotencyKey => ⟨idempotencyKey, .objectPut bucket object [], 0, false⟩

omit [Serde] in
theorem recorded_effectId (id : EffectId) (store : MemoryStorage) :
    (EffectId.recording id).recorded store = store.applied id := by cases id <;> rfl

omit [Serde] in
/-- What is recorded is recorded under its key. -/
theorem exists_applied (h : entry.recorded store = true) :
    ∃ id, store.applied id = true ∧ id.idempotencyKey = entry.idempotencyKey := by
  obtain ⟨key, operation, attempts, done⟩ := entry
  cases operation with
  | kvPut bucket name | materializedPut bucket name => exact ⟨.kv bucket name key, h, rfl⟩
  | kvRenameComplete _ _ _ bucket name => exact ⟨.kv bucket name key, h, rfl⟩
  | objectPut bucket name => exact ⟨.object bucket name key, h, rfl⟩
  | objectRenameComplete _ _ _ _ bucket name => exact ⟨.object bucket name key, h, rfl⟩
  | publishJsonLines stream subject => exact ⟨.lines stream subject key, h, rfl⟩

omit [Serde] in
theorem not_recorded (hKeys : KeysIn K store) (hNew : ¬ K entry.idempotencyKey) :
    entry.recorded store = false := by
  rw [← Bool.not_eq_true]
  intro hRecorded
  obtain ⟨id, hApplied, hKey⟩ := exists_applied hRecorded
  rw [← hKey] at hNew
  exact hNew (hKeys id hApplied)

/-- An entry records no key but its own. -/
theorem preserves_keysIn (hKey : K entry.idempotencyKey) : entry.Preserves (KeysIn K) := by
  intro store hKeys
  constructor
  · intro id hApplied
    by_cases hSame : id.idempotencyKey = entry.idempotencyKey
    · rw [hSame]
      exact hKey
    · have hEntry : (EffectId.recording id).idempotencyKey ≠ entry.idempotencyKey := by
        cases id <;> exact hSame
      rw [← recorded_effectId, QueueEntry.recorded_put_other hEntry, recorded_effectId] at hApplied
      exact hKeys id hApplied
  · intro id hApplied
    rw [← recorded_effectId, QueueEntry.recorded_finish, recorded_effectId] at hApplied
    exact hKeys id hApplied

end Keys

/-! ## The world after a write -/

section Writes

variable [Serde] {K : Str → Prop} {change : FileChange} {origin world : World MemoryStorage}
  {entry : QueueEntry}

/-- The files have changed like this, once the queue is settled, which the queue shows, and
only these keys are used. -/
def Makes (K : Str → Prop) (change : FileChange) (origin world : World MemoryStorage) : Prop :=
  ∃ final, Settles (KeysIn K) final world ∧ Overlaid final world.file ∧
    contents final = change.apply (contents (settled origin))

/-- The key may be used from now on. -/
def WithKey (K : Str → Prop) (key other : Str) : Prop := K other ∨ other = key

/-- An entry under a new key for one put. -/
structure NewPut (K : Str → Prop) (entry : QueueEntry) : Prop where
  pending : entry.done = false
  valid : entry.ValidPayload
  new : ¬ K entry.idempotencyKey
  nothing : ∀ store, entry.finish store = store
  current : ∀ store, entry.SourceCurrent store

theorem keysIn_withKey (hKeys : KeysIn K origin.store) (entry : QueueEntry) :
    entry.Preserves (KeysIn (WithKey K entry.idempotencyKey)) ∧
      KeysIn (WithKey K entry.idempotencyKey) origin.store :=
  ⟨preserves_keysIn (Or.inr rfl), hKeys.mono fun _ => Or.inl⟩

variable (hKeys : KeysIn K origin.store) (hEntry : NewPut K entry)

include hKeys hEntry

theorem NewPut.contents (hFile : origin.file = []) :
    contents (entry.settle origin.store) =
      (putChange entry.operation).apply (contents (settled origin)) := by
  rw [settled, hFile]
  exact contents_settle_put hEntry.pending hEntry.valid (not_recorded hKeys hEntry.new)
    hEntry.nothing

/-- The entry has been put. -/
theorem NewPut.makes_put (hFile : origin.file = []) :
    Makes (WithKey K entry.idempotencyKey) (putChange entry.operation) origin
      { origin with store := entry.putOnce origin.store } := by
  obtain ⟨hPreserves, hStart⟩ := keysIn_withKey hKeys entry
  refine ⟨_, ⟨?_, ?_, ?_, ?_⟩, hFile ▸ overlaid_nil _, hEntry.contents hKeys hFile⟩
  · rw [settled, hFile, ← QueueEntry.settle_putOnce hEntry.pending hEntry.valid,
      QueueEntry.settle_of_recorded hEntry.pending
        (QueueEntry.recorded_putOnce hEntry.valid origin.store), hEntry.nothing]
    rfl
  · rw [hFile]
    exact List.forall_mem_nil _
  · rw [hFile]
    exact List.forall_mem_nil _
  · show KeysIn _ (entry.putOnce origin.store)
    rw [QueueEntry.putOnce]
    split
    · exact hStart
    · exact (hPreserves _ hStart).1

/-- The entry waits, and it may have been put without the mount knowing. -/
theorem NewPut.makes_queued {other : QueueEntry} {store : MemoryStorage}
    (hFile : origin.file = []) (hWork : other.work = entry.work)
    (hStore : store = origin.store ∨ store = other.putOnce origin.store) :
    Makes (WithKey K entry.idempotencyKey) (putChange entry.operation) origin ⟨store, [entry]⟩ := by
  obtain ⟨hPreserves, hStart⟩ := keysIn_withKey hKeys entry
  have hSame : other.putOnce = entry.putOnce := by
    funext state
    rw [QueueEntry.putOnce, QueueEntry.putOnce, QueueEntry.recorded_of_work hWork,
      QueueEntry.put_of_work hWork]
  rw [hSame] at hStore
  refine ⟨_, ⟨?_, ?_, ?_, ?_⟩, overlaid_settle hEntry.pending
    (not_recorded hKeys hEntry.new) (hEntry.current _), hEntry.contents hKeys hFile⟩
  · rcases hStore with rfl | rfl
    · rfl
    · exact QueueEntry.settle_putOnce hEntry.pending hEntry.valid origin.store
  · exact List.forall_mem_singleton.mpr hEntry.valid
  · exact List.forall_mem_singleton.mpr hPreserves
  · rcases hStore with rfl | rfl
    · exact hStart
    · show KeysIn _ (entry.putOnce origin.store)
      rw [QueueEntry.putOnce]
      split
      · exact hStart
      · exact (hPreserves _ hStart).1

end Writes

/-! ## Code from a fixed mount and world -/

theorem Leads.exists {σ ι : Type} {B : Behaviour io σ} {P : ι → Mount → σ → Prop} {p : RuntimeM α}
    {Q : α → Mount → σ → Prop} (h : ∀ i, Leads B (P i) p Q) :
    Leads B (fun mount world => ∃ i, P i mount world) p Q := by
  rintro mount world a mount' world' ⟨i, hP⟩ hRun
  exact h i hP hRun

section Outcomes

variable [Serde] {Lossy : StorageCall → Prop} {E : Mount → World MemoryStorage → Prop}
  {origin : World MemoryStorage} {start : Mount}

/-- The world is the same, and nothing has changed but caches. -/
structure Untouched (origin : World MemoryStorage) (start mount : Mount)
    (world : World MemoryStorage) : Prop where
  world : world = origin
  handles : SameHandles start mount
  replay : mount.replay = start.replay
  cache : Rereads origin.store start.cache mount.cache

/-- A failure has changed nothing, or `E` says what it has changed. -/
def Yields (E : Mount → World MemoryStorage → Prop) (origin : World MemoryStorage) (start : Mount)
    (Q : α → Mount → World MemoryStorage → Prop) (result : Except Errno α) (mount : Mount)
    (world : World MemoryStorage) : Prop :=
  match result with
  | .ok a => Q a mount world
  | .error _ => Untouched origin start mount world ∨ E mount world

/-- The queue in memory stands for the work in the file, and what is cached is stored. -/
def Agrees (world : World MemoryStorage) (mount : Mount) : Prop :=
  world.file.map (·.work) = mount.replay.queue.entries.map (·.work) ∧
    Coherent world.store mount.cache

omit [Serde] in
theorem Untouched.refl (origin : World MemoryStorage) (start : Mount) :
    Untouched origin start start origin := ⟨rfl, ⟨rfl, rfl, rfl, rfl⟩, rfl, .refl _ _⟩

omit [Serde] in
theorem Untouched.caches {mount mount' : Mount} {world : World MemoryStorage}
    (h : Untouched origin start mount world)
    (hCaches : Rereading OnlyCaches origin.store mount mount') :
    Untouched origin start mount' world where
  world := h.world
  handles := h.handles.trans hCaches.1.sameHandles
  replay := hCaches.1.sameReplay.trans h.replay
  cache := h.cache.trans hCaches.2

omit [Serde] in
theorem Untouched.agrees {mount : Mount} {world : World MemoryStorage}
    (h : Untouched origin start mount world) (hAgrees : Agrees origin start) :
    Agrees world mount := by
  obtain ⟨rfl, -, hReplay, hCache⟩ := h
  refine ⟨?_, hAgrees.2.rereads hCache⟩
  rw [hReplay]
  exact hAgrees.1

omit [Serde] in
theorem Agrees.local {mount : Mount} {world : World MemoryStorage} (h : Agrees world mount)
    (path : MountPath) : Agrees world (mount.invalidateAfterLocalMutation path) := by
  refine ⟨?_, h.2.rereads (rereads_local world.store mount path)⟩
  have hReplay : (mount.invalidateAfterLocalMutation path).replay = mount.replay :=
    sameReplay_invalidateAfterLocalMutation mount path
  rw [hReplay]
  exact h.1

theorem untouched_of_looks {p : RuntimeM α}
    (h : Keeps (looksAt origin.store) (Rereading OnlyCaches origin.store) p) :
    Leads (Atomic (flaky Lossy)) (Untouched origin start) p fun _ => Untouched origin start :=
  leads_of_looks h (fun _ _ hStart => by rw [hStart.world]) fun _ _ _ _ hStart hCaches =>
    hStart.caches hCaches

section Yields

variable {Q : β → Mount → World MemoryStorage → Prop}

/-- Code that only looks, and what follows it. -/
theorem yields_after {p : Runtime α} {f : α → Runtime β}
    (h : Keeps (looksAt origin.store) (Rereading OnlyCaches origin.store) p.run)
    (hNext : ∀ a, Leads (Atomic (flaky Lossy)) (Untouched origin start) (f a).run
      (Yields E origin start Q)) :
    Leads (Atomic (flaky Lossy)) (Untouched origin start) (p >>= f).run
      (Yields E origin start Q) := by
  refine .andThen (fun _ => Untouched origin start) ?_ hNext
  refine (untouched_of_looks h).weaken (fun _ _ h => h) ?_
  intro result mount world hUntouched
  cases result with
  | ok a => exact hUntouched
  | error errno => exact Or.inl hUntouched

theorem yields_throw {errno : Errno} :
    Leads (Atomic (flaky Lossy)) (Untouched origin start) (throw errno : Runtime β).run
      (Yields E origin start Q) := .throw fun _ _ h => Or.inl h

theorem yields_afterErrno {result : Except Errno α} {f : α → Runtime β}
    (hNext : ∀ a, result = .ok a → Leads (Atomic (flaky Lossy)) (Untouched origin start)
      (f a).run (Yields E origin start Q)) :
    Leads (Atomic (flaky Lossy)) (Untouched origin start) (liftErrno result >>= f).run
      (Yields E origin start Q) := by
  cases result with
  | ok a => exact hNext a rfl
  | error errno => exact yields_throw

/-- Past the gate nothing waits. -/
theorem yields_pastGate {f : Unit → Runtime β} (hGuarded : Guarded start.replay origin.file)
    (hNext : Clear start.replay origin.file → Leads (Atomic (flaky Lossy))
      (Untouched origin start) (f ()).run (Yields E origin start Q)) :
    Leads (Atomic (flaky Lossy)) (Untouched origin start) (ensureWritesAllowed >>= f).run
      (Yields E origin start Q) := by
  rcases hGuarded with hClear | hWaiting
  · exact yields_after Handling.ensureWritesAllowed fun _ => hNext hClear
  · refine .andThen (fun _ _ _ => False) ?_ fun _ => .absurd fun _ _ h => h
    refine .andThen (fun found mount world => found = mount ∧ Untouched origin start mount world)
      (.liftM (.get fun mount world h => ⟨rfl, h⟩)) ?_
    intro found
    split
    · next hOpen =>
      refine .pure ?_
      rintro mount world ⟨rfl, hUntouched⟩
      rw [hUntouched.replay, hWaiting.gate] at hOpen
      cases hOpen
    · exact .throw fun _ _ h => Or.inl h.2

end Yields

end Outcomes

/-! ## Putting -/

section Putting

variable [Serde] {Lossy : StorageCall → Prop} {K : Str → Prop} {origin : World MemoryStorage}
  {start : Mount} {action : JetStreamAction} {bytes : Bytes} {key : Str}

/-- What a write under this plan puts, or leaves in the queue. -/
def writeOperation (bytes : Bytes) (appliedLines : Nat) : JetStreamAction → Option QueueOperation
  | .kvPut bucket key => some (.kvPut bucket key bytes)
  | .objectPut bucket object => some (.objectPut bucket object bytes)
  | .publishJsonLines stream subject | .materializedPut (.stream stream subject) =>
      some (.publishJsonLines stream subject bytes appliedLines)
  | .materializedPut (.kv bucket key) => some (.materializedPut bucket key bytes)
  | _ => none

/-- The entry of a write. -/
def Writes (action : JetStreamAction) (bytes : Bytes) (key : Str) (entry : QueueEntry) : Prop :=
  ∃ operation appliedLines, writeOperation bytes appliedLines action = some operation ∧
    entry = ⟨key, operation, 0, false⟩

omit [Serde] in
/-- Two entries of a write differ at most in the lines they count as applied. -/
theorem work_of_writes {entry other : QueueEntry} (hOther : Writes action bytes key other)
    (hEntry : Writes action bytes key entry) : other.work = entry.work := by
  obtain ⟨operation, appliedLines, hOperation, rfl⟩ := hEntry
  obtain ⟨operation', appliedLines', hOperation', rfl⟩ := hOther
  cases action with
  | materializedPut target => cases target <;> cases hOperation <;> cases hOperation' <;> rfl
  | _ => cases hOperation <;> cases hOperation' <;> rfl

/-- The world after the put of a write. -/
def Put (action : JetStreamAction) (bytes : Bytes) (key : Str)
    (origin world : World MemoryStorage) :
    Prop :=
  ∃ entry, Writes action bytes key entry ∧
    world = { origin with store := entry.putOnce origin.store }

/-- A put may take effect without being acknowledged. -/
def LossyPut (Lossy : StorageCall → Prop) : Prop := ∃ call, Lossy call ∧ call.effectId ≠ none

/-- The world after a failed put, which may not have been acknowledged. -/
def Unsure (Lossy : StorageCall → Prop) (action : JetStreamAction) (bytes : Bytes) (key : Str)
    (origin world : World MemoryStorage) : Prop :=
  world = origin ∨ LossyPut Lossy ∧ Put action bytes key origin world

/-- The storage has put the bytes or has failed. -/
def PutDone (Lossy : StorageCall → Prop) (action : JetStreamAction) (bytes : Bytes) (key : Str)
    (origin : World MemoryStorage) (start : Mount) (result : TransportResult Unit) (mount : Mount)
    (world : World MemoryStorage) : Prop :=
  Untouched origin start mount origin ∧
    match result with
    | .ok _ => Put action bytes key origin world
    | .error _ => Unsure Lossy action bytes key origin world

theorem leads_putCall {call : StorageCall} {entry : QueueEntry} (hKeyed : call.effectId ≠ none)
    (hEntry : Writes action bytes key entry)
    (hStore : (MemoryStorage.handle origin.store call).2 = entry.putOnce origin.store)
    (hOk : ∃ value, (MemoryStorage.handle origin.store call).1 = .ok value) :
    Leads (Atomic (flaky Lossy)) (Untouched origin start)
      (do return (← request call).map fun _ => () : RuntimeM (TransportResult Unit))
      (PutDone Lossy action bytes key origin start) := by
  refine .bind (fun reply mount world => PutDone Lossy action bytes key origin start
    (reply.map fun _ => ()) mount world) (.request ?_) fun _ => .pure fun _ _ h => h
  intro mount world reply world' hUntouched hCall
  obtain rfl := hUntouched.world
  refine ⟨hUntouched, ?_⟩
  cases hCall with
  | store hStep =>
      rcases hStep.inv with ⟨rfl, rfl⟩ | ⟨⟨err, rfl⟩, rfl | ⟨hLossy, rfl⟩⟩
      · obtain ⟨value, hValue⟩ := hOk
        rw [hValue]
        exact ⟨entry, hEntry, by rw [hStore]⟩
      · exact Or.inl rfl
      · exact Or.inr ⟨⟨call, hLossy, hKeyed⟩, entry, hEntry, by rw [hStore]⟩

theorem leads_putKv {bucket name : Str} {operation : QueueOperation}
    (hOperation : writeOperation bytes 0 action = some operation)
    (hKv : operation = .kvPut bucket name bytes ∨ operation = .materializedPut bucket name bytes) :
    Leads (Atomic (flaky Lossy)) (Untouched origin start)
      (do return (← request (.kvPutIdempotent bucket name bytes key)).map fun _ => ())
      (PutDone Lossy action bytes key origin start) := by
  have hWrites : Writes action bytes key ⟨key, operation, 0, false⟩ :=
    ⟨operation, 0, hOperation, rfl⟩
  refine leads_putCall (by rintro ⟨⟩) hWrites ?_ ?_
  · refine (MemoryStorage.kvPutIdempotent_state _ _ _ _ _).trans ?_
    rcases hKv with rfl | rfl <;> rfl
  · simp only [MemoryStorage.handle, MemoryStorage.kvPutIdempotent]
    split <;> exact ⟨_, rfl⟩

theorem leads_putObject {bucket name : Str}
    (hOperation : writeOperation bytes 0 action = some (.objectPut bucket name bytes)) :
    Leads (Atomic (flaky Lossy)) (Untouched origin start)
      (do return (← request (.objectPutIdempotent bucket name bytes key)).map fun _ => ())
      (PutDone Lossy action bytes key origin start) := by
  have hWrites : Writes action bytes key ⟨key, .objectPut bucket name bytes, 0, false⟩ :=
    ⟨_, 0, hOperation, rfl⟩
  refine leads_putCall (by rintro ⟨⟩) hWrites (MemoryStorage.objectPutIdempotent_state _ _ _ _ _) ?_
  simp only [MemoryStorage.handle, MemoryStorage.objectPutIdempotent]
  split <;> exact ⟨_, rfl⟩

theorem leads_publish {stream subject : Str}
    (hOperation : writeOperation bytes 0 action = some (.publishJsonLines stream subject bytes 0))
    (hValid : validateJsonLines subject bytes = .ok ()) :
    Leads (Atomic (flaky Lossy)) (Untouched origin start)
      (do return (← request (.publishJsonLines stream subject bytes key)).map fun _ => ())
      (PutDone Lossy action bytes key origin start) := by
  obtain ⟨lines, hLines⟩ := jsonLines_of_validateJsonLines hValid
  have hWrites :
      Writes action bytes key ⟨key, .publishJsonLines stream subject bytes 0, 0, false⟩ :=
    ⟨_, 0, hOperation, rfl⟩
  refine leads_putCall (by rintro ⟨⟩) hWrites ?_ ?_
  · refine (MemoryStorage.publishJsonLines_state _ _ _ hValid hLines).trans ?_
    simp only [QueueEntry.putOnce, QueueEntry.recorded, QueueEntry.put, hLines]
  · simp only [MemoryStorage.handle, MemoryStorage.publishJsonLines, hValid, hLines]
    split <;> exact ⟨_, rfl⟩

/-- A write that passes its check is put, or the put fails. -/
theorem leads_executeWriteAction
    (hValid : ∀ stream subject, writeOperation bytes 0 action =
      some (.publishJsonLines stream subject bytes 0) → validateJsonLines subject bytes = .ok ()) :
    Leads (Atomic (flaky Lossy)) (Untouched origin start) (executeWriteAction action bytes key)
      (PutDone Lossy action bytes key origin start) := by
  have hFails {mount : Mount} {world : World MemoryStorage} {err : TransportError}
      (h : Untouched origin start mount world) :
      PutDone Lossy action bytes key origin start (.error err) mount world := by
    obtain rfl := h.world
    exact ⟨h, Or.inl rfl⟩
  unfold executeWriteAction
  split
  · exact leads_putKv rfl (Or.inl rfl)
  · exact leads_putObject rfl
  · exact leads_publish rfl (hValid _ _ rfl)
  · exact leads_publish rfl (hValid _ _ rfl)
  · split
    · exact .pure fun _ _ h => hFails h
    · exact leads_putKv rfl (Or.inr rfl)
  · exact .pure fun _ _ h => hFails h

/-! ## Queueing -/

/-- The entry waits, in memory and in the file, and nothing else does. -/
structure WaitsAlone (entry : QueueEntry) (origin : World MemoryStorage) (start mount : Mount)
    (world : World MemoryStorage) : Prop where
  queue : mount.replay.queue.entries = [entry]
  world : world = { origin with file := [entry] }
  cache : Rereads origin.store start.cache mount.cache

/-- The entry waits alone, or it could not be written to the file. -/
def QueuedAlone (entry : QueueEntry) (origin : World MemoryStorage) (start : Mount)
    (result : TransportResult Unit) (mount : Mount) (world : World MemoryStorage) : Prop :=
  match result with
  | .ok _ => WaitsAlone entry origin start mount world
  | .error _ => Untouched origin start mount world

omit [Serde] in
theorem enqueue_alone {replay replay' : WritebackReplay} {failed : FailedWrite}
    {world world' : World MemoryStorage} {backend : Behaviour storage MemoryStorage}
    {result : TransportResult ReplayQueueOutcome} (hClear : Clear replay world.file)
    (hRun : Run (Atomic backend) Alone (replay.enqueueFailedWrite failed) world
      (some (replay', result)) world') :
    (∃ outcome, result = .ok outcome ∧
      replay'.queue.entries = [durableEntryFromFailedWrite failed] ∧
        world' = { world with file := [durableEntryFromFailedWrite failed] }) ∨
      (∃ err, result = .error err) ∧ replay' = replay ∧ world' = world := by
  obtain ⟨⟨queue, queued⟩, between, hEnqueue, hSync⟩ := hRun.bind_some
  have hAdmitted : WritebackQueue.admitted replay.queue.entries []
      [durableEntryFromFailedWrite failed] = [durableEntryFromFailedWrite failed] := by
    simp [WritebackQueue.admitted, hClear.entries]
  rw [WritebackQueue.enqueueFailedWrite, WritebackQueue.enqueue, WritebackQueue.enqueueAll,
    hAdmitted] at hEnqueue
  simp only [List.isEmpty_cons, Bool.false_eq_true, if_false] at hEnqueue
  split at hEnqueue
  · obtain ⟨hQueue, rfl⟩ := hEnqueue.of_ret
    obtain ⟨rfl, rfl⟩ := Prod.mk.inj hQueue
    obtain ⟨hResult, rfl⟩ := hSync.of_ret
    obtain ⟨rfl, rfl⟩ := Prod.mk.inj hResult
    exact Or.inr ⟨⟨_, rfl⟩, rfl, rfl⟩
  · obtain ⟨reply, written, hCall, hEnd⟩ := hEnqueue.of_call
    cases hCall with
    | refused err =>
        obtain ⟨hQueue, rfl⟩ := hEnd.of_ret
        obtain ⟨rfl, rfl⟩ := Prod.mk.inj hQueue
        obtain ⟨hResult, rfl⟩ := hSync.of_ret
        obtain ⟨rfl, rfl⟩ := Prod.mk.inj hResult
        exact Or.inr ⟨⟨_, rfl⟩, rfl, rfl⟩
    | persisted =>
        obtain ⟨hQueue, rfl⟩ := hEnd.of_ret
        obtain ⟨rfl, rfl⟩ := Prod.mk.inj hQueue
        obtain ⟨hResult, rfl⟩ := hSync.of_ret
        obtain ⟨rfl, rfl⟩ := Prod.mk.inj hResult
        have hAlone : replay.queue.entries ++ [durableEntryFromFailedWrite failed] =
            [durableEntryFromFailedWrite failed] := by rw [hClear.entries, List.nil_append]
        exact Or.inl ⟨_, rfl, hAlone, by rw [hAlone]⟩

theorem leads_enqueueAlone (hClear : Clear start.replay origin.file) (failed : FailedWrite) :
    Leads (Atomic (flaky Lossy)) (Untouched origin start) (enqueueFailedWrite failed)
      (QueuedAlone (durableEntryFromFailedWrite failed) origin start) := by
  refine .bind (fun found mount world => found = mount ∧ Untouched origin start mount world)
    (.get fun mount world h => ⟨rfl, h⟩) ?_
  intro found
  refine .bind (fun result mount world => QueuedAlone (durableEntryFromFailedWrite failed) origin
    start (result.2.map fun _ => ()) { mount with replay := result.1 } world) ?_ ?_
  · refine .stateLift ?_
    rintro mount world ⟨replay', result⟩ world' ⟨rfl, hUntouched⟩ hRun
    have hFound : Clear found.replay world.file := by
      rw [hUntouched.replay, hUntouched.world]
      exact hClear
    have hHandles := hUntouched.handles.trans (sameHandles_replay found replay')
    rcases enqueue_alone hFound hRun with ⟨outcome, rfl, hEntries, hWorld⟩ | ⟨⟨err, rfl⟩, rfl, rfl⟩
    · rw [hUntouched.world] at hWorld
      exact ⟨hEntries, hWorld, hUntouched.cache⟩
    · exact ⟨hUntouched.world, hHandles, hUntouched.replay, hUntouched.cache⟩
  · rintro ⟨replay', result⟩
    exact .bind (fun _ => QueuedAlone (durableEntryFromFailedWrite failed) origin start
      (result.map fun _ => ())) (.modify fun _ _ h => h) fun _ => .pure fun _ _ h => h

/-- What a failed write under this plan hands to the queue. -/
theorem Logs.writes_of_failedWriteOperation {mount mount' : Mount} {log : Log io}
    {jsonlBase : Option Bytes} {operation : Option FailedWriteOperation} (hWrite : IsWrite action)
    (h : Logs (failedWriteOperation action bytes jsonlBase) mount log operation mount') :
    ∃ failed, operation = some failed ∧
      Writes action bytes key (durableEntryFromFailedWrite ⟨key, failed⟩) := by
  unfold failedWriteOperation at h
  split at h
  · obtain ⟨-, rfl, -⟩ := h.of_pure
    exact ⟨_, rfl, _, 0, rfl, rfl⟩
  · obtain ⟨-, rfl, -⟩ := h.of_pure
    exact ⟨_, rfl, _, 0, rfl, rfl⟩
  · obtain ⟨_, _, appliedLines, _, rfl, -, hEnd⟩ := h.of_bind
    obtain ⟨-, rfl, -⟩ := hEnd.of_pure
    exact ⟨_, rfl, _, appliedLines, rfl, rfl⟩
  · obtain ⟨_, _, appliedLines, _, rfl, -, hEnd⟩ := h.of_bind
    obtain ⟨-, rfl, -⟩ := hEnd.of_pure
    exact ⟨_, rfl, _, appliedLines, rfl, rfl⟩
  · obtain ⟨-, rfl, -⟩ := h.of_pure
    exact ⟨_, rfl, _, 0, rfl, rfl⟩
  · next hKv hObject hLines hStream hMaterialized =>
    cases action with
    | kvPut bucket key => exact absurd rfl (hKv bucket key)
    | objectPut bucket object => exact absurd rfl (hObject bucket object)
    | publishJsonLines stream subject => exact absurd rfl (hLines stream subject)
    | materializedPut target =>
        cases target with
        | kv bucket key => exact absurd rfl (hMaterialized bucket key)
        | stream stream subject => exact absurd rfl (hStream stream subject)
    | _ => exact hWrite.elim

/-- The entry of the write waits alone, or nothing has changed. -/
def WriteQueued (action : JetStreamAction) (bytes : Bytes) (key : Str)
    (origin : World MemoryStorage) (start : Mount) (result : TransportResult Unit) (mount : Mount)
    (world : World MemoryStorage) : Prop :=
  ∃ entry, Writes action bytes key entry ∧ QueuedAlone entry origin start result mount world

theorem leads_enqueueAction (hClear : Clear start.replay origin.file) (hWrite : IsWrite action)
    (jsonlBase : Option Bytes) :
    Leads (Atomic (flaky Lossy)) (Untouched origin start) (enqueueAction action bytes key jsonlBase)
      (WriteQueued action bytes key origin start) := by
  refine .bind (fun operation mount world => Untouched origin start mount world ∧
    ∃ failed, operation = some failed ∧
      Writes action bytes key (durableEntryFromFailedWrite ⟨key, failed⟩)) ?_ ?_
  · intro mount world operation mount' world' hUntouched hRun
    obtain ⟨log, hLog⟩ := Answers.of_run hRun
    exact ⟨untouched_of_looks (observes_looksAt.failedWriteOperation action bytes jsonlBase)
      hUntouched hRun, Logs.writes_of_failedWriteOperation hWrite hLog⟩
  · intro operation
    refine .assume ?_
    rintro ⟨failed, rfl, hEntry⟩
    refine (leads_enqueueAlone hClear _).weaken (fun _ _ h => h) ?_
    exact fun result mount world h => ⟨_, hEntry, h⟩

end Putting

/-! ## A commit -/

section Commit

variable [Serde] [Rendering] {Lossy : StorageCall → Prop} {K : Str → Prop}
  {origin : World MemoryStorage} {start : Mount} {bytes : Bytes} {key : Str}

/-- The change of a write. -/
def writeOf (bytes : Bytes) : StorageFact → FileChange
  | .streamSubject stream subject =>
      .append (.streamSubject stream subject) (closedLines bytes)
  | .kv bucket key => .put (.kv bucket key) bytes
  | .object bucket name => .put (.object bucket name) bytes

/-- The change of a write to a path. -/
def writeChange (path : MountPath) (bytes : Bytes) : FileChange :=
  (factOf path).elim .keep (writeOf bytes)

omit [Serde] [Rendering] in
theorem putChange_of_writes {action : JetStreamAction} {fact : StorageFact} {entry : QueueEntry}
    (hEntry : Writes action bytes key entry) (hFact : action.fact = some fact) :
    putChange entry.operation = writeOf bytes fact := by
  obtain ⟨operation, appliedLines, hOperation, rfl⟩ := hEntry
  cases action with
  | kvPut bucket name | objectPut bucket name | publishJsonLines stream subject =>
      cases hOperation
      cases hFact
      rfl
  | materializedPut target =>
      cases target <;> cases hOperation <;> cases hFact <;> rfl
  | _ => cases hOperation

omit [Rendering] in
/-- Whether a payload passes its check does not depend on its path. -/
theorem validateJsonLines_ok_path {path path' : Str}
    (h : validateJsonLines path bytes = .ok ()) : validateJsonLines path' bytes = .ok () := by
  obtain ⟨lines, hLines⟩ := jsonLines_of_validateJsonLines h
  have hJson := fromStr_of_validateJsonLines h hLines
  rw [validateJsonLines, jsonLines_ok_path hLines]
  show validateLines path' lines = .ok ()
  clear hLines h
  induction lines with
  | nil => rfl
  | cons line rest ih =>
      rw [validateLines, hJson line List.mem_cons_self]
      exact ih fun other hMem => hJson other (List.mem_cons_of_mem line hMem)

omit [Rendering] in
theorem validLines_of_payload {path : MountPath} {action : JetStreamAction}
    (hValid : validatePayload action path bytes = .ok ()) {stream subject : Str}
    {appliedLines : Nat} (hOperation : writeOperation bytes appliedLines action =
      some (.publishJsonLines stream subject bytes appliedLines)) :
    validateJsonLines subject bytes = .ok () := by
  have hLines : (validateJsonLines path.asStr bytes).mapError (·.errno) = .ok () := by
    cases action with
    | publishJsonLines stream subject => exact hValid
    | materializedPut target =>
        cases target with
        | stream stream subject => exact hValid
        | kv bucket key => cases hOperation
    | _ => cases hOperation
  have hPath : validateJsonLines path.asStr bytes = .ok () := by
    cases hPath : validateJsonLines path.asStr bytes with
    | ok => rfl
    | error err =>
        rw [hPath] at hLines
        cases hLines
  exact validateJsonLines_ok_path hPath

omit [Rendering] in
/-- The entry of a write whose payload has been checked. -/
theorem newPut_of_writes {path : MountPath} {action : JetStreamAction} {entry : QueueEntry}
    (hValid : validatePayload action path bytes = .ok ()) (hNew : ¬ K key)
    (hEntry : Writes action bytes key entry) : NewPut K entry := by
  obtain ⟨operation, appliedLines, hOperation, rfl⟩ := hEntry
  refine ⟨rfl, ?_, hNew, ?_, ?_⟩
  · cases operation with
    | publishJsonLines stream subject sent applied =>
        obtain ⟨rfl, rfl⟩ : sent = bytes ∧ applied = appliedLines := by
          cases action with
          | publishJsonLines => cases hOperation; exact ⟨rfl, rfl⟩
          | materializedPut target => cases target <;> cases hOperation; exact ⟨rfl, rfl⟩
          | _ => cases hOperation
        exact validLines_of_payload hValid hOperation
    | _ => trivial
  · cases action with
    | materializedPut target => cases target <;> cases hOperation <;> exact fun _ => rfl
    | _ => cases hOperation <;> exact fun _ => rfl
  · cases action with
    | materializedPut target => cases target <;> cases hOperation <;> exact fun _ => trivial
    | _ => cases hOperation <;> exact fun _ => trivial

omit [Serde] [Rendering] in
theorem fact_of_write {path : MountPath} {parsed : JetStreamPath} {action : JetStreamAction}
    (hParsed : parsePath path = .ok parsed) (hPlan : planOrErrno .write parsed = .ok action) :
    ∃ fact, action.fact = some fact ∧ factOf path = some fact := by
  have hPlanned : planWrite parsed = .ok action := by
    rw [planOrErrno] at hPlan
    split at hPlan
    · next found hFound =>
      cases hPlan
      exact hFound
    · cases hPlan
  obtain ⟨fact, hFact, hPath⟩ := planWrite_fact hPlanned
  exact ⟨fact, hFact, (factOf_eq hParsed).trans hPath⟩

/-! ### The cache after a write -/

omit [Serde] [Rendering] in
theorem contents_of_isValue {fact : StorageFact}
    (hValue : ∀ stream subject, fact ≠ .streamSubject stream subject) (store : MemoryStorage) :
    contents store fact = store.value fact := by
  cases fact with
  | kv | object => rfl
  | streamSubject stream subject => exact absurd rfl (hValue stream subject)

omit [Serde] [Rendering] in
/-- A change of one file, once it has been invalidated, leaves a coherent cache. -/
theorem coherent_of_change {store store' : MemoryStorage} {before after : Mount} {path : MountPath}
    {fact : StorageFact} (h : Coherent store before.cache)
    (hCache : Rereads store' before.cache after.cache) (hFact : factOf path = some fact)
    (hOthers : ∀ other, other ≠ fact → contents store' other = contents store other) :
    Coherent store' (after.invalidateAfterLocalMutation path).cache := by
  refine coherent_local hFact ?_
  intro shown other entry hShown hOther hCached
  rcases hCache hShown hCached with hEarlier | hStored
  · rw [← contents_of_isValue hShown.isValue, hOthers other hOther,
      contents_of_isValue hShown.isValue]
    exact h hShown hEarlier
  · exact hStored

omit [Serde] [Rendering] in
theorem apply_writeOf_other {fact other : StorageFact} (files : Files) (hOther : other ≠ fact) :
    (writeOf bytes fact).apply files other = files other := by
  cases fact <;> exact Function.update_of_ne hOther _ _

omit [Serde] [Rendering] in
theorem apply_writeOf_value {fact : StorageFact} (files : Files)
    (hValue : ∀ stream subject, fact ≠ .streamSubject stream subject) :
    (writeOf bytes fact).apply files fact = some bytes := by
  cases fact with
  | kv | object => exact Function.update_self _ _ _
  | streamSubject stream subject => exact absurd rfl (hValue stream subject)

omit [Rendering] in
/-- What is read back after a write is what is stored. -/
theorem stored_cacheEntryAfterWrite {store : MemoryStorage} {path : MountPath}
    {action : JetStreamAction} (hFact : ∀ fact, HoldsValue path fact → action.fact = some fact)
    (hStored : ∀ fact, HoldsValue path fact → store.value fact = some bytes) (mount : Mount) :
    Under (looksAt store) (fun result => result.2 = mount ∧
      ∀ entry, result.1 = .ok (some entry) → StoredEntry store path entry)
      ((cacheEntryAfterWrite path action bytes).run mount) := by
  have hRead {bucket key : Str} {value : KeyRevision} (hKey : action.fact = some (.kv bucket key))
      (hFound : store.kv[(bucket, key)]? = some value) (fact : StorageFact)
      (hHolds : HoldsValue path fact) : store.value fact = some value.bytes := by
    obtain rfl : StorageFact.kv bucket key = fact :=
      Option.some.inj (hKey.symm.trans (hFact fact hHolds))
    simp [MemoryStorage.value, hFound]
  unfold cacheEntryAfterWrite
  split
  · refine ⟨rfl, fun reply hReply => ⟨rfl, fun entry hEntry => ?_⟩⟩
    cases hReply with
    | failed err => cases hEntry
    | told =>
        obtain ⟨value, hFound, rfl⟩ := Option.map_eq_some_iff.mp (Except.ok.inj hEntry)
        exact ⟨rfl, hRead rfl hFound⟩
  · refine ⟨rfl, fun reply hReply => ⟨rfl, fun entry hEntry => ?_⟩⟩
    cases hReply with
    | failed err => cases hEntry
    | told =>
        obtain ⟨_, -, rfl⟩ := Option.map_eq_some_iff.mp (Except.ok.inj hEntry)
        exact ⟨rfl, hStored⟩
  · refine ⟨rfl, fun reply hReply => ⟨rfl, fun entry hEntry => ?_⟩⟩
    cases hReply with
    | failed err => cases hEntry
    | told =>
        obtain ⟨value, hFound, rfl⟩ := Option.map_eq_some_iff.mp (Except.ok.inj hEntry)
        exact ⟨rfl, hRead rfl hFound⟩
  · exact ⟨rfl, fun entry hEntry => by cases hEntry⟩

omit [Rendering] in
/-- The cache after a write has lost the paths of its file, and may have gained one again. -/
theorem keeps_refreshCache {store : MemoryStorage} {path : MountPath} {action : JetStreamAction}
    (hFact : ∀ fact, HoldsValue path fact → action.fact = some fact)
    (hStored : ∀ fact, HoldsValue path fact → store.value fact = some bytes) :
    Keeps (looksAt store) (fun mount mount' =>
        Rereading OnlyCaches store (mount.invalidateAfterLocalWrite path) mount')
      (refreshCacheAfterWrite path action bytes) := by
  intro mount
  refine (stored_cacheEntryAfterWrite hFact hStored (mount.invalidateAfterLocalWrite path)).bind ?_
  rintro ⟨outcome, mount'⟩ ⟨rfl, hEntry⟩
  have hSame : Rereading OnlyCaches store (mount.invalidateAfterLocalWrite path)
      (mount.invalidateAfterLocalWrite path) := refl_of (Rereading OnlyCaches store) _
  cases outcome with
  | error err => exact hSame
  | ok entry =>
      cases entry with
      | none => exact hSame
      | some entry => exact ⟨rfl, rereads_insert (hEntry entry rfl) _⟩

/-! ### The commit -/

/-- Under a new key, the file of the path has been written, once the queue is settled. -/
def Committed (K : Str → Prop) (key : Str) (path : MountPath) (bytes : Bytes)
    (origin world : World MemoryStorage) : Prop :=
  KeysIn K origin.store → ¬ K key → Makes (WithKey K key) (writeChange path bytes) origin world

/-- Under a new key, the mount agrees with the world after the commit. -/
def Refreshes (K : Str → Prop) (key : Str) (origin : World MemoryStorage) (start mount : Mount)
    (world : World MemoryStorage) : Prop :=
  KeysIn K origin.store → ¬ K key → Agrees origin start → Agrees world mount

omit [Serde] [Rendering] in
theorem Untouched.trans {between mount : Mount} {world : World MemoryStorage}
    (hFirst : Untouched origin start between origin)
    (hSecond : Untouched origin between mount world) : Untouched origin start mount world where
  world := hSecond.world
  handles := hFirst.handles.trans hSecond.handles
  replay := hSecond.replay.trans hFirst.replay
  cache := hFirst.cache.trans hSecond.cache

/-- A write whose plan and payload have been checked, to this file. -/
structure Checked (action : JetStreamAction) (path : MountPath) (bytes : Bytes)
    (fact : StorageFact) :
    Prop where
  planned : action.fact = some fact
  shown : factOf path = some fact
  isWrite : IsWrite action
  valid : validatePayload action path bytes = .ok ()

omit [Rendering] in
theorem checked_of_plan {path : MountPath} {parsed : JetStreamPath} {action : JetStreamAction}
    (hParsed : parsePath path = .ok parsed) (hPlan : planOrErrno .write parsed = .ok action)
    (hValid : validatePayload action path bytes = .ok ()) :
    ∃ fact, Checked action path bytes fact := by
  obtain ⟨fact, hPlanned, hShown⟩ := fact_of_write hParsed hPlan
  exact ⟨fact, hPlanned, hShown, isWrite_of_planOrErrno hPlan, hValid⟩

namespace Checked

variable {action : JetStreamAction} {path : MountPath} {fact : StorageFact} {entry : QueueEntry}
  {world : World MemoryStorage} {mount : Mount}

omit [Rendering] in
theorem change (h : Checked action path bytes fact) :
    writeChange path bytes = writeOf bytes fact := by
  rw [writeChange, h.shown]
  rfl

omit [Rendering] in
theorem newPut (h : Checked action path bytes fact) (hEntry : Writes action bytes key entry)
    (hNew : ¬ K key) : NewPut K entry ∧ entry.idempotencyKey = key ∧
      putChange entry.operation = writeChange path bytes := by
  refine ⟨newPut_of_writes h.valid hNew hEntry, ?_, ?_⟩
  · obtain ⟨operation, appliedLines, -, rfl⟩ := hEntry
    rfl
  · rw [h.change]
    exact putChange_of_writes hEntry h.planned

omit [Rendering] in
theorem committed (h : Checked action path bytes fact) (hFile : origin.file = [])
    (hPut : Put action bytes key origin world) : Committed K key path bytes origin world := by
  obtain ⟨entry, hEntry, rfl⟩ := hPut
  intro hKeys hNew
  obtain ⟨hPut, hKey, hChange⟩ := h.newPut hEntry hNew
  rw [← hChange, ← hKey]
  exact hPut.makes_put hKeys hFile

omit [Rendering] in
theorem contents_putOnce (h : Checked action path bytes fact)
    (hEntry : Writes action bytes key entry)
    (hKeys : KeysIn K origin.store) (hNew : ¬ K key) :
    contents (entry.putOnce origin.store) = (writeOf bytes fact).apply (contents origin.store) := by
  obtain ⟨hPut, hKey, hChange⟩ := h.newPut hEntry hNew
  have hRecorded : entry.recorded origin.store = false := not_recorded hKeys hPut.new
  rw [QueueEntry.putOnce, hRecorded, if_neg Bool.false_ne_true, contents_put hPut.valid, hChange,
    h.change]

omit [Rendering] in
/-- The put has been made, and the cache forgets the file and may read it again. -/
theorem leads_refreshed (h : Checked action path bytes fact) (hFile : origin.file = []) :
    Leads (Atomic (flaky Lossy)) (PutDone Lossy action bytes key origin start (.ok ()))
      (refreshCacheAfterWrite path action bytes) fun _ mount world =>
        Committed K key path bytes origin world ∧ Refreshes K key origin start mount world := by
  by_cases hFresh : KeysIn K origin.store ∧ ¬ K key
  · obtain ⟨hKeys, hNew⟩ := hFresh
    have hExists : Leads (Atomic (flaky Lossy)) (fun mount world => ∃ entry,
        (Untouched origin start mount origin ∧
          world = { origin with store := entry.putOnce origin.store }) ∧
          Writes action bytes key entry) (refreshCacheAfterWrite path action bytes)
        fun _ mount world =>
          Committed K key path bytes origin world ∧ Refreshes K key origin start mount world := by
      refine .exists fun entry => .assume fun hEntry => ?_
      have hContents := h.contents_putOnce hEntry hKeys hNew
      have hPlanned (other : StorageFact) (hHolds : HoldsValue path other) :
          action.fact = some other := by rw [h.planned, ← h.shown, hHolds.isFact]
      have hStored (other : StorageFact) (hHolds : HoldsValue path other) :
          (entry.putOnce origin.store).value other = some bytes := by
        obtain rfl : other = fact := Option.some.inj (hHolds.isFact.symm.trans h.shown)
        rw [← contents_of_isValue hHolds.isValue, hContents]
        exact apply_writeOf_value _ hHolds.isValue
      refine leads_of_looks (keeps_refreshCache hPlanned hStored) (fun mount world hP => by
        rw [hP.2]) ?_
      rintro _ mount mount' world ⟨hUntouched, rfl⟩ ⟨hOnly, hRereads⟩
      refine ⟨h.committed hFile ⟨entry, hEntry, rfl⟩, fun _ _ hAgrees => ?_⟩
      have hBefore : Agrees origin mount := hUntouched.agrees hAgrees
      have hCoherent : Coherent (entry.putOnce origin.store)
          (mount.invalidateAfterLocalWrite path).cache := by
        refine coherent_of_change hBefore.2 (.refl _ _) h.shown fun other hOther => ?_
        rw [hContents, apply_writeOf_other _ hOther]
      have hReplay : mount'.replay = mount.replay :=
        hOnly.sameReplay.trans (sameReplay_invalidateAfterLocalMutation mount path)
      refine ⟨?_, hCoherent.rereads hRereads⟩
      rw [hReplay]
      exact hBefore.1
    refine hExists.weaken ?_ fun _ _ _ h => h
    rintro mount world ⟨hUntouched, entry, hEntry, rfl⟩
    exact ⟨entry, ⟨hUntouched, rfl⟩, hEntry⟩
  · intro mount world _ mount' world' _ _
    exact ⟨fun hKeys hNew => absurd ⟨hKeys, hNew⟩ hFresh,
      fun hKeys hNew => absurd ⟨hKeys, hNew⟩ hFresh⟩

omit [Rendering] in
/-- The entry waits, and the cache has forgotten the file. -/
theorem waits (h : Checked action path bytes fact) (hFile : origin.file = []) {before : Mount}
    {left : World MemoryStorage} (hBefore : Untouched origin start before origin)
    (hLeft : Unsure Lossy action bytes key origin left) (hEntry : Writes action bytes key entry)
    (hWaits : WaitsAlone entry left before mount world) :
    Committed K key path bytes origin world ∧
      Refreshes K key origin start (mount.invalidateAfterLocalWrite path) world := by
  obtain ⟨hQueue, rfl, hCache⟩ := hWaits
  constructor
  · intro hKeys hNew
    obtain ⟨hPut, hKey, hChange⟩ := h.newPut hEntry hNew
    rw [← hChange, ← hKey]
    rcases hLeft with rfl | ⟨-, other, hOther, rfl⟩
    · exact hPut.makes_queued hKeys hFile rfl (Or.inl rfl)
    · exact hPut.makes_queued hKeys hFile (work_of_writes hOther hEntry) (Or.inr rfl)
  · intro hKeys hNew hAgrees
    constructor
    · have hReplay : (mount.invalidateAfterLocalWrite path).replay = mount.replay :=
        sameReplay_invalidateAfterLocalMutation mount path
      rw [hReplay, hQueue]
    · refine coherent_of_change (hBefore.agrees hAgrees).2 hCache h.shown fun other hOther => ?_
      rcases hLeft with rfl | ⟨-, put, hPut, rfl⟩
      · rfl
      · exact (congrFun (h.contents_putOnce hPut hKeys hNew) other).trans
          (apply_writeOf_other _ hOther)

end Checked

omit [Rendering] in
theorem leads_syncGate {P : Mount → World MemoryStorage → Prop}
    (hP : ∀ mount world, P mount world → P { mount with replay := mount.replay.syncGate.1 } world) :
    Leads (Atomic (flaky Lossy)) P syncWritebackGate fun _ => P := by
  refine .bind (fun found mount world => P mount world ∧ found = mount)
    (.get fun mount world h => ⟨h, rfl⟩) fun found => .modify ?_
  rintro mount world ⟨h, rfl⟩
  exact hP found world h

/-- A commit that succeeds has written its file. One that fails has changed nothing, or it
has written its file without knowing. -/
theorem leads_commit (hGuarded : Guarded start.replay origin.file) (path : MountPath)
    (bytes : Bytes) (commitSeed : Str) :
    Leads (Atomic (flaky Lossy)) (Untouched origin start)
      (commitMountPathWithSeed path bytes commitSeed).run
      (Yields (fun _ world => LossyPut Lossy ∧ Committed K
          (Rendering.idempotencyKey path.asStr bytes commitSeed) path bytes origin world)
        origin start fun _ mount world => Committed K
            (Rendering.idempotencyKey path.asStr bytes commitSeed) path bytes origin world ∧
          Refreshes K (Rendering.idempotencyKey path.asStr bytes commitSeed) origin start mount
            world) := by
  let key := Rendering.idempotencyKey path.asStr bytes commitSeed
  refine yields_pastGate hGuarded fun hClear => ?_
  refine yields_afterErrno fun parsed hParsed => ?_
  refine yields_afterErrno fun action hPlan => ?_
  refine yields_afterErrno fun _ hValid => ?_
  obtain ⟨fact, hChecked⟩ := checked_of_plan hParsed hPlan hValid
  refine yields_after (.liftM (observes_looksAt.jsonlBaseSnapshot parsed action))
    fun jsonlBase => ?_
  refine .andThen _ (.liftM (leads_executeWriteAction fun stream subject hOperation =>
    validLines_of_payload hValid hOperation)) ?_
  intro written
  cases written with
  | ok _ => exact .liftM (hChecked.leads_refreshed hClear.file)
  | error err =>
      have hStart (mount : Mount) (world : World MemoryStorage)
          (h : PutDone Lossy action bytes key origin start (.error err) mount world) :
          ∃ before left, Untouched left before mount world ∧
            Untouched origin start before origin ∧ Unsure Lossy action bytes key origin left :=
        ⟨mount, world, .refl world mount, h⟩
      refine Leads.weaken ?_ hStart fun _ _ _ h => h
      refine .exists fun before => .exists fun left => .assume ?_
      rintro ⟨hBefore, hLeft⟩
      have hLeftClear : Clear before.replay left.file := by
        rw [hBefore.replay]
        rcases hLeft with rfl | ⟨-, entry, -, rfl⟩ <;> exact hClear
      refine .andThen (fun queued mount world => ∃ entry, Writes action bytes key entry ∧
          QueuedAlone entry left before queued mount world)
        (.liftM (leads_enqueueAction hLeftClear hChecked.isWrite jsonlBase)) ?_
      intro queued
      cases queued with
      | error err =>
          refine .throw ?_
          rintro mount world ⟨entry, -, hUntouched⟩
          rcases hLeft with rfl | ⟨hLossy, hPut⟩
          · exact Or.inl (hBefore.trans hUntouched)
          · rw [← hUntouched.world] at hPut
            exact Or.inr ⟨hLossy, hChecked.committed hClear.file hPut⟩
      | ok _ =>
          refine .andThen (fun _ mount world => Committed K key path bytes origin world ∧
            Refreshes K key origin start mount world) (.liftM (.modify ?_)) ?_
          · rintro mount world ⟨entry, hEntry, hWaits⟩
            exact hChecked.waits hClear.file hBefore hLeft hEntry hWaits
          · exact fun _ => .liftM (leads_syncGate fun _ _ h => h)

end Commit

end EventFs.Fuse
