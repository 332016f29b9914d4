import EventFs.Fuse.DirtyHandles
import EventFs.Fuse.PendingReads

/-!
# Runs behind the write gate

From an empty queue directory, every operation and every mount leaves at most one entry
waiting, with the gate shut exactly while one waits. Behind a shut gate every operation
only looks at the backend, and the ones that would change it are refused.
-/

namespace EventFs.Fuse

open Library Protocol Transport Program

variable {σ α β : Type} {backend : Behaviour storage σ}

/-! ## The other operations -/

section Leading

variable [Serde] [Rendering]

omit [Serde] in
theorem leads_queueRenameCompletion (fromPath toPath : MountPath) (sourceGeneration : Nat)
    (bytes : Bytes) (seed : Str) (operation : FailedWriteOperation) :
    Leads (Atomic backend) clear (queueRenameCompletion fromPath toPath sourceGeneration bytes seed
      operation).run fun _ => guarded := by
  refine .andThen (fun _ => guarded) (.liftM (leads_enqueueFailedWrite _)) ?_
  intro queued
  cases queued with
  | ok _ => exact .pure fun _ _ h => h
  | error err => exact .throw fun _ _ h => h

theorem leads_queueRename (fromPath toPath : MountPath) (plan : RenamePlan) :
    Leads (Atomic backend) clear (queueRename fromPath toPath plan).run fun _ => guarded := by
  have hSeed : Keeps stores SameReplay nextCommitSeed := handling_stores.nextCommitSeed
  cases plan with
  | kv fromBucket fromKey toBucket toKey =>
      refine andThen_sameReplay (observes_stores.kvRenameSource fromBucket fromKey) ?_
      intro entry
      refine andThen_sameReplay (observes_stores.kvRenameDestination toBucket toKey) ?_
      intro _
      refine andThen_sameReplay (.liftM hSeed) ?_
      exact fun seed => leads_queueRenameCompletion _ _ _ _ seed _
  | object fromBucket fromObject toBucket toObject =>
      refine andThen_sameReplay (observes_stores.objectRenameSource fromBucket fromObject) ?_
      intro object
      refine andThen_sameReplay (observes_stores.objectRenameDestination toBucket toObject) ?_
      intro _
      refine andThen_sameReplay (.liftM hSeed) ?_
      exact fun seed => leads_queueRenameCompletion _ _ _ _ seed _

theorem leads_executeRename (fromPath toPath : MountPath) (flags : Nat) :
    Leads (Atomic backend) guarded (executeRename fromPath toPath flags).run
      fun _ => guarded := by
  refine leads_pastGate ?_
  dsimp only
  split
  · exact clear_of_sameReplay (.throw _)
  split
  · exact clear_of_sameReplay (.pure _)
  refine andThen_sameReplay (.liftErrno _) ?_
  intro source
  refine andThen_sameReplay (.liftErrno _) ?_
  intro target
  refine andThen_sameReplay (.liftErrno _) ?_
  intro action
  split
  · next plan =>
    refine .andThenSame (leads_queueRename fromPath toPath plan) ?_
    intro _
    refine .andThen (fun _ => guarded) (.liftM leads_replayQueue) ?_
    intro _
    refine guarded_of_sameReplay (.andThen (.liftM (.modify fun mount =>
      sameReplay_invalidateAfterLocalMutation mount fromPath)) ?_)
    exact fun _ => .liftM (.modify fun mount =>
      sameReplay_invalidateAfterLocalMutation mount toPath)
  · exact clear_of_sameReplay (.throw _)

theorem leads_truncatePath (path : MountPath) :
    Leads (Atomic backend) guarded (truncatePath path).run fun _ => guarded := by
  refine guarded_andThen (.andThen (Looking.writeMode path) fun _ => .whenE (.throw _) (.pure _)) ?_
  intro _
  refine guarded_andThen (.liftM handling_stores.nextCommitSeed) ?_
  exact fun seed => leads_commitMountPathWithSeed path [] seed

theorem leads_releaseHandle (fh : Nat) :
    Leads (Atomic backend) guarded (releaseHandle fh).run fun _ => guarded := by
  refine .andThen (fun _ => guarded) (.attempt (leads_commitHandle fh)) ?_
  intro result
  exact guarded_of_sameReplay (.andThen (.liftM (handling_stores.removeHandle fh))
    fun _ => .liftErrno result)

theorem leads_operation (operation : Operation) :
    Leads (Atomic backend) guarded operation.code.run fun _ => guarded := by
  cases operation with
  | truncatePath path => exact leads_truncatePath path
  | commit fh => exact leads_commitHandle fh
  | release fh => exact leads_releaseHandle fh
  | mkdir path => exact leads_executeMkdir path
  | mknod path mode =>
      exact .andThenSame (leads_executeMknod path mode) fun _ => .pure fun _ _ h => h
  | unlink path => exact leads_executeUnlink path
  | rename fromPath toPath flags => exact leads_executeRename fromPath toPath flags
  | _ => exact guarded_of_sameReplay (keeps_ungated handling_stores (fun _ _ => rfl) id)

end Leading

/-! ## Mounting -/

/-- What the queue file holds between two mounts: at most one entry, and it waits. -/
structure Stored (file : List QueueEntry) : Prop where
  pending : ∀ entry ∈ file, entry.done = false
  length : file.length ≤ 1

theorem Stored.tracks {file : List QueueEntry} (h : Stored file) : Tracks file file :=
  ⟨rfl, h.pending, h.pending⟩

theorem Guarded.stored {replay : WritebackReplay} {file : List QueueEntry}
    (h : Guarded replay file) : Stored file := by
  rcases h with hClear | hWaiting
  · rw [hClear.file]
    exact ⟨List.forall_mem_nil _, Nat.zero_le 1⟩
  · exact ⟨hWaiting.tracks.file, (hWaiting.tracks.length.trans hWaiting.length).le⟩

theorem compactCompletedEntries_of_pending {file : List QueueEntry}
    (h : ∀ entry ∈ file, entry.done = false) :
    WritebackQueue.compactCompletedEntries file = file := by
  rw [WritebackQueue.compactCompletedEntries, List.filter_eq_self]
  intro entry hMem
  rw [h entry hMem]
  rfl

section Mounting

variable {capacity mountInstance : Nat} {mountName : Str} {world world' : World σ}

/-- A queue is opened with what the file holds, unless the file cannot be read. -/
theorem run_openQueue {result : TransportResult WritebackQueue} (hStored : Stored world.file)
    (hRun : Run (Atomic backend) Alone (WritebackQueue.open capacity).run world (some result)
      world') :
    world' = world ∧ ((∃ err, result = .error err) ∨ result = .ok ⟨capacity, world.file⟩) := by
  rw [WritebackQueue.open, ExceptT.run_bind] at hRun
  obtain ⟨reply, loaded, hLoad, hRest⟩ := hRun.bind_some
  obtain ⟨answer, _, hCall, hReturned⟩ := hLoad.of_call
  obtain ⟨rfl, rfl⟩ := hReturned.of_ret
  cases hCall with
  | loaded =>
      simp only [compactCompletedEntries_of_pending hStored.pending, ne_eq, not_true_eq_false,
        if_false] at hRest
      obtain ⟨rfl, rfl⟩ := hRest.of_ret
      exact ⟨rfl, Or.inr rfl⟩
  | unread _ err =>
      obtain ⟨rfl, rfl⟩ := hRest.of_ret
      exact ⟨rfl, Or.inl ⟨err, rfl⟩⟩

theorem run_openMount {result : TransportResult Mount} (hStored : Stored world.file)
    (hRun : Run (Atomic backend) Alone (openMount capacity mountName mountInstance).run world
      (some result) world') :
    Stored world'.file ∧
      ∀ mount, result = .ok mount → guarded mount world' ∧ mount.Consistent := by
  rw [openMount, ExceptT.run_bind] at hRun
  obtain ⟨opened, between, hOpen, hRest⟩ := hRun.bind_some
  obtain ⟨rfl, ⟨err, rfl⟩ | rfl⟩ := run_openQueue hStored hOpen
  · obtain ⟨rfl, rfl⟩ := hRest.of_ret
    exact ⟨hStored, fun mount h => by cases h⟩
  · obtain ⟨mount, after, hMount, hEnd⟩ := hRest.bind_some
    obtain ⟨rfl, rfl⟩ := hEnd.of_ret
    obtain ⟨⟨_, replayed⟩, _, hReplay, hReturned⟩ := hMount.bind_some
    obtain ⟨rfl, rfl⟩ := hReturned.of_ret
    have hFresh : guarded (Mount.new ⟨capacity, between.file⟩ mountName mountInstance) between :=
      guarded_syncGate hStored.tracks hStored.length
    have hGuarded : guarded mount world' := leads_replayQueue hFresh hReplay
    have hEmpty : (Mount.new ⟨capacity, between.file⟩ mountName mountInstance).Consistent := by
      intro fh handle hHandle
      have hNone : (∅ : Std.ExtTreeMap Nat Handle)[fh]? = some handle := hHandle
      simp at hNone
    have hConsistent : mount.Consistent :=
      consistent_of_keeps keepsHandles_replayQueue hEmpty hReplay
    refine ⟨hGuarded.stored, ?_⟩
    intro other hOther
    rw [← Except.ok.inj hOther]
    exact ⟨hGuarded, hConsistent⟩

end Mounting

/-! ## The calls of a mount -/

theorem answers_openQueue {capacity : Nat} {file : List QueueEntry} {log : Log io}
    {result : TransportResult WritebackQueue} (hStored : Stored file)
    (hLoads : ∀ entries, (⟨.load, .ok entries⟩ : Σ c : IoCall, io.Reply c) ∈ log → entries = file)
    (h : Answers (WritebackQueue.open capacity).run log result) :
    (∀ event ∈ log, event.1 = .load) ∧ ∀ queue, result = .ok queue → queue.entries = file := by
  have hLoad (reply : TransportResult (List QueueEntry)) :
      ∀ event ∈ ([⟨.load, reply⟩] : Log io), event.1 = .load := by
    intro event hEvent
    rw [List.mem_singleton.mp hEvent]
  rw [WritebackQueue.open] at h
  rcases h.of_bindExcept with ⟨err, rfl, hFailed⟩ | ⟨_, _, entries, rfl, hRead, hRest⟩
  · obtain rfl := Answers.of_perform hFailed
    exact ⟨hLoad _, fun queue hOk => by cases hOk⟩
  · obtain rfl := Answers.of_perform hRead
    obtain rfl : entries = file :=
      hLoads entries (List.mem_append_left _ (List.mem_singleton_self _))
    simp only [compactCompletedEntries_of_pending hStored.pending, ne_eq, not_true_eq_false,
      if_false] at hRest
    obtain ⟨rfl, rfl⟩ := Answers.of_pure hRest
    refine ⟨hLoad _, ?_⟩
    rintro queue ⟨⟩
    rfl

theorem Logs.of_replayQueue {mount mount' : Mount} {log : Log io} {a : Unit}
    (h : Logs replayQueue mount log a mount') :
    ∀ event ∈ log, ReplayCall mount.replay.queue.entries event.1 := by
  obtain ⟨_, _, _, _, rfl, hGet, hRest⟩ := h.of_bind
  obtain ⟨rfl, rfl, rfl⟩ := hGet.of_get
  obtain ⟨_, _, _, _, rfl, hReplay, hSet⟩ := hRest.of_bind
  obtain ⟨hAnswers, rfl⟩ := hReplay.of_stateLift
  obtain ⟨_, _, _, _, rfl, hStored, hInvalidated⟩ := hSet.of_bind
  obtain ⟨rfl, rfl⟩ := hStored.of_modify
  obtain ⟨rfl, rfl⟩ := hInvalidated.of_modify
  obtain ⟨_, _, _, rfl, hQueue, hSynced⟩ := hAnswers.of_bind
  obtain ⟨rfl, -⟩ := Answers.of_pure hSynced
  obtain ⟨_, _, _, rfl, hEntries, hReturned⟩ := hQueue.of_bind
  obtain ⟨rfl, -⟩ := Answers.of_pure hReturned
  simp only [List.nil_append, List.append_nil]
  exact (hEntries.of_all (calls_replayEntries _)).1

/-- A mount reads the queue file and replays what it holds. -/
theorem answers_openMount {capacity mountInstance : Nat} {mountName : Str}
    {file : List QueueEntry} {log : Log io} {result : TransportResult Mount}
    (hStored : Stored file)
    (hLoads : ∀ entries, (⟨.load, .ok entries⟩ : Σ c : IoCall, io.Reply c) ∈ log → entries = file)
    (h : Answers (openMount capacity mountName mountInstance).run log result) :
    ∀ event ∈ log, event.1 = .load ∨ ReplayCall file event.1 := by
  rw [openMount] at h
  rcases h.of_bindExcept with ⟨err, rfl, hFailed⟩ | ⟨first, second, queue, rfl, hOpen, hRest⟩
  · intro event hEvent
    exact Or.inl ((answers_openQueue hStored hLoads hFailed).1 event hEvent)
  · obtain ⟨hFirst, hQueue⟩ := answers_openQueue hStored
      (fun entries hMem => hLoads entries (List.mem_append_left second hMem)) hOpen
    obtain ⟨_, _, mount, rfl, hMount, hLifted⟩ := hRest.of_bind
    obtain ⟨rfl, -⟩ := Answers.of_pure hLifted
    obtain ⟨_, _, ⟨_, replayed⟩, rfl, hReplay, hReturned⟩ := hMount.of_bind
    obtain ⟨rfl, -⟩ := Answers.of_pure hReturned
    have hCalls := Logs.of_replayQueue hReplay
    intro event hEvent
    rw [List.append_nil, List.append_nil] at hEvent
    refine (List.mem_append.mp hEvent).imp (hFirst event) fun hMem => ?_
    have hCall : ReplayCall queue.entries event.1 := hCalls event hMem
    rwa [hQueue queue rfl] at hCall

/-! ## Runs -/

section Runs

variable [Serde] [Rendering] {mount mount' : Mount} {log : Log io} {result : Except Errno Unit}

/-- The operations that would change a file. A commit is one while its handle is dirty. -/
def Operation.Changes (mount : Mount) : Operation → Prop
  | .write _ _ _ | .truncateHandle _ | .truncatePath _ | .mkdir _ | .mknod _ _ | .unlink _
  | .rename _ _ _ => True
  | .commit fh | .release fh =>
      ∃ handle : Handle, mount.handles[fh]? = some handle ∧ handle.dirty = true
  | _ => False

/-- Behind a shut gate no operation changes the backend, and those that would fail. -/
theorem Logs.of_operation_shut {operation : Operation} (hShut : mount.Shut)
    (hConsistent : mount.Consistent)
    (h : Logs operation.code.run mount log result mount') :
    Looked mount log mount' ∧ (operation.Changes mount → Failed result) := by
  have hRefused (hRefuses : Refuses operation.code) :
      Looked mount log mount' ∧ (operation.Changes mount → Failed result) :=
    ⟨(hRefuses hShut h).1, fun _ => (hRefuses hShut h).2⟩
  cases operation with
  | write fh offset data => exact hRefused (.first (refuses_writeToHandleBuffer fh offset data))
  | truncateHandle fh => exact hRefused (refuses_stageTruncate fh)
  | truncatePath path => exact hRefused (refuses_truncatePath path)
  | mkdir path => exact hRefused .pastGate
  | mknod path mode => exact hRefused (.first .pastGate)
  | unlink path => exact hRefused .pastGate
  | rename fromPath toPath flags => exact hRefused .pastGate
  | commit fh =>
      obtain ⟨hLooked, hFailed⟩ := h.of_commitHandle_shut hShut
      refine ⟨hLooked, ?_⟩
      rintro ⟨handle, hHandle, hDirty⟩
      exact hFailed handle hHandle (hConsistent fh handle hHandle hDirty)
  | release fh =>
      obtain ⟨hLooked, hFailed⟩ := h.of_releaseHandle_shut hShut
      refine ⟨hLooked, ?_⟩
      rintro ⟨handle, hHandle, hDirty⟩
      exact hFailed handle hHandle (hConsistent fh handle hHandle hDirty)
  | _ => exact ⟨h.looked (keeps_ungated handling_looks (fun _ _ => rfl) id), False.elim⟩

namespace Session

/-- What every step keeps. -/
structure Kept (session : Session σ) : Prop where
  stored : Stored session.world.file
  mounted : ∀ mount, session.mount = some mount → guarded mount session.world ∧ mount.Consistent

theorem Kept.step {session session' : Session σ} (h : session.Kept)
    (hStep : Step (Atomic backend) session session') : session'.Kept := by
  cases hStep with
  | operate hRun =>
      obtain ⟨hGuarded, hConsistent⟩ := h.mounted _ rfl
      have hEnd := leads_operation _ hGuarded hRun
      refine ⟨hEnd.stored, ?_⟩
      rintro mount ⟨⟩
      exact ⟨hEnd, consistent_operation _ hConsistent hRun⟩
  | unmount mount world => exact ⟨h.stored, fun mount hMount => by cases hMount⟩
  | remount hRun =>
      obtain ⟨hStored, hMounted⟩ := run_openMount h.stored hRun
      refine ⟨hStored, ?_⟩
      rintro mount ⟨⟩
      exact hMounted _ rfl
  | refused hRun =>
      exact ⟨(run_openMount h.stored hRun).1, fun mount hMount => by cases hMount⟩

/-- The gate follows the queue, in which one write waits at most. While it waits, nothing
but a new mount, which replays it, changes the backend. -/
structure Ordered (session : Session σ) : Prop where
  gate : ∀ mount, session.mount = some mount →
    (mount.replay.gate.acceptingWrites = true ↔ mount.replay.queue.pendingEntries = [])
  single : ∀ mount, session.mount = some mount → mount.replay.queue.pendingEntries.length ≤ 1
  blocked : ∀ mount, session.mount = some mount → mount.replay.queue.pendingEntries ≠ [] →
    ∀ (operation : Operation) (log : Log io) (result : Except Errno Unit) (mount' : Mount),
      Logs operation.code.run mount log result mount' →
        Looked mount log mount' ∧ (operation.Changes mount → Failed result)
  stored : session.world.file.length ≤ 1
  replayed : ∀ (capacity mountInstance : Nat) (mountName : Str) (log : Log io)
    (result : TransportResult Mount),
      Answers (openMount capacity mountName mountInstance).run log result →
        (∀ entries, (⟨.load, .ok entries⟩ : Σ c : IoCall, io.Reply c) ∈ log →
          entries = session.world.file) →
        ∀ event ∈ log, event.1 = .load ∨ ReplayCall session.world.file event.1

theorem Kept.ordered {session : Session σ} (h : session.Kept) : session.Ordered where
  gate := by
    intro mount hMount
    rcases (h.mounted mount hMount).1 with hClear | hWaiting
    · simp [hClear.gate, WritebackQueue.pendingEntries, hClear.entries]
    · have hLength : mount.replay.queue.pendingEntries.length = 1 := hWaiting.pendingLen
      have hSome : mount.replay.queue.pendingEntries ≠ [] :=
        List.ne_nil_of_length_eq_add_one hLength
      simp [hWaiting.gate, hSome]
  single := by
    intro mount hMount
    rcases (h.mounted mount hMount).1 with hClear | hWaiting
    · simp [WritebackQueue.pendingEntries, hClear.entries]
    · exact hWaiting.pendingLen.le
  blocked := by
    intro mount hMount hPending operation log result mount' hLogs
    obtain ⟨hClear | hWaiting, hConsistent⟩ := h.mounted mount hMount
    · simp [WritebackQueue.pendingEntries, hClear.entries] at hPending
    · exact hLogs.of_operation_shut hWaiting.gate hConsistent
  stored := h.stored.length
  replayed := fun _ _ _ _ _ hAnswers hLoads => answers_openMount h.stored hLoads hAnswers

theorem kept_of_reaches {store : σ} {session : Session σ}
    (hReaches : Relation.ReflTransGen (Step (Atomic backend)) ⟨none, ⟨store, []⟩⟩ session) :
    session.Kept := by
  induction hReaches with
  | refl => exact ⟨⟨List.forall_mem_nil _, Nat.zero_le 1⟩, fun mount hMount => by cases hMount⟩
  | tail _ hStep ih => exact ih.step hStep

/-- From an empty queue directory, with a backend that answers and acts as it likes and
writes of the queue file that may be refused, every session is ordered. -/
theorem ordered_of_reaches {store : σ} {session : Session σ}
    (hReaches : Relation.ReflTransGen (Step (Atomic backend)) ⟨none, ⟨store, []⟩⟩ session) :
    session.Ordered :=
  (kept_of_reaches hReaches).ordered

end Session

end Runs

/-! ## A write that waits -/

section Example

attribute [local instance] literalSerde plainRendering

/-- A backend that fails every call. -/
def unavailable : Handler storage Unit := fun state _ => (.error .notFound, state)

def failedCall : Behaviour storage Unit := fun state call reply after =>
  (reply, after) = unavailable state call

theorem atomic_unavailable (world : World Unit) (c : IoCall) :
    Atomic failedCall world c (World.handle unavailable world c).1
      (World.handle unavailable world c).2 :=
  atomic_handle (fun _ _ => rfl) world c

def emptyMount : Mount :=
  (Mount.new ⟨8, []⟩ "events".toList 1).applyInvalidationPlan .gap

/-- `/kv/b/x` is truncated, and the write waits in the queue. -/
def truncatedSession : Session Unit :=
  let ended := eval (World.handle unavailable)
    ((Operation.truncatePath sourcePath).code.run.run emptyMount) ⟨(), []⟩
  ⟨some ended.1.2, ended.2⟩

theorem reaches_truncatedSession :
    Relation.ReflTransGen (Session.Step (Atomic failedCall)) ⟨none, ⟨(), []⟩⟩ truncatedSession := by
  have hOpened : eval (World.handle unavailable) (openMount 8 "events".toList 1).run ⟨(), []⟩ =
      (.ok emptyMount, ⟨(), []⟩) := rfl
  have hMount : Run (Atomic failedCall) Alone (openMount 8 "events".toList 1).run ⟨(), []⟩ _ _ :=
    run_eval atomic_unavailable _ _
  rw [hOpened] at hMount
  have hTruncate : Run (Atomic failedCall) Alone
      ((Operation.truncatePath sourcePath).code.run.run emptyMount) ⟨(), []⟩ _ _ :=
    run_eval atomic_unavailable _ _
  exact (Relation.ReflTransGen.single (.remount hMount)).tail (.operate hTruncate)

theorem waiting_write_ordered :
    truncatedSession.Ordered ∧ ∃ mount, truncatedSession.mount = some mount ∧
      mount.replay.queue.pendingEntries.length = 1 :=
  ⟨Session.ordered_of_reaches reaches_truncatedSession, _, rfl, by decide⟩

end Example

end EventFs.Fuse
