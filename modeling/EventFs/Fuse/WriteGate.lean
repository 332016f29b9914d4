import EventFs.Fuse.Operations
import EventFs.Transport.ReplayCalls

/-!
# The write gate

A mount accepts writes while its queue is empty. Once a write is queued, nothing the
mount does changes the backend until a new mount replays the queue.
-/

namespace EventFs.Fuse

open Library Protocol Transport Program

variable {σ α β : Type} {backend : Behaviour storage σ}

/-! ## The queue and the gate -/

/-- Nothing waits, and writes are accepted. -/
structure Clear (replay : WritebackReplay) (file : List QueueEntry) : Prop where
  entries : replay.queue.entries = []
  file : file = []
  gate : replay.gate.acceptingWrites = true

/-- One entry waits, in memory and in the file, and writes are refused. -/
structure Waiting (replay : WritebackReplay) (file : List QueueEntry) : Prop where
  tracks : Tracks replay.queue.entries file
  length : replay.queue.entries.length = 1
  gate : replay.gate.acceptingWrites = false

def Guarded (replay : WritebackReplay) (file : List QueueEntry) : Prop :=
  Clear replay file ∨ Waiting replay file

theorem pendingEntries_of_pending {queue : WritebackQueue}
    (h : ∀ entry ∈ queue.entries, entry.done = false) : queue.pendingEntries = queue.entries := by
  rw [WritebackQueue.pendingEntries, List.filter_eq_self]
  intro entry hMem
  rw [h entry hMem]
  rfl

theorem Waiting.pendingLen {replay : WritebackReplay} {file : List QueueEntry}
    (h : Waiting replay file) : replay.queue.pendingLen = 1 := by
  rw [WritebackQueue.pendingLen, pendingEntries_of_pending h.tracks.queue]
  exact h.length

/-- The gate is open exactly after it has been told that nothing is pending. -/
theorem syncGate_acceptingWrites (replay : WritebackReplay) :
    replay.syncGate.1.gate.acceptingWrites = !replay.queue.hasPending := by
  unfold WritebackReplay.syncGate WritebackGate.syncPending
  cases hGate : replay.gate.acceptingWrites <;> cases replay.queue.hasPending <;>
    simp [hGate]

theorem syncGate_queue (replay : WritebackReplay) : replay.syncGate.1.queue = replay.queue := rfl

theorem guarded_syncGate {replay : WritebackReplay} {file : List QueueEntry}
    (hTracks : Tracks replay.queue.entries file) (hLength : replay.queue.entries.length ≤ 1) :
    Guarded replay.syncGate.1 file := by
  have hGate := syncGate_acceptingWrites replay
  have hPending := pendingEntries_of_pending hTracks.queue
  cases hEntries : replay.queue.entries with
  | nil =>
      refine Or.inl ⟨hEntries, ?_, ?_⟩
      · exact List.length_eq_zero_iff.mp (by rw [hTracks.length, hEntries]; rfl)
      · rw [hGate]
        simp [WritebackQueue.hasPending, WritebackQueue.pendingLen, hPending, hEntries]
  | cons entry rest =>
      refine Or.inr ⟨hTracks, ?_, ?_⟩
      · rw [syncGate_queue]
        rw [hEntries, List.length_cons] at hLength ⊢
        omega
      · rw [hGate]
        simp [WritebackQueue.hasPending, WritebackQueue.pendingLen, hPending, hEntries]

/-- A write that is queued while nothing waits is the only one that waits, unless it
could not be written to the file. -/
theorem enqueue_clear {replay replay' : WritebackReplay} {failed : FailedWrite}
    {world world' : World σ} {result : TransportResult ReplayQueueOutcome}
    (hClear : Clear replay world.file)
    (hRun : Run (Atomic backend) Alone (replay.enqueueFailedWrite failed) world
      (some (replay', result)) world') : Guarded replay' world'.file := by
  obtain ⟨⟨queue, queued⟩, between, hEnqueue, hSync⟩ := hRun.bind_some
  have hAdmitted : WritebackQueue.admitted replay.queue.entries []
      [durableEntryFromFailedWrite failed] = [durableEntryFromFailedWrite failed] := by
    simp [WritebackQueue.admitted, hClear.entries]
  rw [WritebackQueue.enqueueFailedWrite, WritebackQueue.enqueue, WritebackQueue.enqueueAll,
    hAdmitted] at hEnqueue
  simp only [List.isEmpty_cons, Bool.false_eq_true, if_false] at hEnqueue
  split at hEnqueue
  · obtain ⟨hQueue, rfl⟩ := hEnqueue.of_ret
    obtain ⟨rfl, rfl⟩ := Prod.mk.inj hQueue
    obtain ⟨hResult, rfl⟩ := hSync.of_ret
    obtain ⟨rfl, rfl⟩ := Prod.mk.inj hResult
    exact Or.inl hClear
  · obtain ⟨reply, written, hCall, hEnd⟩ := hEnqueue.of_call
    cases hCall with
    | refused err =>
        obtain ⟨hQueue, rfl⟩ := hEnd.of_ret
        obtain ⟨rfl, rfl⟩ := Prod.mk.inj hQueue
        obtain ⟨hResult, rfl⟩ := hSync.of_ret
        obtain ⟨rfl, rfl⟩ := Prod.mk.inj hResult
        exact Or.inl hClear
    | persisted =>
        obtain ⟨hQueue, rfl⟩ := hEnd.of_ret
        obtain ⟨rfl, rfl⟩ := Prod.mk.inj hQueue
        obtain ⟨hResult, rfl⟩ := hSync.of_ret
        obtain ⟨rfl, rfl⟩ := Prod.mk.inj hResult
        refine guarded_syncGate ?_ ?_
        · rw [hClear.entries]
          exact ⟨rfl, by simp [durableEntryFromFailedWrite], by simp [durableEntryFromFailedWrite]⟩
        · simp [hClear.entries]

/-- Whatever waits is replayed, and what is left of it waits. -/
theorem replay_guarded {replay replay' : WritebackReplay} {world world' : World σ}
    {result : TransportResult ReplayQueueOutcome} (h : Guarded replay world.file)
    (hRun : Run (Atomic backend) Alone replay.replay world (some (replay', result)) world') :
    Guarded replay' world'.file := by
  obtain ⟨⟨queue, queued⟩, between, hReplay, hSync⟩ := hRun.bind_some
  obtain ⟨⟨entries, outcome⟩, w, hEntries, hReturned⟩ := hReplay.bind_some
  obtain ⟨hQueue, rfl⟩ := hReturned.of_ret
  obtain ⟨rfl, rfl⟩ := Prod.mk.inj hQueue
  obtain ⟨hResult, rfl⟩ := hSync.of_ret
  obtain ⟨rfl, rfl⟩ := Prod.mk.inj hResult
  have hTracks : Tracks replay.queue.entries world.file ∧ replay.queue.entries.length ≤ 1 := by
    rcases h with hClear | hWaiting
    · rw [hClear.entries, hClear.file]
      exact ⟨⟨rfl, by simp, by simp⟩, by simp⟩
    · exact ⟨hWaiting.tracks, hWaiting.length.le⟩
  have hEnd := triple_tracks replay.queue.entries hTracks.1 hEntries
  exact guarded_syncGate hEnd.1 (hEnd.2.trans hTracks.2)

/-! ## Code that leaves the queue alone -/

/-- Any storage call, answered in any way. -/
def stores : Access io where
  issue c := ∃ call, c = .store call
  answer _ _ := True

/-- A call that looks, answered in any way. -/
def looks : Access io where
  issue := Observing
  answer _ _ := True

section Handling

variable [Serde] [Rendering] {A : Access io}

omit [Serde] [Rendering] in
theorem sameReplay_applyPathInvalidationPlan (mount : Mount) (plan : InvalidationPlan) :
    SameReplay mount (mount.applyPathInvalidationPlan plan) :=
  (onlyCaches_applyPathInvalidationPlan mount plan).sameReplay

omit [Serde] [Rendering] in
theorem sameReplay_invalidateAfterLocalMutation (mount : Mount) (path : MountPath) :
    SameReplay mount (mount.invalidateAfterLocalMutation path) :=
  (onlyCaches_invalidateAfterLocalMutation mount path).sameReplay

theorem handling_sameReplay (hObserve : Observes A) : Handling A SameReplay where
  toLooking := .of_onlyCaches hObserve fun _ _ h => h.sameReplay
  counters _ _ _ _ := rfl

omit [Serde] [Rendering] in
theorem observes_stores : Observes stores := fun call _ => ⟨call, rfl⟩

omit [Serde] [Rendering] in
theorem observes_looks : Observes looks := fun _ h => h

omit [Rendering] in
theorem keeps_executeWriteAction (action : JetStreamAction) (bytes : Bytes) (idempotencyKey : Str) :
    Keeps stores SameReplay (executeWriteAction action bytes idempotencyKey) := by
  unfold executeWriteAction
  split
  iterate 4 exact .bind (.request ⟨_, rfl⟩) fun _ => .pure _
  · split
    · exact .pure _
    · exact .bind (.request ⟨_, rfl⟩) fun _ => .pure _
  · exact .pure _

section Changing

variable {R : Mount → Mount → Prop} [Std.Refl R] [IsTrans Mount R]

omit [Serde] [Rendering] [Std.Refl R] in
theorem afterLocalUnlink (hCaches : ∀ m m', OnlyCaches m m' → R m m')
    (hPaths : ∀ mount paths, R mount { mount with paths }) (mount : Mount) (path : MountPath) :
    R mount (mount.invalidateAfterLocalUnlink path) :=
  trans_of R (hCaches _ _ (onlyCaches_invalidateAfterLocalMutation mount path)) (hPaths _ _)

omit [Serde] [Rendering] in
theorem keeps_executeUnlink (hStores : ∀ call, A.issue (.store call))
    (hCaches : ∀ m m', OnlyCaches m m' → R m m')
    (hPaths : ∀ mount paths, R mount { mount with paths }) (path : MountPath) :
    Keeps A R (executeUnlink path).run := by
  refine .andThen Handling.ensureWritesAllowed ?_
  intro _
  have hRemoved : Keeps A R
      (modify fun mount => mount.invalidateAfterLocalUnlink path : Runtime Unit).run :=
    .liftM (.modify fun mount => afterLocalUnlink hCaches hPaths mount path)
  refine .afterErrno fun parsed _ => .afterErrno fun action _ => ?_
  split
  iterate 3 exact .andThen (.requestIo (hStores _)) fun _ => hRemoved
  · exact .andThen (.throw _) fun _ => hRemoved
  · exact .andThen (.throw _) fun _ => hRemoved

omit [Serde] [Rendering] in
theorem keeps_executeMkdir (hStores : ∀ call, A.issue (.store call)) (path : MountPath) :
    Keeps A R (executeMkdir path).run := by
  have look : Observes A := fun call _ => hStores call
  refine .andThen Handling.ensureWritesAllowed ?_
  intro _
  refine .afterErrno fun parsed _ => .afterErrno fun action _ => ?_
  have hSynthetic (kind : DynamicPathKind) : Keeps A R (ensureSyntheticDirectory kind).run := by
    cases kind with
    | file => exact .throw _
    | missing => exact .throw _
    | directory => exact .pure _
  split
  · exact .requestIo (hStores _)
  · exact .andThen (look.classifyKvDynamicPath _ _) hSynthetic
  · exact .requestIo (hStores _)
  · exact .requestIo (hStores _)
  · exact .andThen (look.classifyObjectDynamicPath _ _) hSynthetic
  · exact .pure _
  · exact .throw _

end Changing

end Handling

/-! ## Every operation keeps the gate in step with the queue -/

def clear (mount : Mount) (world : World σ) : Prop := Clear mount.replay world.file

def guarded (mount : Mount) (world : World σ) : Prop := Guarded mount.replay world.file

section Leading

variable [Serde] [Rendering]

omit [Serde] [Rendering] in
theorem leads_of_sameReplay {P : WritebackReplay → List QueueEntry → Prop} {p : RuntimeM α}
    (h : Keeps stores SameReplay p) :
    Leads (Atomic backend) (fun mount world => P mount.replay world.file) p
      fun _ mount world => P mount.replay world.file := by
  refine .of_keeps (A := fun _ => stores) (R := fun _ => SameReplay)
    (J := fun origin world => world.file = origin.file) (fun _ => h) (fun _ => rfl) ?_ ?_
  · rintro origin c world r world' ⟨call, rfl⟩ hFile hCall
    cases hCall
    exact ⟨hFile, trivial⟩
  · intro a mount mount' world world' hP hReplay hFile
    rw [hReplay, hFile]
    exact hP

omit [Serde] [Rendering] in
theorem andThen_sameReplay {p : Runtime α} {f : α → Runtime β} (h : Keeps stores SameReplay p.run)
    (hNext : ∀ a, Leads (Atomic backend) clear (f a).run fun _ => guarded) :
    Leads (Atomic backend) clear (p >>= f).run fun _ => guarded := by
  refine .andThen (fun _ => clear) ?_ hNext
  refine (leads_of_sameReplay (P := Clear) h).weaken (fun _ _ h => h) ?_
  intro result mount world hClear
  cases result with
  | ok a => exact hClear
  | error errno => exact Or.inl hClear

omit [Serde] [Rendering] in
/-- Past the gate nothing waits. -/
theorem leads_pastGate {f : Unit → Runtime α}
    (hNext : Leads (Atomic backend) clear (f ()).run fun _ => guarded) :
    Leads (Atomic backend) guarded (ensureWritesAllowed >>= f).run fun _ => guarded := by
  refine .andThen (fun _ => clear) ?_ fun _ => hNext
  refine .andThen (fun mount mount' world => mount' = mount ∧ guarded mount world) ?_ ?_
  · exact .liftM (.get fun mount world h => ⟨rfl, h⟩)
  · intro mount
    split
    · next hOpen =>
      refine .pure ?_
      rintro mount' world ⟨rfl, hClear | hWaiting⟩
      · exact hClear
      · rw [hWaiting.gate] at hOpen
        cases hOpen
    · refine .throw ?_
      rintro mount' world ⟨rfl, h⟩
      exact h

omit [Serde] [Rendering] in
theorem leads_enqueueFailedWrite (failed : FailedWrite) :
    Leads (Atomic backend) clear (enqueueFailedWrite failed) fun _ => guarded := by
  refine .bind (fun mount mount' world => mount' = mount ∧ clear mount world)
    (.get fun mount world h => ⟨rfl, h⟩) ?_
  intro mount
  refine .bind (fun result _ world => Guarded result.1 world.file) ?_ ?_
  · refine .stateLift ?_
    rintro mount' world result world' ⟨rfl, hClear⟩ hRun
    exact enqueue_clear hClear hRun
  · intro result
    exact .bind (fun _ => guarded) (.modify fun _ _ h => h) fun _ => .pure fun _ _ h => h

omit [Serde] [Rendering] in
theorem leads_replayQueue :
    Leads (Atomic backend) guarded replayQueue fun _ => guarded := by
  refine .bind (fun mount mount' world => mount' = mount ∧ guarded mount world)
    (.get fun mount world h => ⟨rfl, h⟩) ?_
  intro mount
  refine .bind (fun result _ world => Guarded result.1 world.file) ?_ ?_
  · refine .stateLift ?_
    rintro mount' world result world' ⟨rfl, h⟩ hRun
    exact replay_guarded h hRun
  · intro result
    refine .bind (fun _ => guarded) (.modify fun _ _ h => h) ?_
    intro _
    refine .modify ?_
    intro mount world h
    exact (congrArg (Guarded · world.file) (sameReplay_applyPathInvalidationPlan mount _)).mpr h

omit [Serde] [Rendering] in
theorem leads_syncWritebackGate :
    Leads (Atomic backend) guarded syncWritebackGate fun _ => guarded := by
  refine .bind (fun mount mount' world => mount' = mount ∧ guarded mount world)
    (.get fun mount world h => ⟨rfl, h⟩) ?_
  intro mount
  refine .modify ?_
  rintro mount' world ⟨rfl, hClear | hWaiting⟩
  · refine guarded_syncGate ?_ ?_
    · rw [hClear.entries, hClear.file]
      exact ⟨rfl, by simp, by simp⟩
    · simp [hClear.entries]
  · exact guarded_syncGate hWaiting.tracks hWaiting.length.le

omit [Serde] [Rendering] in
theorem guarded_of_sameReplay {p : Runtime α} (h : Keeps stores SameReplay p.run) :
    Leads (Atomic backend) guarded p.run fun _ => guarded := leads_of_sameReplay h

omit [Serde] [Rendering] in
theorem clear_of_sameReplay {p : Runtime α} (h : Keeps stores SameReplay p.run) :
    Leads (Atomic backend) clear p.run fun _ => guarded :=
  (guarded_of_sameReplay h).weaken (fun _ _ h => Or.inl h) fun _ _ _ h => h

theorem leads_commitMountPathWithSeed (path : MountPath) (bytes : Bytes) (commitSeed : Str) :
    Leads (Atomic backend) guarded (commitMountPathWithSeed path bytes commitSeed).run
      fun _ => guarded := by
  refine leads_pastGate ?_
  refine andThen_sameReplay (.liftErrno _) ?_
  intro parsed
  refine andThen_sameReplay (.liftErrno _) ?_
  intro action
  refine andThen_sameReplay (.liftErrno _) ?_
  intro _
  refine andThen_sameReplay (.liftM (observes_stores.jsonlBaseSnapshot parsed action)) ?_
  intro jsonlBase
  refine andThen_sameReplay (.liftM (keeps_executeWriteAction action bytes _)) ?_
  intro written
  cases written with
  | ok _ => exact clear_of_sameReplay (.liftM (observes_stores.refreshCacheAfterWrite
      (fun _ _ h => h.sameReplay) path action bytes))
  | error err =>
      refine .andThen (fun _ => guarded) (.liftM ?_) ?_
      · refine .bind (fun _ => clear)
          (leads_of_sameReplay (P := Clear)
            (observes_stores.failedWriteOperation action bytes jsonlBase)) ?_
        intro operation
        cases operation with
        | none => exact .pure fun _ _ h => Or.inl h
        | some operation => exact leads_enqueueFailedWrite _
      · intro queued
        cases queued with
        | error err => exact .throw fun _ _ h => h
        | ok _ =>
            refine .andThen (fun _ => guarded) (.liftM (.modify ?_)) ?_
            · intro mount world h
              exact (congrArg (Guarded · world.file)
                (sameReplay_invalidateAfterLocalMutation mount path)).mpr h
            · exact fun _ => .liftM leads_syncWritebackGate

theorem handling_stores : Handling stores SameReplay := handling_sameReplay observes_stores

omit [Serde] [Rendering] in
theorem guarded_andThen {p : Runtime α} {f : α → Runtime β} (h : Keeps stores SameReplay p.run)
    (hNext : ∀ a, Leads (Atomic backend) guarded (f a).run fun _ => guarded) :
    Leads (Atomic backend) guarded (p >>= f).run fun _ => guarded :=
  .andThenSame (guarded_of_sameReplay h) hNext

theorem leads_commitHandle (fh : Nat) :
    Leads (Atomic backend) guarded (commitHandle fh).run fun _ => guarded := by
  refine guarded_andThen (.liftM (Handling.getHandle fh)) ?_
  intro handle
  cases handle with
  | none => exact .pure fun _ _ h => h
  | some handle =>
      dsimp only
      split
      · exact .pure fun _ _ h => h
      · refine .andThenSame (leads_commitMountPathWithSeed _ _ _) ?_
        intro _
        refine guarded_of_sameReplay (.andThen (.liftM (Handling.getHandle fh)) ?_)
        intro current
        cases current with
        | none => exact .pure _
        | some current => exact .liftM (handling_stores.setHandle fh _)

omit [Serde] [Rendering] in
theorem leads_executeUnlink (path : MountPath) :
    Leads (Atomic backend) guarded (executeUnlink path).run fun _ => guarded :=
  guarded_of_sameReplay
    (keeps_executeUnlink (A := stores) (fun _ => ⟨_, rfl⟩) (fun _ _ h => h.sameReplay)
    (fun _ _ => rfl) path)

omit [Serde] [Rendering] in
theorem leads_executeMkdir (path : MountPath) :
    Leads (Atomic backend) guarded (executeMkdir path).run fun _ => guarded :=
  guarded_of_sameReplay (keeps_executeMkdir (A := stores) (fun _ => ⟨_, rfl⟩) path)

theorem leads_executeMknod (path : MountPath) (mode : Nat) :
    Leads (Atomic backend) guarded (executeMknod path mode).run fun _ => guarded := by
  refine guarded_andThen Handling.ensureWritesAllowed ?_
  intro _
  split
  · exact .throw fun _ _ h => h
  · refine guarded_andThen (handling_stores.createTarget path) ?_
    intro payload
    refine guarded_andThen (.liftM handling_stores.nextCommitSeed) ?_
    intro seed
    exact .andThenSame (leads_commitMountPathWithSeed _ _ _) fun _ => .pure fun _ _ h => h

end Leading

end EventFs.Fuse
