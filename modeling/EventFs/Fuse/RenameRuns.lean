import EventFs.Fuse.RenameCapture

/-!
# Renames over crashes

A rename, run next to other clients on any mount that can be reached and cut off anywhere,
either changes nothing or queues what it has captured. What is queued is put and deleted,
however often the mount is made again and cut off.
-/

namespace EventFs.Fuse

open Library Protocol Transport Program

variable {α : Type}

/-! ## Queueing -/

def Captured.failed : Captured → FailedWriteOperation
  | .kv fromBucket fromKey value toBucket toKey =>
      .kvRenameComplete fromBucket fromKey ⟨value.revision⟩ toBucket toKey value.bytes
  | .object fromBucket fromObject version toBucket toObject =>
      .objectRenameComplete fromBucket fromObject ⟨version.sequence, version.nuid⟩ toBucket toObject
        version.bytes

theorem operation_failed (captured : Captured) :
    durableOperationFromFailedWrite (Captured.failed captured) = captured.operation := by
  cases captured <;> rfl

section Queueing

variable [Serde] {Own : Str → Prop} {C : World (List Made) → Prop} {before : List Made}
  {file : List QueueEntry} {mount : Mount} {captured : Captured} {idempotencyKey : Str}

/-- The completion of a rename has been queued. -/
def Queued (Own : Str → Prop) (before : List Made) (captured : Captured) (idempotencyKey : Str)
    (world : World (List Made)) : Prop :=
  ∃ upTo, (Grown (Looks Own) before upTo ∧ captured.AtSource (stateOf upTo)) ∧
    Completing Own captured idempotencyKey upTo world

omit [Serde] in
theorem completes_of_looks {made : Made} (h : Looks Own made) :
    Completes Own captured idempotencyKey made := by
  rw [Looks] at h
  rw [Completes]
  split at h
  · next hOwn =>
    rw [if_pos hOwn]
    exact Or.inl h
  · next hOwn =>
    rw [if_neg hOwn]
    exact h

/-- The queue in memory is in step with the file. -/
def QueuedIn (Own : Str → Prop) (before : List Made) (captured : Captured) (idempotencyKey : Str)
    (queue : List QueueEntry) (world : World (List Made)) : Prop :=
  ∃ upTo, (Grown (Looks Own) before upTo ∧ captured.AtSource (stateOf upTo)) ∧
    Opened Own captured idempotencyKey upTo queue world

theorem QueuedIn.queued {queue : List QueueEntry} {world : World (List Made)}
    (h : QueuedIn Own before captured idempotencyKey queue world) :
    Queued Own before captured idempotencyKey world := by
  obtain ⟨upTo, hUpTo, hOpened⟩ := h
  exact ⟨upTo, hUpTo, (rests_opened queue).stop world hOpened⟩

theorem rests_queuedIn {queue : List QueueEntry}
    (hC : ∀ world, Queued Own before captured idempotencyKey world → C world) :
    Rests Own C (QueuedIn Own before captured idempotencyKey queue) where
  stable := by
    rintro world world' hEnv ⟨upTo, hUpTo, hOpened⟩
    exact ⟨upTo, hUpTo, (rests_opened queue).stable hEnv hOpened⟩
  stop world h := hC world h.queued

/-- The queue after the completion was to be put into it. -/
def Enqueued (Own : Str → Prop) (before : List Made) (file : List QueueEntry) (captured : Captured)
    (idempotencyKey : Str) (queue : WritebackQueue)
    (result : WritebackQueue × TransportResult Unit) (world : World (List Made)) : Prop :=
  match result.2 with
  | .ok _ => QueuedIn Own before captured idempotencyKey result.1.entries world
  | .error _ => result.1 = queue ∧ Caught Own before file captured world

/-- The file after the completion was to be written to it. -/
def Written (Own : Str → Prop) (before : List Made) (file : List QueueEntry) (captured : Captured)
    (idempotencyKey : Str) (reply : TransportResult Unit) (world : World (List Made)) : Prop :=
  match reply with
  | .ok _ => QueuedIn Own before captured idempotencyKey
      [⟨idempotencyKey, captured.operation, 0, false⟩] world
  | .error _ => Caught Own before file captured world

theorem triple_enqueueCompletion {queue : WritebackQueue} (hEmpty : queue.entries = [])
    (hCaught : ∀ world, Unchanged Own before file world → C world)
    (hQueued : ∀ world, Queued Own before captured idempotencyKey world → C world) :
    Triple (Atomic shared) (Others Own) (Caught Own before file captured)
      (queue.enqueueFailedWrite ⟨idempotencyKey, Captured.failed captured⟩)
      (Enqueued Own before file captured idempotencyKey queue) C := by
  have hEntry : durableEntryFromFailedWrite ⟨idempotencyKey, Captured.failed captured⟩ =
      ⟨idempotencyKey, captured.operation, 0, false⟩ := by
    rw [durableEntryFromFailedWrite, operation_failed]
  have hAdmitted (entry : QueueEntry) :
      WritebackQueue.admitted queue.entries [] [entry] = [entry] := by
    simp [WritebackQueue.admitted, hEmpty]
  have hRests (result : WritebackQueue × TransportResult Unit) :
      Rests Own C (Enqueued Own before file captured idempotencyKey queue result) := by
    obtain ⟨left, reply⟩ := result
    cases reply with
    | ok _ => exact rests_queuedIn hQueued
    | error err => exact rests_same (rests_caught hCaught)
  rw [WritebackQueue.enqueueFailedWrite, WritebackQueue.enqueue, WritebackQueue.enqueueAll,
    hAdmitted, hEntry, hEmpty]
  simp only [List.isEmpty_cons, Bool.false_eq_true, if_false, List.nil_append]
  split
  · exact .ret (rests_caught hCaught).stable (fun _ h => ⟨rfl, h⟩) (rests_caught hCaught).stop
  · refine Triple.bind (Written Own before file captured idempotencyKey)
      (triple_ownPersist (rests_caught hCaught) ?_ ?_ fun _ _ h => h) ?_
    · intro reply
      cases reply with
      | ok _ => exact rests_queuedIn hQueued
      | error err => exact rests_caught hCaught
    · rintro world ⟨-, upTo, hEarlier, ⟨since, hStore, hSince⟩, hSource⟩
      refine ⟨upTo, ⟨hEarlier, hSource⟩, Or.inl ⟨⟨⟨since, hStore, ?_⟩, 0, rfl⟩, 0, rfl⟩⟩
      exact fun other hMem => completes_of_looks (hSince other hMem)
    · intro reply
      cases reply with
      | ok _ =>
          exact .ret (rests_queuedIn hQueued).stable (fun _ h => h) (rests_queuedIn hQueued).stop
      | error err =>
          exact .ret (rests_caught hCaught).stable (fun _ h => ⟨rfl, h⟩) (rests_caught hCaught).stop

/-- The mount after the completion was to be queued. -/
def EnqueuedBy (Own : Str → Prop) (before : List Made) (file : List QueueEntry)
    (captured : Captured) (idempotencyKey : Str) (mount : Mount) (succeeded : Bool) (mount' : Mount)
    (world : World (List Made)) : Prop :=
  match succeeded with
  | true => QueuedIn Own before captured idempotencyKey mount'.replay.queue.entries world
  | false => mount'.replay = mount.replay ∧ Caught Own before file captured world

theorem rests_enqueuedBy {succeeded : Bool} {mount' : Mount}
    (hCaught : ∀ world, Unchanged Own before file world → C world)
    (hQueued : ∀ world, Queued Own before captured idempotencyKey world → C world) :
    Rests Own C (EnqueuedBy Own before file captured idempotencyKey mount succeeded mount') := by
  cases succeeded with
  | true => exact rests_queuedIn hQueued
  | false => exact rests_same (rests_caught hCaught)

theorem safely_enqueueFailedWrite (hEmpty : mount.replay.queue.entries = [])
    (hCaught : ∀ world, Unchanged Own before file world → C world)
    (hQueued : ∀ world, Queued Own before captured idempotencyKey world → C world) :
    Safely Own C (Caught Own before file captured)
      (enqueueFailedWrite ⟨idempotencyKey, Captured.failed captured⟩) mount
      fun result => EnqueuedBy Own before file captured idempotencyKey mount result.isOk := by
  have hReplay : Triple (Atomic shared) (Others Own) (Caught Own before file captured)
      (mount.replay.enqueueFailedWrite ⟨idempotencyKey, Captured.failed captured⟩)
      (fun result => EnqueuedBy Own before file captured idempotencyKey mount result.2.isOk
        { mount with replay := result.1 }) C := by
    refine Triple.bind _ (triple_enqueueCompletion hEmpty hCaught hQueued) ?_
    rintro ⟨queue, reply⟩
    cases reply with
    | ok _ =>
        exact .ret (rests_queuedIn hQueued).stable (fun _ h => h) (rests_queuedIn hQueued).stop
    | error err =>
        have hRests : Rests Own C fun world =>
            queue = mount.replay.queue ∧ Caught Own before file captured world :=
          rests_same (rests_caught hCaught)
        refine .ret hRests.stable ?_ hRests.stop
        rintro world ⟨hQueue, h⟩
        obtain rfl : queue = mount.replay.queue := hQueue
        exact ⟨rfl, h⟩
  refine .getThen (.sameThen (.stateLift hReplay fun _ => rests_enqueuedBy hCaught hQueued) ?_)
  rintro ⟨replay, reply⟩
  cases reply <;>
    exact .of_ret rfl (rests_enqueuedBy hCaught hQueued) fun _ h => h

end Queueing

/-! ## The rename -/

def Captured.plan : Captured → RenamePlan
  | .kv fromBucket fromKey _ toBucket toKey => .kv fromBucket fromKey toBucket toKey
  | .object fromBucket fromObject _ toBucket toObject =>
      .object fromBucket fromObject toBucket toObject

section Renaming

variable [Serde] [Rendering] {Own : Str → Prop} {C : World (List Made) → Prop}
  {before : List Made} {file : List QueueEntry} {mount : Mount} {plan : RenamePlan}

/-- The mount after a rename with this plan was to be queued. -/
def RenameQueued (Own : Str → Prop) (before : List Made) (file : List QueueEntry)
    (plan : RenamePlan) (mount : Mount) (result : Except Errno Unit) (mount' : Mount)
    (world : World (List Made)) : Prop :=
  match result with
  | .ok _ => ∃ captured idempotencyKey, (Captured.plan captured = plan ∧ Own idempotencyKey) ∧
      QueuedIn Own before captured idempotencyKey mount'.replay.queue.entries world
  | .error _ => mount'.replay = mount.replay ∧ Unchanged Own before file world

omit [Rendering] in
theorem rests_renameQueued {result : Except Errno Unit} {mount' : Mount}
    (hUnchanged : ∀ world, Unchanged Own before file world → C world)
    (hQueued : ∀ captured idempotencyKey, Captured.plan captured = plan → Own idempotencyKey →
      ∀ world, Queued Own before captured idempotencyKey world → C world) :
    Rests Own C (RenameQueued Own before file plan mount result mount') := by
  cases result with
  | error errno => exact rests_same (rests_unchanged hUnchanged)
  | ok _ =>
      constructor
      · rintro world world' hEnv ⟨captured, idempotencyKey, ⟨hPlan, hOwn⟩, h⟩
        have hStable := (rests_queuedIn (hQueued captured idempotencyKey hPlan hOwn)).stable hEnv h
        exact ⟨captured, idempotencyKey, ⟨hPlan, hOwn⟩, hStable⟩
      · rintro world ⟨captured, idempotencyKey, ⟨hPlan, hOwn⟩, h⟩
        exact hQueued captured idempotencyKey hPlan hOwn world h.queued

/-- The captured value is put into the queue under a key made from the seed. -/
theorem safely_queueRenameCompletion {captured : Captured} (fromPath toPath : MountPath)
    (sourceGeneration : Nat) (bytes : Bytes) (seed : Str)
    (hPlan : Captured.plan captured = plan)
    (hOwn : ∀ material, Own (Rendering.idempotencyKey toPath.asStr material seed))
    (hEmpty : mount.replay.queue.entries = [])
    (hUnchanged : ∀ world, Unchanged Own before file world → C world)
    (hQueued : ∀ captured idempotencyKey, Captured.plan captured = plan → Own idempotencyKey →
      ∀ world, Queued Own before captured idempotencyKey world → C world) :
    Safely Own C (Caught Own before file captured)
      (queueRenameCompletion fromPath toPath sourceGeneration bytes seed
        (Captured.failed captured)).run mount (RenameQueued Own before file plan mount) := by
  have hQueuedHere := hQueued captured _ hPlan (hOwn
    (renameCompletionKeyMaterial fromPath.asStr sourceGeneration bytes))
  refine .liftThen _ (safely_enqueueFailedWrite hEmpty hUnchanged hQueuedHere) ?_
  intro result mount'
  cases result with
  | ok _ =>
      refine .of_ret rfl (rests_enqueuedBy hUnchanged hQueuedHere) ?_
      exact fun world h => ⟨captured, _, ⟨hPlan, hOwn _⟩, h⟩
  | error err =>
      exact .of_ret rfl (rests_enqueuedBy hUnchanged hQueuedHere) fun world h => ⟨h.1, h.2.1⟩

omit [Rendering] in
/-- What follows the capture of the source. -/
theorem safely_queueCaptured {captured : Captured} {destination : Runtime Unit}
    {queue : Str → Runtime Unit} (hDestination : Keeps looks Eq destination.run)
    (hQueue : ∀ mount' : Mount, mount'.replay = mount.replay →
      Safely Own C (Caught Own before file captured)
        (queue (mount.seedText mount.nextCommitId)).run mount'
        (RenameQueued Own before file plan mount'))
    (hUnchanged : ∀ world, Unchanged Own before file world → C world) :
    Safely Own C (Caught Own before file captured)
      (do
        destination
        let seed ← nextCommitSeed
        queue seed : Runtime Unit).run mount (RenameQueued Own before file plan mount) := by
  refine .andThen (fun _ mount' world => mount' = mount ∧ Caught Own before file captured world)
    (safely_observing hDestination (fun world h => hUnchanged world h.1) fun _ _ h hOther =>
      h.append hOther) (fun _ _ => rests_same (rests_caught hUnchanged)) ?_ ?_
  · rintro errno mount' world ⟨rfl, h⟩
    exact ⟨rfl, h.1⟩
  · intro _ mount'
    refine .assume (fun _ h => h.1) ?_
    rintro rfl
    refine .liftThen (fun seed mount'' world => (seed = mount'.seedText mount'.nextCommitId ∧
      mount''.replay = mount'.replay) ∧ Caught Own before file captured world)
      (.of_ret rfl (rests_same (rests_caught hUnchanged)) fun world h => ⟨⟨rfl, rfl⟩, h.2⟩) ?_
    intro seed mount''
    refine .assume (fun _ h => h.1) ?_
    rintro ⟨rfl, hReplay⟩
    refine (hQueue mount'' hReplay).weaken (fun _ h => h.2) ?_
    intro result last world h
    cases result with
    | ok _ => exact h
    | error errno => exact ⟨h.1.trans hReplay, h.2⟩

omit [Serde] [Rendering] in
theorem keeps_ensureRenameDestination {classify : Runtime DynamicPathKind}
    (h : Keeps looks Eq classify.run) :
    Keeps looks Eq (classify >>= ensureRenameDestination).run := by
  refine .andThen h ?_
  intro kind
  cases kind with
  | directory => exact .throw _
  | file => exact .pure _
  | missing => exact .pure _

theorem safely_queueRename (fromPath toPath : MountPath)
    (hOwn : ∀ material, Own (Rendering.idempotencyKey toPath.asStr material
      (mount.seedText mount.nextCommitId)))
    (hEmpty : mount.replay.queue.entries = [])
    (hUnchanged : ∀ world, Unchanged Own before file world → C world)
    (hQueued : ∀ captured idempotencyKey, Captured.plan captured = plan → Own idempotencyKey →
      ∀ world, Queued Own before captured idempotencyKey world → C world) :
    Safely Own C (Unchanged Own before file) (queueRename fromPath toPath plan).run mount
      (RenameQueued Own before file plan mount) := by
  have hCompletion {captured : Captured} (sourceGeneration : Nat) (bytes : Bytes)
      (hPlan : Captured.plan captured = plan) (mount' : Mount)
      (hReplay : mount'.replay = mount.replay) :
      Safely Own C (Caught Own before file captured)
        (queueRenameCompletion fromPath toPath sourceGeneration bytes
          (mount.seedText mount.nextCommitId) (Captured.failed captured)).run mount'
        (RenameQueued Own before file plan mount') :=
    safely_queueRenameCompletion fromPath toPath sourceGeneration bytes _ hPlan hOwn
      (by rw [hReplay]; exact hEmpty) hUnchanged hQueued
  cases plan with
  | kv fromBucket fromKey toBucket toKey =>
      refine .andThen _ (safely_kvRenameSource fromBucket fromKey toBucket toKey hUnchanged)
        (fun _ _ => rests_same (rests_unchanged hUnchanged)) ?_ ?_
      · rintro errno mount' world ⟨rfl, h⟩
        exact ⟨rfl, h⟩
      · intro value mount'
        refine .assume (fun _ h => h.1) ?_
        rintro rfl
        refine (safely_queueCaptured
          (keeps_ensureRenameDestination (observes_looks.classifyKvDynamicPath toBucket toKey))
          (hCompletion value.revision value.bytes rfl) hUnchanged).weaken (fun _ h => h.2)
            fun _ _ _ h => h
  | object fromBucket fromObject toBucket toObject =>
      refine .andThen _
        (safely_objectRenameSource fromBucket fromObject toBucket toObject hUnchanged)
        (fun _ _ => rests_same (rests_unchanged hUnchanged)) ?_ ?_
      · rintro errno mount' world ⟨rfl, h⟩
        exact ⟨rfl, h⟩
      · intro version mount'
        refine .assume (fun _ h => h.1) ?_
        rintro rfl
        exact (safely_queueCaptured
          (keeps_ensureRenameDestination
            (observes_looks.classifyObjectDynamicPath toBucket toObject))
          (hCompletion version.sequence version.bytes rfl) hUnchanged).weaken (fun _ h => h.2)
            fun _ _ _ h => h

end Renaming

/-! ## The replay -/

section Replaying

variable [Serde] {Own : Str → Prop} {C : World (List Made) → Prop} {before : List Made}
  {mount : Mount} {captured : Captured} {idempotencyKey : Str}

omit [Serde] in
theorem unused_of_looks {upTo : List Made} (hUnused : ∀ other ∈ before, ¬ other.call.Carries Own)
    (h : Grown (Looks Own) before upTo) : ∀ other ∈ upTo, ¬ other.call.Carries Own := by
  obtain ⟨since, rfl, hSince⟩ := h
  intro other hMem
  rcases List.mem_append.mp hMem with hEarlier | hLater
  · exact hUnused other hEarlier
  · have hLooks := hSince other hLater
    rw [Looks] at hLooks
    split at hLooks
    · rintro ⟨id, hId, -⟩
      rw [effectId_of_reads hLooks] at hId
      cases hId
    · exact hLooks

/-- Code that replays whatever the queue holds. -/
theorem triple_replay {replay : WritebackReplay} {P : World (List Made) → Prop}
    {Q : List QueueEntry → World (List Made) → Prop}
    (h : Triple (Atomic shared) (Others Own) P
      (replayEntries storeReplayExecutor replay.queue.entries) (fun result => Q result.1) C)
    (hQ : ∀ queue, Rests Own C (Q queue)) :
    Triple (Atomic shared) (Others Own) P replay.replay
      (fun result => Q result.1.queue.entries) C := by
  refine Triple.bind (fun result => Q result.1.entries) (Triple.bind _ h ?_) ?_
  · exact fun result => .ret (hQ _).stable (fun _ h => h) (hQ _).stop
  · exact fun result => .ret (hQ _).stable (fun _ h => h) (hQ _).stop

theorem safely_replayQueue {P : World (List Made) → Prop}
    {Q : List QueueEntry → World (List Made) → Prop}
    (h : Triple (Atomic shared) (Others Own) P
      (replayEntries storeReplayExecutor mount.replay.queue.entries) (fun result => Q result.1) C)
    (hQ : ∀ queue, Rests Own C (Q queue)) :
    Safely Own C P replayQueue mount fun _ mount' => Q mount'.replay.queue.entries := by
  refine .getThen (.sameThen (.stateLift (triple_replay h hQ) fun _ => hQ _) ?_)
  rintro ⟨replay, result⟩
  refine .of_ret rfl (hQ _) ?_
  intro world h
  have hReplay := (onlyCaches_applyInvalidationPlan { mount with replay } .gap).sameReplay
  rwa [hReplay]

theorem triple_replayQueued (hOwn : Own idempotencyKey)
    (hUnused : ∀ other ∈ before, ¬ other.call.Carries Own)
    (hQueued : ∀ world, Queued Own before captured idempotencyKey world → C world)
    (queue : List QueueEntry) :
    Triple (Atomic shared) (Others Own) (QueuedIn Own before captured idempotencyKey queue)
      (replayEntries storeReplayExecutor queue)
      (fun result => QueuedIn Own before captured idempotencyKey result.1) C := by
  refine Triple.exists fun upTo => Triple.assume (fun _ h => h.1) ?_
  intro hUpTo
  exact (triple_replayOpened hOwn (unused_of_looks hUnused hUpTo.1) queue).weaken
    (fun _ h => h.2) (fun _ world h => ⟨upTo, hUpTo, h⟩)
      fun world h => hQueued world ⟨upTo, hUpTo, h⟩

end Replaying

/-! ## The operation -/

section Operating

variable [Serde] [Rendering] {Own : Str → Prop} {before : List Made} {file : List QueueEntry}
  {mount : Mount} {fromPath toPath : MountPath}

/-- The rename of these paths moves what has been captured. -/
def Plans (fromPath toPath : MountPath) (captured : Captured) : Prop :=
  ∃ source target, parsePath fromPath = .ok source ∧ parsePath toPath = .ok target ∧
    planOrErrno (.rename target) source = .ok (.rename (Captured.plan captured))

/-- A value has been captured and queued. -/
def Underway (Own : Str → Prop) (before : List Made) (fromPath toPath : MountPath)
    (world : World (List Made)) : Prop :=
  ∃ captured idempotencyKey, (Plans fromPath toPath captured ∧ Own idempotencyKey) ∧
    Queued Own before captured idempotencyKey world

/-- Where a rename may be cut off. -/
def Cut (Own : Str → Prop) (before : List Made) (file : List QueueEntry)
    (fromPath toPath : MountPath) (world : World (List Made)) : Prop :=
  Unchanged Own before file world ∨ Underway Own before fromPath toPath world

/-- A value has been captured and queued, and the mount knows. -/
def UnderwayIn (Own : Str → Prop) (before : List Made) (fromPath toPath : MountPath)
    (mount : Mount) (world : World (List Made)) : Prop :=
  ∃ captured idempotencyKey, (Plans fromPath toPath captured ∧ Own idempotencyKey) ∧
    QueuedIn Own before captured idempotencyKey mount.replay.queue.entries world

/-- Where a rename may end. -/
def Renamed (Own : Str → Prop) (before : List Made) (file : List QueueEntry)
    (fromPath toPath : MountPath) (mount : Mount) (result : Except Errno Unit) (mount' : Mount)
    (world : World (List Made)) : Prop :=
  (mount'.replay = mount.replay ∧ (result = .ok () → fromPath = toPath) ∧
    Unchanged Own before file world) ∨
  (result = .ok () ∧ UnderwayIn Own before fromPath toPath mount' world)

omit [Rendering] in
theorem rests_idle : Rests Own (Cut Own before file fromPath toPath) (Unchanged Own before file) :=
  rests_unchanged fun _ h => Or.inl h

omit [Rendering] in
/-- What follows the queueing replays it. -/
theorem safely_afterQueue (hUnused : ∀ other ∈ before, ¬ other.call.Carries Own) {plan : RenamePlan}
    {f : Unit → Runtime Unit}
    (hPlan : ∀ captured, Captured.plan captured = plan → Plans fromPath toPath captured)
    (hF : ∀ mount' : Mount, ∃ last : Mount, (f ()).run.run mount' = .ret (.ok (), last) ∧
      last.replay = mount'.replay) {origin : Mount} :
    Safely Own (Cut Own before file fromPath toPath)
      (RenameQueued Own before file plan origin (.ok ()) mount)
      (liftM replayQueue >>= f : Runtime Unit).run mount
      (Renamed Own before file fromPath toPath origin) := by
  refine Triple.exists fun captured => Triple.exists fun idempotencyKey =>
    Triple.assume (fun _ h => h.1) ?_
  rintro ⟨hCaptured, hOwn⟩
  have hCut (world : World (List Made)) (h : Queued Own before captured idempotencyKey world) :
      Cut Own before file fromPath toPath world :=
    Or.inr ⟨captured, idempotencyKey, ⟨hPlan captured hCaptured, hOwn⟩, h⟩
  have hReplay := triple_replayQueued hOwn hUnused hCut mount.replay.queue.entries
  refine Safely.liftThen _ (safely_replayQueue (hReplay.weaken (fun _ h => h.2) (fun _ _ h => h)
    fun _ h => h) fun _ => rests_queuedIn hCut) ?_
  intro _ mount'
  obtain ⟨last, hLast, hSame⟩ := hF mount'
  refine .of_ret hLast (rests_queuedIn hCut) ?_
  intro world h
  refine Or.inr ⟨rfl, captured, idempotencyKey, ⟨hPlan captured hCaptured, hOwn⟩, ?_⟩
  rwa [hSame]

theorem safely_executeRename (hUnused : ∀ other ∈ before, ¬ other.call.Carries Own)
    (hOwn : ∀ material, Own (Rendering.idempotencyKey toPath.asStr material
      (mount.seedText mount.nextCommitId)))
    (hGate : mount.replay.gate.acceptingWrites = true → mount.replay.queue.entries = [])
    (flags : Nat) :
    Safely Own (Cut Own before file fromPath toPath) (Unchanged Own before file)
      (executeRename fromPath toPath flags).run mount
      (Renamed Own before file fromPath toPath mount) := by
  have hRefused (errno : Errno) (world : World (List Made)) (h : Unchanged Own before file world) :
      Renamed Own before file fromPath toPath mount (.error errno) mount world := by
    refine Or.inl ⟨rfl, ?_, h⟩
    intro hOk
    cases hOk
  refine .pastGate rests_idle hRefused ?_
  intro hOpen
  dsimp only
  split
  · exact .of_ret rfl rests_idle (hRefused .invalidInput)
  split
  · next hSame => exact .of_ret rfl rests_idle fun world h => Or.inl ⟨rfl, fun _ => hSame, h⟩
  refine .errnoThen rests_idle hRefused ?_
  intro source hSource
  refine .errnoThen rests_idle hRefused ?_
  intro target hTarget
  refine .errnoThen rests_idle hRefused ?_
  intro action hAction
  split
  · next plan =>
    have hPlan (captured : Captured) (h : Captured.plan captured = plan) :
        Plans fromPath toPath captured := by
      subst h
      exact ⟨source, target, hSource, hTarget, hAction⟩
    have hQueued (captured : Captured) (idempotencyKey : Str) (h : Captured.plan captured = plan)
        (hKey : Own idempotencyKey) (world : World (List Made))
        (hWorld : Queued Own before captured idempotencyKey world) :
        Cut Own before file fromPath toPath world :=
      Or.inr ⟨captured, idempotencyKey, ⟨hPlan captured h, hKey⟩, hWorld⟩
    refine .andThen _ (safely_queueRename fromPath toPath hOwn (hGate hOpen) (fun _ h => Or.inl h)
      hQueued) (fun _ _ => rests_renameQueued (fun _ h => Or.inl h) hQueued) ?_ ?_
    · intro errno mount' world h
      refine Or.inl ⟨h.1, ?_, h.2⟩
      intro hOk
      cases hOk
    · intro _ mount'
      refine safely_afterQueue hUnused hPlan fun last => ⟨_, rfl, ?_⟩
      have hFrom := sameReplay_invalidateAfterLocalMutation last fromPath
      have hTo := sameReplay_invalidateAfterLocalMutation
        (last.invalidateAfterLocalUnlink fromPath) toPath
      exact hTo.trans hFrom
  · exact .of_ret rfl rests_idle (hRefused .notSupported)

end Operating

end EventFs.Fuse
