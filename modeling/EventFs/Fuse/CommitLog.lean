import EventFs.Fuse.Logs
import EventFs.Fuse.WriteGate

/-!
# What a commit sends

A commit of some bytes under a key looks at the backend, sends these bytes under this key
to the backend and, where the backend fails, as a new last record to the queue file. It
sends nothing else, and it does not touch the handles.
-/

namespace EventFs.Fuse

open Library Protocol Transport Program

variable {α : Type} {mount mount' : Mount} {log : Log io}

/-! ## What stays the same -/

/-- The handles are the same, and the next seed is. -/
structure SameHandles (mount mount' : Mount) : Prop where
  handles : mount'.handles = mount.handles
  nextCommitId : mount'.nextCommitId = mount.nextCommitId
  mountName : mount'.mountName = mount.mountName
  mountInstance : mount'.mountInstance = mount.mountInstance

theorem OnlyCaches.sameHandles (h : OnlyCaches mount mount') : SameHandles mount mount' := by
  rw [h]
  exact ⟨rfl, rfl, rfl, rfl⟩

theorem SameHandles.trans {third : Mount} (h : SameHandles mount mount')
    (h' : SameHandles mount' third) : SameHandles mount third where
  handles := h'.handles.trans h.handles
  nextCommitId := h'.nextCommitId.trans h.nextCommitId
  mountName := h'.mountName.trans h.mountName
  mountInstance := h'.mountInstance.trans h.mountInstance

theorem sameHandles_replay (mount : Mount) (replay : WritebackReplay) :
    SameHandles mount { mount with replay } := ⟨rfl, rfl, rfl, rfl⟩

theorem Logs.of_looks {p : RuntimeM α} {a : α} (h : Keeps looks OnlyCaches p)
    (hLogs : Logs p mount log a mount') :
    (∀ event ∈ log, Observing event.1) ∧ OnlyCaches mount mount' :=
  hLogs.of_keeps h fun _ _ => trivial

/-! ## What is sent -/

/-- The bytes of a write that waits in the queue. -/
def payload : QueueOperation → Bytes
  | .kvPut _ _ bytes | .kvRenameComplete _ _ _ _ _ bytes | .objectPut _ _ bytes
  | .objectRenameComplete _ _ _ _ _ _ bytes | .publishJsonLines _ _ bytes _
  | .materializedPut _ _ bytes => bytes

/-- A call that sends these bytes under this key: to the backend, or to the queue file
after the entries that wait already. -/
def Delivers (queue : List QueueEntry) (bytes : Bytes) (key : Str) : IoCall → Prop
  | .store (.kvPutIdempotent _ _ sent sentKey) | .store (.objectPutIdempotent _ _ sent sentKey)
  | .store (.publishJsonLines _ _ sent sentKey) => sent = bytes ∧ sentKey = key
  | .persist entries =>
      ∃ operation, payload operation = bytes ∧ entries = queue ++ [⟨key, operation, 0, false⟩]
  | _ => False

/-- The call was answered, and not with an error. -/
def Taken (event : Σ c : IoCall, io.Reply c) : Prop := ¬ Fails event.1 event.2

/-- All that these calls send are these bytes under this key. -/
def Sends (queue : List QueueEntry) (bytes : Bytes) (key : Str) (log : Log io) : Prop :=
  ∀ event ∈ log, Observing event.1 ∨ Delivers queue bytes key event.1

/-- They are sent, and taken by the backend or by the queue file; or they were queued
under the same key before. -/
def Arrives (queue : List QueueEntry) (bytes : Bytes) (key : Str) (log : Log io) : Prop :=
  (∃ event ∈ log, Delivers queue bytes key event.1 ∧ Taken event) ∨
    ∃ entry ∈ queue, entry.idempotencyKey = key

variable {queue : List QueueEntry} {bytes : Bytes} {key : Str}

theorem Sends.append {first second : Log io} (h : Sends queue bytes key first)
    (h' : Sends queue bytes key second) : Sends queue bytes key (first ++ second) := by
  intro event hEvent
  exact (List.mem_append.mp hEvent).elim (h event) (h' event)

theorem sends_of_observing (h : ∀ event ∈ log, Observing event.1) : Sends queue bytes key log :=
  fun event hEvent => Or.inl (h event hEvent)

theorem Arrives.append_left {first second : Log io} (h : Arrives queue bytes key second) :
    Arrives queue bytes key (first ++ second) := by
  rcases h with ⟨event, hMem, hEvent⟩ | hQueued
  · exact Or.inl ⟨event, List.mem_append_right first hMem, hEvent⟩
  · exact Or.inr hQueued

theorem Arrives.append_right {first second : Log io} (h : Arrives queue bytes key first) :
    Arrives queue bytes key (first ++ second) := by
  rcases h with ⟨event, hMem, hEvent⟩ | hQueued
  · exact Or.inl ⟨event, List.mem_append_left second hMem, hEvent⟩
  · exact Or.inr hQueued

/-- One call of the backend that sends the bytes. -/
theorem Logs.of_write {call : StorageCall} {result : TransportResult Unit}
    (h : Logs (do return (← request call).map fun _ => () : RuntimeM (TransportResult Unit))
      mount log result mount') (hCall : Delivers queue bytes key (.store call)) :
    mount' = mount ∧ Sends queue bytes key log ∧
      (result = .ok () → Arrives queue bytes key log) := by
  obtain ⟨first, second, reply, between, rfl, hRequest, hEnd⟩ := h.of_bind
  obtain ⟨rfl, rfl⟩ := hRequest.of_request
  obtain ⟨rfl, rfl, rfl⟩ := hEnd.of_pure
  refine ⟨rfl, ?_, ?_⟩
  · intro event hEvent
    obtain rfl := List.mem_singleton.mp hEvent
    exact Or.inr hCall
  · intro hOk
    refine Or.inl ⟨_, List.mem_singleton_self _, hCall, ?_⟩
    rintro ⟨err, rfl⟩
    cases hOk

section Serde

variable [Serde]

theorem Logs.of_executeWriteAction {action : JetStreamAction} {result : TransportResult Unit}
    (h : Logs (executeWriteAction action bytes key) mount log result mount')
    (queue : List QueueEntry) :
    mount' = mount ∧ Sends queue bytes key log ∧
      (result = .ok () → Arrives queue bytes key log) := by
  unfold executeWriteAction at h
  split at h
  iterate 4 exact h.of_write ⟨rfl, rfl⟩
  · split at h
    · obtain ⟨rfl, rfl, rfl⟩ := h.of_pure
      exact ⟨rfl, List.forall_mem_nil _, nofun⟩
    · exact h.of_write ⟨rfl, rfl⟩
  · obtain ⟨rfl, rfl, rfl⟩ := h.of_pure
    exact ⟨rfl, List.forall_mem_nil _, nofun⟩

end Serde

/-! ## The queue -/

theorem answers_enqueue {queue queue' : WritebackQueue} {entry : QueueEntry}
    {result : TransportResult Unit} (h : Answers (queue.enqueue entry) log (queue', result)) :
    (log = [] ∧ (result = .ok () →
        ∃ existing ∈ queue.entries, existing.idempotencyKey = entry.idempotencyKey)) ∨
      ∃ reply, log = [⟨.persist (queue.entries ++ [entry]), reply⟩] ∧
        (result = .ok () → reply = .ok ()) := by
  rw [WritebackQueue.enqueue, WritebackQueue.enqueueAll] at h
  by_cases hQueued : queue.entries.any fun existing =>
      existing.idempotencyKey == entry.idempotencyKey
  · have hNone : WritebackQueue.admitted queue.entries [] [entry] = [] := by
      simp only [WritebackQueue.admitted, hQueued, Bool.true_or, if_true]
    rw [hNone] at h
    obtain ⟨rfl, -⟩ := Answers.of_pure h
    refine Or.inl ⟨rfl, fun _ => ?_⟩
    simpa only [List.any_eq_true, beq_iff_eq] using hQueued
  · have hOne : WritebackQueue.admitted queue.entries [] [entry] = [entry] := by
      simp [WritebackQueue.admitted, hQueued]
    rw [hOne] at h
    simp only [List.isEmpty_cons, Bool.false_eq_true, if_false] at h
    split at h
    · obtain ⟨rfl, hResult⟩ := Answers.of_pure h
      obtain ⟨-, rfl⟩ := Prod.mk.inj hResult
      exact Or.inl ⟨rfl, fun hOk => by cases hOk⟩
    · obtain ⟨first, second, reply, rfl, hPersist, hEnd⟩ := h.of_bind
      obtain rfl := Answers.of_perform hPersist
      refine Or.inr ⟨reply, ?_⟩
      cases reply with
      | ok _ =>
          obtain ⟨rfl, -⟩ := Answers.of_pure hEnd
          exact ⟨rfl, fun _ => rfl⟩
      | error err =>
          obtain ⟨rfl, hResult⟩ := Answers.of_pure hEnd
          obtain ⟨-, rfl⟩ := Prod.mk.inj hResult
          exact ⟨rfl, fun hOk => by cases hOk⟩

/-- The outcome of the replay's own queueing, with the log of the queue's. -/
theorem answers_replay_enqueue {replay replay' : WritebackReplay} {failed : FailedWrite}
    {result : TransportResult ReplayQueueOutcome}
    (h : Answers (replay.enqueueFailedWrite failed) log (replay', result)) :
    ∃ queue' queued, Answers (replay.queue.enqueue (durableEntryFromFailedWrite failed)) log
      (queue', queued) ∧ ((∃ outcome, result = .ok outcome) → queued = .ok ()) := by
  obtain ⟨first, second, ⟨queue', queued⟩, rfl, hQueue, hEnd⟩ := h.of_bind
  match queued with
  | .ok () =>
      obtain ⟨rfl, -⟩ := Answers.of_pure hEnd
      rw [List.append_nil]
      exact ⟨queue', .ok (), hQueue, fun _ => rfl⟩
  | .error err =>
      obtain ⟨rfl, hResult⟩ := Answers.of_pure hEnd
      obtain ⟨-, rfl⟩ := Prod.mk.inj hResult
      rw [List.append_nil]
      refine ⟨queue', .error err, hQueue, ?_⟩
      rintro ⟨outcome, hOk⟩
      cases hOk

theorem Logs.of_enqueueFailedWrite {failed : FailedWrite} {result : TransportResult Unit}
    (h : Logs (enqueueFailedWrite failed) mount log result mount')
    (hBytes : payload (durableOperationFromFailedWrite failed.operation) = bytes) :
    SameHandles mount mount' ∧
      Sends mount.replay.queue.entries bytes failed.idempotencyKey log ∧
      (result = .ok () →
        Arrives mount.replay.queue.entries bytes failed.idempotencyKey log) := by
  obtain ⟨_, _, _, _, rfl, hGet, hRest⟩ := h.of_bind
  obtain ⟨rfl, rfl, rfl⟩ := hGet.of_get
  obtain ⟨queueing, _, ⟨replay', outcome⟩, _, rfl, hQueue, hStored⟩ := hRest.of_bind
  obtain ⟨hAnswers, rfl⟩ := hQueue.of_stateLift
  obtain ⟨_, _, _, _, rfl, hSet, hEnd⟩ := hStored.of_bind
  obtain ⟨rfl, rfl⟩ := hSet.of_modify
  obtain ⟨rfl, hResult, rfl⟩ := hEnd.of_pure
  obtain ⟨queue', queued, hEnqueue, hQueued⟩ := answers_replay_enqueue hAnswers
  have hOk (hResultOk : result = .ok ()) : queued = .ok () := by
    refine hQueued ?_
    cases outcome with
    | ok outcome => exact ⟨outcome, rfl⟩
    | error err =>
        rw [hResult] at hResultOk
        cases hResultOk
  refine ⟨sameHandles_replay _ _, ?_, ?_⟩
  · simp only [List.nil_append, List.append_nil]
    rcases answers_enqueue hEnqueue with ⟨rfl, -⟩ | ⟨reply, rfl, -⟩
    · exact List.forall_mem_nil _
    · intro event hEvent
      obtain rfl := List.mem_singleton.mp hEvent
      exact Or.inr ⟨_, hBytes, rfl⟩
  · intro hResultOk
    simp only [List.nil_append, List.append_nil]
    rcases answers_enqueue hEnqueue with ⟨rfl, hExisting⟩ | ⟨reply, rfl, hReply⟩
    · exact Or.inr (hExisting (hOk hResultOk))
    · refine Or.inl ⟨_, List.mem_singleton_self _, ⟨_, hBytes, rfl⟩, ?_⟩
      rintro ⟨err, hErr⟩
      cases (hReply (hOk hResultOk)).symm.trans hErr

/-! ## A commit -/

/-- The actions that a plan for a write gives. -/
def IsWrite : JetStreamAction → Prop
  | .kvPut _ _ | .objectPut _ _ | .publishJsonLines _ _ | .materializedPut _ => True
  | _ => False

theorem isWrite_of_planWrite {path : JetStreamPath} {action : JetStreamAction}
    (h : planWrite path = .ok action) : IsWrite action := by
  unfold planWrite at h
  split at h
  case h_3 | h_4 | h_6 | h_7 | h_8 | h_9 =>
    split at h
    · cases h
      trivial
    · cases h
  case h_12 => split_ifs at h
  all_goals
    cases h
    try trivial

theorem isWrite_of_planOrErrno {path : JetStreamPath} {action : JetStreamAction}
    (h : planOrErrno .write path = .ok action) : IsWrite action := by
  unfold planOrErrno at h
  split at h
  · next found hFound =>
    cases h
    exact isWrite_of_planWrite hFound
  · cases h

section Commit

variable [Serde] [Rendering]

omit [Rendering] in
theorem Logs.of_failedWriteOperation {action : JetStreamAction} (hWrite : IsWrite action)
    {jsonlBase : Option Bytes} {operation : Option FailedWriteOperation}
    (h : Logs (failedWriteOperation action bytes jsonlBase) mount log operation mount') :
    ∃ failed, operation = some failed ∧
      payload (durableOperationFromFailedWrite failed) = bytes := by
  unfold failedWriteOperation at h
  split at h
  · obtain ⟨-, rfl, -⟩ := h.of_pure
    exact ⟨_, rfl, rfl⟩
  · obtain ⟨-, rfl, -⟩ := h.of_pure
    exact ⟨_, rfl, rfl⟩
  · obtain ⟨_, _, _, _, rfl, -, hEnd⟩ := h.of_bind
    obtain ⟨-, rfl, -⟩ := hEnd.of_pure
    exact ⟨_, rfl, rfl⟩
  · obtain ⟨_, _, _, _, rfl, -, hEnd⟩ := h.of_bind
    obtain ⟨-, rfl, -⟩ := hEnd.of_pure
    exact ⟨_, rfl, rfl⟩
  · obtain ⟨-, rfl, -⟩ := h.of_pure
    exact ⟨_, rfl, rfl⟩
  · next hKv hObject hLines hStream hMaterialized =>
    cases action with
    | kvPut bucket key => exact absurd rfl (hKv bucket key)
    | objectPut bucket object => exact absurd rfl (hObject bucket object)
    | publishJsonLines stream subject => exact absurd rfl (hLines stream subject)
    | materializedPut target =>
        cases target with
        | kv bucket key => exact absurd rfl (hMaterialized bucket key)
        | stream stream subject => exact absurd rfl (hStream stream subject)
    | _ => exact hWrite.elim

omit [Rendering] in
/-- What a commit does past the gate and its checks. -/
theorem Logs.of_commit_action {path : MountPath} {parsed : JetStreamPath}
    {action : JetStreamAction} (hWrite : IsWrite action) {result : Except Errno Unit}
    (h : Logs (do
      let jsonlBase ← jsonlBaseSnapshot parsed action
      match ← executeWriteAction action bytes key with
      | .ok () => refreshCacheAfterWrite path action bytes
      | .error _ =>
          match ← enqueueAction action bytes key jsonlBase with
          | .error err => throw (ioError err)
          | .ok () =>
              modify fun mount => mount.invalidateAfterLocalWrite path
              syncWritebackGate : Runtime Unit).run mount log result mount') :
    SameHandles mount mount' ∧ Sends mount.replay.queue.entries bytes key log ∧
      (result = .ok () → Arrives mount.replay.queue.entries bytes key log) := by
  obtain ⟨_, _, jsonlBase, based, rfl, hBase, hRest⟩ := h.of_liftM_andThen
  obtain ⟨hBaseCalls, hBased⟩ := hBase.of_looks (observes_looks.jsonlBaseSnapshot parsed action)
  obtain ⟨_, _, written, acted, rfl, hWritten, hAfter⟩ := hRest.of_liftM_andThen
  obtain ⟨rfl, hWrittenSends, hArrives⟩ :=
    hWritten.of_executeWriteAction mount.replay.queue.entries
  cases written with
  | ok _ =>
      obtain ⟨_, rfl, hRefresh⟩ := hAfter.of_liftM
      obtain ⟨hRefreshCalls, hRefreshed⟩ := hRefresh.of_looks
        (observes_looks.refreshCacheAfterWrite (fun _ _ h => h) path action bytes)
      refine ⟨(trans_of OnlyCaches hBased hRefreshed).sameHandles, ?_, ?_⟩
      · exact (sends_of_observing hBaseCalls).append
          (hWrittenSends.append (sends_of_observing hRefreshCalls))
      · exact fun _ => (hArrives rfl).append_right.append_left
  | error err =>
      obtain ⟨_, _, queued, between, rfl, hQueued, hEnd⟩ := hAfter.of_liftM_andThen
      obtain ⟨_, _, operation, looked, rfl, hOperation, hEnqueue⟩ := hQueued.of_bind
      obtain ⟨hOperationCalls, hLooked⟩ := hOperation.of_looks
        (observes_looks.failedWriteOperation action bytes jsonlBase)
      obtain ⟨failed, rfl, hBytes⟩ := hOperation.of_failedWriteOperation hWrite
      obtain ⟨hQueuedHandles, hQueueSends, hQueueArrives⟩ := hEnqueue.of_enqueueFailedWrite hBytes
      have hSame : OnlyCaches mount looked := trans_of OnlyCaches hBased hLooked
      have hReplay : looked.replay = mount.replay := hSame.sameReplay
      rw [hReplay] at hQueueSends hQueueArrives
      have hHandles : SameHandles mount between := hSame.sameHandles.trans hQueuedHandles
      have hSends := (sends_of_observing hBaseCalls).append (hWrittenSends.append
        ((sends_of_observing hOperationCalls).append hQueueSends))
      cases queued with
      | error err =>
          obtain ⟨rfl, rfl, rfl⟩ := hEnd.of_throw
          refine ⟨hHandles, ?_, nofun⟩
          simpa only [List.append_nil] using hSends
      | ok _ =>
          obtain ⟨_, _, _, _, rfl, hInvalidated, hGate⟩ := hEnd.of_liftM_andThen
          obtain ⟨rfl, rfl⟩ := hInvalidated.of_modify
          obtain ⟨_, _, hSync⟩ := hGate.of_liftM
          obtain ⟨_, _, _, _, rfl, hGet, hSet⟩ := hSync.of_bind
          obtain ⟨rfl, rfl, rfl⟩ := hGet.of_get
          obtain ⟨rfl, rfl⟩ := hSet.of_modify
          refine ⟨hHandles.trans ((onlyCaches_invalidateAfterLocalMutation between
            path).sameHandles.trans (sameHandles_replay _ _)), ?_, fun _ => ?_⟩
          · simpa only [List.append_nil] using hSends
          · simpa only [List.append_nil] using
              (hQueueArrives rfl).append_left.append_left.append_left

omit [Serde] [Rendering] in
theorem Logs.of_ensureWritesAllowed {result : Except Errno Unit}
    (h : Logs ensureWritesAllowed.run mount log result mount') :
    log = [] ∧ mount' = mount ∧
      result = if mount.replay.gate.acceptingWrites then .ok () else .error .readOnly := by
  obtain ⟨_, _, _, _, rfl, hGet, hRest⟩ := h.of_liftM_andThen
  obtain ⟨rfl, rfl, rfl⟩ := hGet.of_get
  split at hRest
  · next hOpen =>
    obtain ⟨rfl, rfl, rfl⟩ := hRest.of_pure
    exact ⟨rfl, rfl, (if_pos hOpen).symm⟩
  · next hShut =>
    obtain ⟨rfl, rfl, rfl⟩ := hRest.of_throw
    exact ⟨rfl, rfl, (if_neg hShut).symm⟩

/-- A commit sends its bytes under its key and nothing else, and reports success only if
they have arrived. -/
theorem Logs.of_commit {path : MountPath} {commitSeed : Str} {result : Except Errno Unit}
    (h : Logs (commitMountPathWithSeed path bytes commitSeed).run mount log result mount') :
    let key := Rendering.idempotencyKey path.asStr bytes commitSeed
    SameHandles mount mount' ∧ Sends mount.replay.queue.entries bytes key log ∧
      (result = .ok () → Arrives mount.replay.queue.entries bytes key log) := by
  intro key
  have hRefused {errno : Errno} (hResult : result = .error errno) (hLog : log = [])
      (hMount : mount' = mount) :
      SameHandles mount mount' ∧ Sends mount.replay.queue.entries bytes key log ∧
        (result = .ok () → Arrives mount.replay.queue.entries bytes key log) := by
    rw [hResult, hLog, hMount]
    exact ⟨⟨rfl, rfl, rfl, rfl⟩, List.forall_mem_nil _, nofun⟩
  rcases h.of_andThen with ⟨errno, hResult, hGate⟩ | ⟨_, _, _, _, rfl, hGate, hParse⟩
  · obtain ⟨hLog, hMount, -⟩ := hGate.of_ensureWritesAllowed
    exact hRefused hResult hLog hMount
  obtain ⟨rfl, rfl, -⟩ := hGate.of_ensureWritesAllowed
  rcases hParse.of_liftErrno_andThen with
    ⟨errno, -, hResult, rfl, hMount⟩ | ⟨parsed, -, hPlan⟩
  · exact hRefused hResult rfl hMount
  rcases hPlan.of_liftErrno_andThen with
    ⟨errno, -, hResult, rfl, hMount⟩ | ⟨action, hAction, hValid⟩
  · exact hRefused hResult rfl hMount
  rcases hValid.of_liftErrno_andThen with
    ⟨errno, -, hResult, rfl, hMount⟩ | ⟨_, -, hActs⟩
  · exact hRefused hResult rfl hMount
  exact Logs.of_commit_action (isWrite_of_planOrErrno hAction) hActs

end Commit

end EventFs.Fuse
