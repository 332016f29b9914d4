import EventFs.Transport.ReplayEval

/-!
# What the queue and the storage hold together

`settled` is the storage that a replay of the queue file leaves where nothing fails. It
takes the entries as they are: their keys may repeat or be recorded already. No call of a
replay changes it, whatever the calls do and wherever the replay is cut off, so it is what
the storage and the queue hold together.
-/

namespace EventFs.Transport

open Library Protocol Program

section Replaying

variable [Serde]

namespace QueueEntry

/-- What is left to do for an entry. A put that is recorded is not repeated. -/
def settle (entry : QueueEntry) (state : MemoryStorage) : MemoryStorage :=
  if entry.done then state
  else if entry.recorded state then entry.finish state
  else entry.apply state

/-- The put of an entry, once. -/
def putOnce (entry : QueueEntry) (state : MemoryStorage) : MemoryStorage :=
  if entry.recorded state then state else entry.put state

variable {entry other : QueueEntry} {state : MemoryStorage}

omit [Serde] in
theorem finish_of_work (h : entry.work = other.work) : entry.finish = other.finish := by
  rw [← finish_work, h, finish_work]

omit [Serde] in
theorem recorded_of_work (h : entry.work = other.work) : entry.recorded = other.recorded := by
  rw [← recorded_work, h, recorded_work]

theorem validPayload_of_work (h : entry.work = other.work) (hValid : entry.ValidPayload) :
    other.ValidPayload := by
  rw [← validPayload_work, ← h, validPayload_work]
  exact hValid

theorem settle_of_work (h : entry.work = other.work) : entry.settle = other.settle := by
  funext state
  rw [settle, settle, done_of_work h, recorded_of_work h, finish_of_work h, apply_of_work h]

theorem settle_of_recorded (hPending : entry.done = false) (h : entry.recorded state = true) :
    entry.settle state = entry.finish state := by
  rw [settle, if_neg (by simp [hPending]), if_pos h]

theorem settle_of_new (hPending : entry.done = false) (h : entry.recorded state = false) :
    entry.settle state = entry.apply state := by
  rw [settle, if_neg (by simp [hPending]), if_neg (by simp [h])]

theorem recorded_putOnce (hValid : entry.ValidPayload) (state : MemoryStorage) :
    entry.recorded (entry.putOnce state) = true := by
  rw [putOnce]
  split
  · next h => exact h
  · exact recorded_put hValid state

theorem settle_putOnce (hPending : entry.done = false) (hValid : entry.ValidPayload)
    (state : MemoryStorage) : entry.settle (entry.putOnce state) = entry.settle state := by
  rw [settle_of_recorded hPending (recorded_putOnce hValid state), putOnce]
  split
  · next h => exact (settle_of_recorded hPending h).symm
  · next h => exact (settle_of_new hPending (Bool.not_eq_true _ ▸ h)).symm

theorem settle_finish (hPending : entry.done = false) (h : entry.recorded state = true) :
    entry.settle (entry.finish state) = entry.settle state := by
  have hFinished : entry.recorded (entry.finish state) = true := by rwa [recorded_finish]
  rw [settle_of_recorded hPending hFinished, settle_of_recorded hPending h, finish_finish]

/-- Nothing is left to do where the put is recorded and there is nothing to delete. -/
theorem settle_of_finished (hPending : entry.done = false) (hRecorded : entry.recorded state = true)
    (hFinished : entry.finished state = true) : entry.settle state = state := by
  rw [settle_of_recorded hPending hRecorded, finish_of_finished hFinished]

end QueueEntry

def settledFrom (store : MemoryStorage) (file : List QueueEntry) : MemoryStorage :=
  file.foldl (fun state entry => entry.settle state) store

/-- What the storage and the queue file hold together. -/
def settled (world : World MemoryStorage) : MemoryStorage := settledFrom world.store world.file

theorem settledFrom_of_works {queue file : List QueueEntry}
    (h : file.map (·.work) = queue.map (·.work))
    (store : MemoryStorage) : settledFrom store file = settledFrom store queue := by
  induction file generalizing queue store with
  | nil =>
      rw [List.map_nil] at h
      rw [List.map_eq_nil_iff.mp h.symm]
  | cons entry rest ih =>
      cases queue with
      | nil => cases h
      | cons other others =>
          rw [List.map_cons, List.map_cons, List.cons.injEq] at h
          rw [settledFrom, settledFrom, List.foldl_cons, List.foldl_cons,
            QueueEntry.settle_of_work h.1]
          exact ih h.2 _

/-! ## The invariant -/

/-- The put and the delete of an entry keep `J`. -/
def QueueEntry.Preserves (J : MemoryStorage → Prop) (entry : QueueEntry) : Prop :=
  ∀ state, J state → J (entry.put state) ∧ J (entry.finish state)

/-- The queue file and the storage lead to `final`, and no entry breaks `J`. -/
structure Settles (J : MemoryStorage → Prop) (final : MemoryStorage)
    (world : World MemoryStorage) : Prop where
  settled : settled world = final
  valid : ∀ entry ∈ world.file, entry.ValidPayload
  preserves : ∀ entry ∈ world.file, entry.Preserves J
  kept : J world.store

/-- And the queue in memory stands for the same work as the file. -/
structure Mirrors (J : MemoryStorage → Prop) (final : MemoryStorage) (queue : List QueueEntry)
    (world : World MemoryStorage) : Prop extends Settles J final world where
  file : world.file.map (·.work) = queue.map (·.work)

variable {J : MemoryStorage → Prop} {final : MemoryStorage} {entry other : QueueEntry}
  {queue rest : List QueueEntry} {world : World MemoryStorage}

theorem QueueEntry.Preserves.of_work (h : entry.Preserves J) (hWork : entry.work = other.work) :
    other.Preserves J := by
  intro state hState
  rw [← put_of_work hWork, ← finish_of_work hWork]
  exact h state hState

omit [Serde] in
/-- An entry of the queue stands for one of the file. -/
theorem exists_same_work {file : List QueueEntry} (h : file.map (·.work) = queue.map (·.work))
    (hMem : entry ∈ queue) : ∃ other ∈ file, other.work = entry.work := by
  have hWork : entry.work ∈ file.map (·.work) := h ▸ List.mem_map_of_mem hMem
  exact List.mem_map.mp hWork

theorem Mirrors.queue_valid (h : Mirrors J final queue world) (hMem : entry ∈ queue) :
    entry.ValidPayload := by
  obtain ⟨other, hOther, hWork⟩ := exists_same_work h.file hMem
  exact QueueEntry.validPayload_of_work hWork (h.valid other hOther)

theorem Mirrors.queue_preserves (h : Mirrors J final queue world) (hMem : entry ∈ queue) :
    entry.Preserves J := by
  obtain ⟨other, hOther, hWork⟩ := exists_same_work h.file hMem
  exact (h.preserves other hOther).of_work hWork

theorem Mirrors.settledFrom (h : Mirrors J final queue world) :
    Transport.settledFrom world.store queue = final :=
  (settledFrom_of_works h.file _).symm.trans h.settled

theorem Mirrors.replaceHead (h : Mirrors J final (entry :: rest) world)
    (hWork : other.work = entry.work) : Mirrors J final (other :: rest) world where
  toSettles := h.toSettles
  file := by rw [h.file, List.map_cons, List.map_cons, hWork]

/-- The queue is written to the file. -/
theorem Mirrors.write (h : Mirrors J final queue world) :
    Mirrors J final queue { world with file := queue } where
  settled := h.settledFrom
  valid _ hMem := h.queue_valid hMem
  preserves _ hMem := h.queue_preserves hMem
  kept := h.kept
  file := rfl

/-- An entry with nothing left to do may leave the queue. -/
theorem Mirrors.dropHead (h : Mirrors J final (entry :: rest) world)
    (hIdle : entry.settle world.store = world.store) :
    Mirrors J final rest { world with file := rest } where
  settled := by
    have hSettled := h.settledFrom
    rwa [Transport.settledFrom, List.foldl_cons, hIdle] at hSettled
  valid _ hMem := h.queue_valid (List.mem_cons_of_mem entry hMem)
  preserves _ hMem := h.queue_preserves (List.mem_cons_of_mem entry hMem)
  kept := h.kept
  file := rfl

/-- The storage changes and the head leads to the same. -/
theorem Mirrors.withStore {store : MemoryStorage} (h : Mirrors J final (entry :: rest) world)
    (hSettle : entry.settle store = entry.settle world.store) (hKept : J store) :
    Mirrors J final (entry :: rest) { world with store } where
  settled := by
    have hSettled := h.settledFrom
    rw [Transport.settledFrom, List.foldl_cons, ← hSettle] at hSettled
    exact (settledFrom_of_works h.file store).trans hSettled
  valid := h.valid
  preserves := h.preserves
  kept := hKept
  file := h.file

theorem Mirrors.putOnce (h : Mirrors J final (entry :: rest) world)
    (hPending : entry.done = false) :
    Mirrors J final (entry :: rest) { world with store := entry.putOnce world.store } := by
  refine h.withStore (QueueEntry.settle_putOnce hPending (h.queue_valid List.mem_cons_self) _) ?_
  rw [QueueEntry.putOnce]
  split
  · exact h.kept
  · exact (h.queue_preserves List.mem_cons_self _ h.kept).1

theorem Mirrors.finish (h : Mirrors J final (entry :: rest) world) (hPending : entry.done = false)
    (hRecorded : entry.recorded world.store = true) :
    Mirrors J final (entry :: rest) { world with store := entry.finish world.store } :=
  h.withStore (QueueEntry.settle_finish hPending hRecorded)
    (h.queue_preserves List.mem_cons_self _ h.kept).2

/-! ## Calls -/

/-- Every call may be refused, and these may take effect without being acknowledged. -/
abbrev unreliable (Lossy : IoCall → Prop) : Behaviour io (World MemoryStorage) :=
  Faulty (World.handle MemoryStorage.handle) Fails Lossy

theorem unreliable_le_faulty {Lossy : IoCall → Prop} {world world' : World MemoryStorage}
    {c : IoCall} {r : io.Reply c} (h : unreliable Lossy world c r world') :
    faulty world c r world' := by
  rcases h.inv with ⟨rfl, rfl⟩ | ⟨hFail, rfl | ⟨-, rfl⟩⟩
  · exact Faulty.done (I := io) world c
  · exact Faulty.refused (I := io) world' c hFail
  · exact Faulty.unacknowledged (I := io) world c trivial hFail

section Calls

variable {Lossy : IoCall → Prop} {α : Type} {P C : World MemoryStorage → Prop}

/-- What holds under all faults holds under these. -/
theorem triple_unreliable {p : Program io α} {Q : α → World MemoryStorage → Prop}
    (h : Triple faulty Alone P p Q C) : Triple (unreliable Lossy) Alone P p Q C :=
  fun _ _ _ hP hRun => h hP (hRun.mono fun _ _ _ _ hCall => unreliable_le_faulty hCall)

theorem triple_save {entries : List QueueEntry}
    {Q : TransportResult Unit → World MemoryStorage → Prop}
    (hDone : ∀ w, P w → Q (.ok ()) { w with file := entries })
    (hRefused : ∀ w err, P w → Q (.error err) w)
    (hLost : ∀ w err, Lossy (.persist entries) → P w → Q (.error err) { w with file := entries })
    (hP : ∀ w, P w → C w) (hQ : ∀ r w, Q r w → C w) :
    Triple (unreliable Lossy) Alone P (persistEntries entries).run Q C := by
  refine Triple.perform (stable_alone P) (fun r => stable_alone (Q r)) hP hQ ?_
  intro w r w' hw hCall
  rcases hCall.inv with ⟨rfl, rfl⟩ | ⟨⟨err, rfl⟩, rfl | ⟨hLossy, rfl⟩⟩
  · exact hDone w hw
  · exact hRefused w' err hw
  · exact hLost w err hLossy hw

end Calls

/-! ## The executor -/

section Executor

variable (hPending : entry.done = false)

/-- Told that the head is applied, nothing is left to do for it. -/
def Confirmed (J : MemoryStorage → Prop) (final : MemoryStorage) (entry : QueueEntry)
    (rest : List QueueEntry) (reply : TransportResult Bool) (world : World MemoryStorage) : Prop :=
  Mirrors J final (entry :: rest) world ∧
    (reply = .ok true → entry.settle world.store = world.store)

theorem Mirrors.confirmed_error {err : TransportError}
    (h : Mirrors J final (entry :: rest) world) : Confirmed J final entry rest (.error err) world :=
  ⟨h, fun hOk => by cases hOk⟩

include hPending

/-- A rename is applied when its put is recorded and its delete finds nothing. -/
theorem confirms_rename {lookRecord lookDelete : Transport Bool}
    (hRecord : Triple faulty Alone (Mirrors J final (entry :: rest)) lookRecord.run
      (fun reply w => Mirrors J final (entry :: rest) w ∧
        ∀ answer, reply = .ok answer → answer = entry.recorded w.store) (Settles J final))
    (hDelete : Triple faulty Alone
      (fun w => Mirrors J final (entry :: rest) w ∧ entry.recorded w.store = true)
      lookDelete.run (fun reply w => Mirrors J final (entry :: rest) w ∧
        entry.recorded w.store = true ∧
          ∀ answer, reply = .ok answer → answer = entry.finished w.store) (Settles J final)) :
    Triple faulty Alone (Mirrors J final (entry :: rest))
      (do
        let destinationApplied ← lookRecord
        if !destinationApplied then
          return false
        lookDelete : Transport Bool).run
      (Confirmed J final entry rest) (Settles J final) := by
  refine Triple.bindExcept _ hRecord (fun _ => stable_alone _) ?_ ?_ ?_
  · intro err w h
    exact h.1.confirmed_error
  · intro err w h
    exact h.1.toSettles
  · intro recorded
    cases recorded with
    | false =>
        exact .ret (stable_alone _) (fun w h => ⟨h.1, fun hTrue => by cases hTrue⟩)
          fun w h => h.1.toSettles
    | true =>
        refine hDelete.weaken (fun w h => ⟨h.1, (h.2 true rfl).symm⟩) ?_ fun _ h => h
        intro reply w h
        refine ⟨h.1, fun hTrue => ?_⟩
        exact QueueEntry.settle_of_finished hPending h.2.1 (h.2.2 true hTrue).symm

theorem confirms_isApplied :
    Triple faulty Alone (Mirrors J final (entry :: rest)) (StoreReplayExecutor.isApplied entry).run
      (Confirmed J final entry rest) (Settles J final) := by
  have hCut : ∀ w, Mirrors J final (entry :: rest) w → Settles J final w := fun w h => h.toSettles
  have hError : ∀ w err, Mirrors J final (entry :: rest) w →
      Confirmed J final entry rest (.error err) w := fun w err h => h.confirmed_error
  -- an answer about the record, where there is nothing to delete
  have hPut : (∀ store, entry.finished store = true) → ∀ w, Mirrors J final (entry :: rest) w →
      Confirmed J final entry rest (.ok (entry.recorded w.store)) w := by
    intro hFinished w h
    refine ⟨h, fun hTrue => ?_⟩
    exact QueueEntry.settle_of_finished hPending (Except.ok.inj hTrue) (hFinished w.store)
  have hLook : ∀ w, Mirrors J final (entry :: rest) w → Mirrors J final (entry :: rest) w ∧
      ∀ answer, (.ok (entry.recorded w.store) : TransportResult Bool) = .ok answer →
        answer = entry.recorded w.store := fun w h => ⟨h, fun _ hOk => (Except.ok.inj hOk).symm⟩
  have hLookError : ∀ w err, Mirrors J final (entry :: rest) w →
      Mirrors J final (entry :: rest) w ∧
        ∀ answer, (.error err : TransportResult Bool) = .ok answer →
          answer = entry.recorded w.store := fun w err h => ⟨h, fun _ hOk => by cases hOk⟩
  -- an answer about the delete, once the record has been seen
  have hDelete : ∀ w, Mirrors J final (entry :: rest) w ∧ entry.recorded w.store = true →
      Mirrors J final (entry :: rest) w ∧ entry.recorded w.store = true ∧
        ∀ answer, (.ok (entry.finished w.store) : TransportResult Bool) = .ok answer →
          answer = entry.finished w.store :=
    fun w h => ⟨h.1, h.2, fun _ hOk => (Except.ok.inj hOk).symm⟩
  have hDeleteError : ∀ w err, Mirrors J final (entry :: rest) w ∧ entry.recorded w.store = true →
      Mirrors J final (entry :: rest) w ∧ entry.recorded w.store = true ∧
        ∀ answer, (.error err : TransportResult Bool) = .ok answer →
          answer = entry.finished w.store := fun w err h => ⟨h.1, h.2, fun _ hOk => by cases hOk⟩
  obtain ⟨key, operation, attempts, done⟩ := entry
  cases operation with
  | kvPut | materializedPut | objectPut =>
      exact triple_read rfl (hPut fun _ => rfl) hError hCut fun r w h => h.1.toSettles
  | publishJsonLines stream subject bytes applied =>
      refine triple_read rfl ?_ hError hCut fun r w h => h.1.toSettles
      intro w h
      have hReply : MemoryStorage.publishJsonLinesApplied w.store stream subject bytes key =
          .ok (w.store.streamApplied.contains (stream, subject, key)) := by
        have hValid : validateJsonLines subject bytes = .ok () := h.queue_valid List.mem_cons_self
        rw [MemoryStorage.publishJsonLinesApplied, hValid]
      show Confirmed _ _ _ _ (MemoryStorage.publishJsonLinesApplied w.store _ _ _ _) w
      rw [hReply]
      exact hPut (fun _ => rfl) w h
  | kvRenameComplete fromBucket fromKey expected toBucket toKey bytes =>
      refine confirms_rename hPending
        (triple_read rfl hLook hLookError hCut fun r w h => h.1.toSettles)
        (triple_read rfl ?_ hDeleteError (fun w h => h.1.toSettles) fun r w h => h.1.toSettles)
      intro w h
      show _ ∧ _ ∧ ∀ answer, MemoryStorage.kvDeleteIfRevisionApplied w.store _ _ _ = _ → _
      rw [MemoryStorage.kvDeleteIfRevisionApplied_eq]
      exact hDelete w h
  | objectRenameComplete fromBucket fromObject expected nuid toBucket toObject bytes =>
      exact confirms_rename hPending
        (triple_read rfl hLook hLookError hCut fun r w h => h.1.toSettles)
        (triple_read rfl hDelete hDeleteError (fun w h => h.1.toSettles) fun r w h =>
          h.1.toSettles)

/-- Executed without an error, nothing is left to do for the head. -/
def Completed (J : MemoryStorage → Prop) (final : MemoryStorage) (entry : QueueEntry)
    (rest : List QueueEntry) (reply : TransportResult Unit) (world : World MemoryStorage) : Prop :=
  Mirrors J final (entry :: rest) world ∧ (reply = .ok () → entry.settle world.store = world.store)

/-- The put of the head as a call, and what completes it. -/
theorem completes_putThen {request : StorageCall} {next : request.Value → Transport Unit}
    (hState : ∀ w, Mirrors J final (entry :: rest) w →
      (MemoryStorage.handle w.store request).2 = entry.putOnce w.store)
    (hNext : ∀ value, Triple faulty Alone
      (fun w => Mirrors J final (entry :: rest) w ∧ entry.recorded w.store = true)
      (next value).run (Completed J final entry rest) (Settles J final)) :
    Triple faulty Alone (Mirrors J final (entry :: rest)) (call request >>= next).run
      (Completed J final entry rest) (Settles J final) := by
  have hPut : ∀ w, Mirrors J final (entry :: rest) w →
      Mirrors J final (entry :: rest)
        { w with store := (MemoryStorage.handle w.store request).2 } := by
    intro w h
    rw [hState w h]
    exact h.putOnce hPending
  refine Triple.bindExcept (fun reply w => Mirrors J final (entry :: rest) w ∧
    ∀ value, reply = .ok value → entry.recorded w.store = true) ?_
      (fun _ => stable_alone _) ?_ ?_ ?_
  · refine triple_call ?_ ?_ ?_ (fun w h => h.toSettles) fun r w h => h.1.toSettles
    · intro w h
      refine ⟨hPut w h, fun _ _ => ?_⟩
      rw [hState w h]
      exact QueueEntry.recorded_putOnce (h.queue_valid List.mem_cons_self) w.store
    · exact fun w err h => ⟨h, fun value hValue => by cases hValue⟩
    · exact fun w err h => ⟨hPut w h, fun value hValue => by cases hValue⟩
  · exact fun err w h => ⟨h.1, fun hOk => by cases hOk⟩
  · exact fun err w h => h.1.toSettles
  · intro value
    exact (hNext value).weaken (fun w h => ⟨h.1, h.2 value rfl⟩) (fun _ _ h => h) fun _ h => h

theorem completes_put (hNothing : ∀ store, entry.finish store = store) :
    Triple faulty Alone (fun w => Mirrors J final (entry :: rest) w ∧ entry.recorded w.store = true)
      (pure () : Transport Unit).run (Completed J final entry rest) (Settles J final) := by
  refine .ret (stable_alone _) ?_ fun w h => h.1.toSettles
  intro w h
  refine ⟨h.1, fun _ => ?_⟩
  rw [QueueEntry.settle_of_recorded hPending h.2, hNothing]

theorem completes_delete {request : StorageCall}
    (hState : ∀ store, (MemoryStorage.handle store request).2 = entry.finish store) :
    Triple faulty Alone (fun w => Mirrors J final (entry :: rest) w ∧ entry.recorded w.store = true)
      (call request).run (fun reply w => Mirrors J final (entry :: rest) w ∧
        ∀ value, reply = .ok value → entry.settle w.store = w.store) (Settles J final) := by
  have hFinish : ∀ w, Mirrors J final (entry :: rest) w ∧ entry.recorded w.store = true →
      Mirrors J final (entry :: rest)
        { w with store := (MemoryStorage.handle w.store request).2 } := by
    intro w h
    rw [hState]
    exact h.1.finish hPending h.2
  refine triple_call ?_ ?_ ?_ (fun w h => h.1.toSettles) fun r w h => h.1.toSettles
  · intro w h
    refine ⟨hFinish w h, fun _ _ => ?_⟩
    rw [hState]
    refine QueueEntry.settle_of_finished hPending ?_ (QueueEntry.finished_finish _ _)
    rw [QueueEntry.recorded_finish]
    exact h.2
  · exact fun w err h => ⟨h.1, fun value hValue => by cases hValue⟩
  · exact fun w err h => ⟨hFinish w h, fun value hValue => by cases hValue⟩

theorem completes_execute :
    Triple faulty Alone (Mirrors J final (entry :: rest)) (StoreReplayExecutor.execute entry).run
      (Completed J final entry rest) (Settles J final) := by
  obtain ⟨key, operation, attempts, done⟩ := entry
  cases operation with
  | kvPut | materializedPut =>
      exact completes_putThen hPending (fun w _ => MemoryStorage.kvPutIdempotent_state _ _ _ _ _)
        fun _ => completes_put hPending fun _ => rfl
  | objectPut =>
      exact completes_putThen hPending
        (fun w _ => MemoryStorage.objectPutIdempotent_state _ _ _ _ _)
        fun _ => completes_put hPending fun _ => rfl
  | kvRenameComplete fromBucket fromKey expected toBucket toKey bytes =>
      refine completes_putThen hPending
        (fun w _ => MemoryStorage.kvPutIdempotent_state _ _ _ _ _) ?_
      intro value
      refine (completes_delete hPending fun _ => rfl).weaken (fun _ h => h) ?_ fun _ h => h
      exact fun reply w h => ⟨h.1, h.2 ()⟩
  | objectRenameComplete fromBucket fromObject expected nuid toBucket toObject bytes =>
      refine completes_putThen hPending
        (fun w _ => MemoryStorage.objectPutIdempotent_state _ _ _ _ _) ?_
      intro value
      refine (completes_delete hPending fun _ => rfl).weaken (fun _ h => h) ?_ fun _ h => h
      exact fun reply w h => ⟨h.1, h.2 ()⟩
  | publishJsonLines stream subject bytes applied =>
      refine completes_putThen hPending ?_ fun _ => completes_put hPending fun _ => rfl
      intro w h
      have hValid : validateJsonLines subject bytes = .ok () := h.queue_valid List.mem_cons_self
      obtain ⟨lines, hLines⟩ := jsonLines_of_validateJsonLines hValid
      simp only [QueueEntry.putOnce, QueueEntry.put, QueueEntry.recorded, hLines]
      exact MemoryStorage.publishJsonLines_state w.store stream key hValid hLines

omit hPending in
/-- Noting how far a failed publish got does not change the work of the entry. -/
theorem mirrors_refresh :
    Triple faulty Alone (Mirrors J final (entry :: rest))
      (StoreReplayExecutor.refreshAfterFailedExecute entry)
      (fun result w => Mirrors J final (entry :: rest) w ∧ result.1.work = entry.work)
      (Settles J final) := by
  simp only [StoreReplayExecutor.refreshAfterFailedExecute]
  split
  · next stream subject bytes applied hOperation =>
    refine Triple.bind (fun _ => Mirrors J final (entry :: rest)) ?_ ?_
    · exact triple_read rfl (fun w h => h) (fun w err h => h) (fun w h => h.toSettles)
        fun r w h => h.toSettles
    · intro reply
      cases reply with
      | error err => exact .ret (stable_alone _) (fun w h => ⟨h, rfl⟩) fun w h => h.toSettles
      | ok durable =>
          refine .ret (stable_alone _) ?_ fun w h => h.toSettles
          intro w h
          exact ⟨h, by simp [QueueEntry.work, hOperation]⟩
  · exact .ret (stable_alone _) (fun w h => ⟨h, rfl⟩) fun w h => h.toSettles

end Executor

/-! ## The loop -/

section Loop

variable {Lossy : IoCall → Prop}

/-- Where a replay has ended: if no write of the file is lost, the queue in memory mirrors it. -/
def ReplayEnds (Lossy : IoCall → Prop) (J : MemoryStorage → Prop) (final : MemoryStorage)
    (result : List QueueEntry × TransportResult Unit) (world : World MemoryStorage) : Prop :=
  Settles J final world ∧
    ((∀ entries, ¬ Lossy (.persist entries)) → Mirrors J final result.1 world)

theorem Mirrors.replayEnds {result : TransportResult Unit} (h : Mirrors J final queue world) :
    ReplayEnds Lossy J final (queue, result) world := ⟨h.toSettles, fun _ => h⟩

/-- A write of the file, after which the queue is another one. -/
theorem mirrors_save {P : World MemoryStorage → Prop} {old new : List QueueEntry}
    (hOld : ∀ w, P w → Mirrors J final old w)
    (hNew : ∀ w, P w → Mirrors J final new { w with file := new }) :
    Triple (unreliable Lossy) Alone P (persistEntries new).run
      (fun reply w => Settles J final w ∧ (reply = .ok () → Mirrors J final new w) ∧
        ((∀ entries, ¬ Lossy (.persist entries)) → ∀ err, reply = .error err →
          Mirrors J final old w)) (Settles J final) := by
  refine triple_save ?_ ?_ ?_ (fun w h => (hOld w h).toSettles) fun r w h => h.1
  · intro w h
    exact ⟨(hNew w h).toSettles, fun _ => hNew w h, fun _ err hErr => by cases hErr⟩
  · intro w err h
    exact ⟨(hOld w h).toSettles, (by rintro ⟨⟩), fun _ _ _ => hOld w h⟩
  · intro w err hLossy h
    exact ⟨(hNew w h).toSettles, (by rintro ⟨⟩), fun hKept => (hKept _ hLossy).elim⟩

/-- Persisting the rest of the queue when nothing is left to do for the head, and going on. -/
theorem replayEnds_drop {current : QueueEntry} (hWork : current.work = entry.work)
    (hLoop : Triple (unreliable Lossy) Alone (Mirrors J final rest)
      (replayEntries storeReplayExecutor rest) (ReplayEnds Lossy J final) (Settles J final)) :
    Triple (unreliable Lossy) Alone
      (fun w => Mirrors J final (entry :: rest) w ∧ entry.settle w.store = w.store)
      (dropEntry storeReplayExecutor current rest) (ReplayEnds Lossy J final)
      (Settles J final) := by
  refine Triple.bind _ (mirrors_save (fun w h => h.1) fun w h => h.1.dropHead h.2) ?_
  intro reply
  cases reply with
  | error err =>
      refine .ret (stable_alone _) ?_ fun w h => h.1
      intro w h
      exact ⟨h.1, fun hKept => (h.2.2 hKept err rfl).replaceHead hWork⟩
  | ok _ => exact hLoop.weaken (fun w h => h.2.1 rfl) (fun _ _ h => h) fun _ h => h

/-- From a persisted attempt on: execute the head and drop it, or note how far it got. -/
theorem replayEnds_attempted (hPending : entry.done = false)
    (hLoop : Triple (unreliable Lossy) Alone (Mirrors J final rest)
      (replayEntries storeReplayExecutor rest) (ReplayEnds Lossy J final) (Settles J final)) :
    Triple (unreliable Lossy) Alone (Mirrors J final (entry :: rest))
      (do
        match ← (storeReplayExecutor.execute entry).run with
        | .ok () => dropEntry storeReplayExecutor entry rest
        | .error err => do
            let (refreshed, _) ← storeReplayExecutor.refreshAfterFailedExecute entry
            match ← (persistEntries (refreshed :: rest)).run with
            | .error persistErr => return (entry :: rest, .error persistErr)
            | .ok () => return (refreshed :: rest, .error err))
      (ReplayEnds Lossy J final) (Settles J final) := by
  refine Triple.bind _ (triple_unreliable (completes_execute hPending)) ?_
  intro reply
  cases reply with
  | ok _ =>
      exact (replayEnds_drop rfl hLoop).weaken (fun w h => ⟨h.1, h.2 rfl⟩) (fun _ _ h => h)
        fun _ h => h
  | error err =>
      refine Triple.bind _ (triple_unreliable
        (mirrors_refresh.weaken (fun w h => h.1) (fun _ _ h => h) fun _ h => h)) ?_
      intro refreshed
      refine Triple.bind _ (mirrors_save (fun w h => h.1) fun w h =>
        (h.1.replaceHead h.2).write) ?_
      intro persisted
      cases persisted with
      | error persistErr =>
          exact .ret (stable_alone _) (fun w h => ⟨h.1, fun hKept => h.2.2 hKept _ rfl⟩)
            fun w h => h.1
      | ok _ => exact .ret (stable_alone _) (fun w h => (h.2.1 rfl).replayEnds) fun w h => h.1

/-- No call of a replay changes what the file and the storage lead to, by induction on the
queue. -/
theorem replayEnds_replayEntries (queue : List QueueEntry) :
    Triple (unreliable Lossy) Alone (Mirrors J final queue)
      (replayEntries storeReplayExecutor queue) (ReplayEnds Lossy J final) (Settles J final) := by
  induction queue with
  | nil => exact .ret (stable_alone _) (fun w h => h.replayEnds) fun w h => h.toSettles
  | cons entry rest ih =>
      rw [replayEntries]
      split
      · next hDone =>
        refine (replayEnds_drop rfl ih).weaken (fun w h => ⟨h, ?_⟩) (fun _ _ h => h) fun _ h => h
        rw [QueueEntry.settle, if_pos hDone]
      · next hDone =>
        have hPending : entry.done = false := Bool.not_eq_true _ ▸ hDone
        refine Triple.bind _ (triple_unreliable (confirms_isApplied hPending)) ?_
        intro applied
        rcases applied with err | _ | _
        · exact .ret (stable_alone _) (fun w h => h.1.replayEnds) fun w h => h.1.toSettles
        · refine Triple.bind _ (mirrors_save (fun w h => h.1) fun w h =>
            (h.1.replaceHead (QueueEntry.work_attempt entry)).write) ?_
          intro persisted
          cases persisted with
          | error err =>
              exact .ret (stable_alone _) (fun w h => ⟨h.1, fun hKept => h.2.2 hKept _ rfl⟩)
                fun w h => h.1
          | ok _ =>
              have hAttempt : entry.attempt.done = false := hPending
              refine (replayEnds_attempted hAttempt ih).weaken ?_ (fun _ _ h => h) fun _ h => h
              exact fun w h => h.2.1 rfl
        · refine (replayEnds_drop rfl ih).weaken ?_ (fun _ _ h => h) fun _ h => h
          exact fun w h => ⟨h.1, h.2 rfl⟩

end Loop

/-! ## Opening the queue -/

/-- Entries that are done are left out of the file without a change. -/
theorem settledFrom_compact (store : MemoryStorage) (file : List QueueEntry) :
    settledFrom store (WritebackQueue.compactCompletedEntries file) = settledFrom store file := by
  induction file generalizing store with
  | nil => rfl
  | cons entry rest ih =>
      rw [settledFrom, settledFrom, List.foldl_cons, WritebackQueue.compactCompletedEntries]
      cases hDone : entry.done with
      | true =>
          rw [List.filter_cons_of_neg (by simp [hDone]), QueueEntry.settle, if_pos hDone]
          exact ih store
      | false =>
          rw [List.filter_cons_of_pos (by simp [hDone]), List.foldl_cons]
          exact ih _

theorem Settles.compact {file : List QueueEntry} (h : Settles J final world)
    (hFile : world.file = file) :
    Mirrors J final (WritebackQueue.compactCompletedEntries file)
      { world with file := WritebackQueue.compactCompletedEntries file } where
  settled := by
    subst hFile
    exact (settledFrom_compact _ _).trans h.settled
  valid _ hMem := h.valid _ (hFile ▸ List.mem_of_mem_filter hMem)
  preserves _ hMem := h.preserves _ (hFile ▸ List.mem_of_mem_filter hMem)
  kept := h.kept
  file := rfl

section Sessions

variable {Lossy : IoCall → Prop}

/-- The queue that has been opened, if any, mirrors the file. -/
def OpensAs (J : MemoryStorage → Prop) (final : MemoryStorage)
    (reply : TransportResult WritebackQueue) (world : World MemoryStorage) : Prop :=
  Settles J final world ∧ ∀ opened, reply = .ok opened → Mirrors J final opened.entries world

theorem opensAs_open (capacity : Nat) :
    Triple (unreliable Lossy) Alone (Settles J final) (WritebackQueue.open capacity).run
      (OpensAs J final) (Settles J final) := by
  refine Triple.bindExcept (fun reply w => Settles J final w ∧
    ∀ entries, reply = .ok entries → w.file = entries) ?_ (fun _ => stable_alone _) ?_ ?_ ?_
  · refine Triple.perform (stable_alone _) (fun _ => stable_alone _) (fun w h => h)
      (fun r w h => h.1) ?_
    intro w r w' hw hCall
    rcases hCall.inv with ⟨rfl, rfl⟩ | ⟨⟨err, rfl⟩, rfl | ⟨-, rfl⟩⟩
    · exact ⟨hw, fun entries h => Except.ok.inj h⟩
    · exact ⟨hw, fun entries h => by cases h⟩
    · exact ⟨hw, fun entries h => by cases h⟩
  · exact fun err w h => ⟨h.1, fun opened hOk => by cases hOk⟩
  · exact fun err w h => h.1
  · intro entries
    have hOpened : ∀ w, Mirrors J final (WritebackQueue.compactCompletedEntries entries) w →
        OpensAs J final (.ok ⟨capacity, WritebackQueue.compactCompletedEntries entries⟩) w := by
      intro w h
      refine ⟨h.toSettles, ?_⟩
      rintro opened ⟨⟩
      exact h
    simp only [ne_eq]
    split
    · refine Triple.bindExcept (fun reply w => Settles J final w ∧ (reply = .ok () →
        Mirrors J final (WritebackQueue.compactCompletedEntries entries) w)) ?_
        (fun _ => stable_alone _) ?_ ?_ ?_
      · refine triple_save ?_ ?_ ?_ (fun w h => h.1) fun r w h => h.1
        · intro w h
          have hCompact := h.1.compact (h.2 entries rfl)
          exact ⟨hCompact.toSettles, fun _ => hCompact⟩
        · exact fun w err h => ⟨h.1, fun hOk => by cases hOk⟩
        · exact fun w err _ h =>
            ⟨(h.1.compact (h.2 entries rfl)).toSettles, fun hOk => by cases hOk⟩
      · exact fun err w h => ⟨h.1, fun opened hOk => by cases hOk⟩
      · exact fun err w h => h.1
      · exact fun _ => .ret (stable_alone _) (fun w h => hOpened w (h.2 rfl)) fun w h => h.1
    · next hLength =>
      have hSame : WritebackQueue.compactCompletedEntries entries = entries :=
        List.filter_eq_self.mpr (List.length_filter_eq_length_iff.mp (not_not.mp hLength))
      refine .ret (stable_alone _) ?_ fun w h => h.1
      intro w h
      refine hOpened w ⟨h.1, ?_⟩
      rw [hSame, h.2 entries rfl]

theorem settles_session (capacity : Nat) :
    Triple faulty Alone (Settles J final) (session capacity) (fun _ => Settles J final)
      (Settles J final) := by
  refine Triple.bind (OpensAs J final) (opensAs_open capacity) ?_
  intro opened
  cases opened with
  | error err => exact .ret (stable_alone _) (fun w h => h.1) fun w h => h.1
  | ok queue =>
      refine Triple.bind (fun _ => Settles J final) ?_ fun _ =>
        .ret (stable_alone _) (fun w h => h) fun w h => h
      refine Triple.bind (fun _ => Settles J final) ?_ fun _ =>
        .ret (stable_alone _) (fun w h => h) fun w h => h
      exact (replayEnds_replayEntries queue.entries).weaken (fun w h => h.2 queue rfl)
        (fun _ _ h => h.1) fun _ h => h

theorem settles_sessions {before after : World MemoryStorage} (hBefore : Settles J final before)
    (hSessions : Relation.ReflTransGen (fun w w' => ∃ capacity, Session capacity w w') before
      after) : Settles J final after := by
  induction hSessions with
  | refl => exact hBefore
  | tail _ hStep ih =>
      obtain ⟨capacity, outcome, hRun⟩ := hStep
      have hEnd := settles_session capacity ih hRun
      cases outcome with
      | none => exact hEnd
      | some result => exact hEnd

end Sessions

/-! ## Recovery -/

/-- Opening the queue without faults reads the file and drops what is done. -/
theorem eval_open (capacity : Nat) (w : World MemoryStorage) :
    eval faultless (WritebackQueue.open capacity).run w =
      (.ok ⟨capacity, WritebackQueue.compactCompletedEntries w.file⟩,
        { w with file := WritebackQueue.compactCompletedEntries w.file }) := by
  have hLoad : eval faultless readEntries.run w = (.ok w.file, w) := rfl
  rw [WritebackQueue.open, ExceptT.run_bind, eval_bind, hLoad]
  simp only [ne_eq]
  split
  · rfl
  · next hLength =>
    have hSame : WritebackQueue.compactCompletedEntries w.file = w.file :=
      List.filter_eq_self.mpr (List.length_filter_eq_length_iff.mp (not_not.mp hLength))
    rw [hSame]
    rfl

/-- Recovery may be interrupted and repeated: a session in which nothing fails ends in the
same state, with an empty queue, whatever sessions came before it. -/
theorem recovery_idempotent {before after : World MemoryStorage}
    (hValid : ∀ entry ∈ before.file, entry.ValidPayload)
    (hSessions : Relation.ReflTransGen (fun w w' => ∃ capacity, Session capacity w w') before
      after) (capacity : Nat) :
    eval faultless (session capacity) after = (.ok (), ⟨settled before, []⟩) := by
  have hBefore : Settles (fun _ => True) (settled before) before :=
    ⟨rfl, hValid, fun _ _ _ _ => ⟨trivial, trivial⟩, trivial⟩
  have hAfter := settles_sessions hBefore hSessions
  obtain ⟨store, hDrained⟩ := eval_replayEntries_drained
    (WritebackQueue.compactCompletedEntries after.file)
    { after with file := WritebackQueue.compactCompletedEntries after.file }
    (fun entry hMem => hAfter.valid entry (List.mem_of_mem_filter hMem)) rfl
  have hEval : eval faultless (session capacity) after = (.ok (), ⟨store, []⟩) := by
    rw [session, eval_bind, eval_open]
    simp only
    rw [eval_bind, WritebackQueue.replayWithStore, WritebackQueue.replay, eval_bind, hDrained]
    rfl
  have hRun : Run faulty Alone (session capacity) after _ _ := run_eval Faulty.done _ _
  rw [hEval] at hRun
  have hEnd : Settles (fun _ => True) (settled before) ⟨store, []⟩ :=
    settles_session capacity hAfter hRun
  rw [hEval, ← hEnd.settled]
  rfl

end Replaying

/-! A queue in which a key occurs twice, and a crash between the put and the delete of its
first entry. -/

section Example

attribute [local instance] literalSerde

def repeatedQueue : List QueueEntry :=
  renameQueue ++ [⟨['1'], .kvPut ['b'] ['y'] [3], 0, false⟩]

def repeatedCrashed : World MemoryStorage :=
  stateAfter (World.handle MemoryStorage.handle) 4 (session 8) ⟨renameStore, repeatedQueue⟩

theorem crashed_repeated_recovers :
    eval faultless (session 8) repeatedCrashed =
      (.ok (), ⟨settled ⟨renameStore, repeatedQueue⟩, []⟩) := by
  have hValid : ∀ entry ∈ repeatedQueue, entry.ValidPayload := by
    intro entry hMem
    simp only [repeatedQueue, renameQueue, List.cons_append, List.nil_append, List.mem_cons,
      List.not_mem_nil, or_false] at hMem
    rcases hMem with rfl | rfl | rfl <;> trivial
  have hCrash : Session 8 ⟨renameStore, repeatedQueue⟩ repeatedCrashed :=
    ⟨none, run_stateAfter Faulty.done 4 (session 8) _⟩
  exact recovery_idempotent hValid (Relation.ReflTransGen.single ⟨8, hCrash⟩) 8

end Example

end EventFs.Transport
