import EventFs.Transport.QueueEffect

/-!
# Replay is exactly-once across crashes

A session opens the queue file and replays it. Any call of a session may fail
without effect, take effect and still report an error, or be the last before a
crash. While sessions follow one another, the file holds the entries still to be
done, and the storage is the state `s` those entries start from, except that the
work of the first entry may already be there in part (`Stage`). Applying the
remaining entries to `s` always leads to the same final state, so an empty file means
that this state has been reached.
-/

namespace EventFs.Transport

open Library Protocol Program

section Replay

variable [Serde]

/-! ## Faults and sessions -/

/-- Every call may be refused, or take effect without being acknowledged. -/
abbrev faulty : Behaviour io (World MemoryStorage) :=
  Faulty (World.handle MemoryStorage.handle) Fails fun _ => True

/-- Open the queue file and replay it, as a mount does when it starts. -/
def session (capacity : Nat) : Program io (TransportResult Unit) := do
  match ← (WritebackQueue.open capacity).run with
  | .error err => return .error err
  | .ok queue => return (← queue.replayWithStore).2

/-- One session, run to its end or cut off by a crash. -/
def Session (capacity : Nat) (before after : World MemoryStorage) : Prop :=
  ∃ outcome, Run faulty Alone (session capacity) before outcome after

def applyAll (queue : List QueueEntry) (state : MemoryStorage) : MemoryStorage :=
  queue.foldl (fun state entry => entry.apply state) state

/-- Pending entries with distinct keys and valid payloads, none of them recorded. -/
structure Ready (state : MemoryStorage) (queue : List QueueEntry) : Prop where
  pending : ∀ entry ∈ queue, entry.done = false
  distinct : (queue.map (·.idempotencyKey)).Nodup
  fresh : ∀ entry ∈ queue, entry.recorded state = false
  valid : ∀ entry ∈ queue, entry.ValidPayload

/-! ## The work of an entry -/

namespace QueueEntry

/-- The entry without the progress that replay notes in it. -/
def work (entry : QueueEntry) : QueueEntry where
  idempotencyKey := entry.idempotencyKey
  operation :=
    match entry.operation with
    | .publishJsonLines stream subject bytes _ => .publishJsonLines stream subject bytes 0
    | operation => operation
  attempts := 0
  done := entry.done

omit [Serde] in
@[simp] theorem work_attempt (entry : QueueEntry) : entry.attempt.work = entry.work := rfl

omit [Serde] in
theorem key_of_work {entry other : QueueEntry} (h : entry.work = other.work) :
    entry.idempotencyKey = other.idempotencyKey :=
  congrArg (fun e => e.idempotencyKey) h

omit [Serde] in
theorem done_of_work {entry other : QueueEntry} (h : entry.work = other.work) :
    entry.done = other.done :=
  congrArg (fun e => e.done) h

theorem put_work (entry : QueueEntry) : entry.work.put = entry.put := by
  obtain ⟨key, operation, attempts, done⟩ := entry
  cases operation <;> rfl

omit [Serde] in
theorem finish_work (entry : QueueEntry) : entry.work.finish = entry.finish := by
  obtain ⟨key, operation, attempts, done⟩ := entry
  cases operation <;> rfl

theorem apply_work (entry : QueueEntry) : entry.work.apply = entry.apply := by
  funext state
  rw [apply, apply, put_work, finish_work]

omit [Serde] in
theorem recorded_work (entry : QueueEntry) : entry.work.recorded = entry.recorded := by
  obtain ⟨key, operation, attempts, done⟩ := entry
  cases operation <;> rfl

theorem validPayload_work (entry : QueueEntry) :
    entry.work.ValidPayload ↔ entry.ValidPayload := by
  obtain ⟨key, operation, attempts, done⟩ := entry
  cases operation <;> rfl

theorem put_of_work {entry other : QueueEntry} (h : entry.work = other.work) :
    entry.put = other.put := by
  rw [← put_work, h, put_work]

theorem apply_of_work {entry other : QueueEntry} (h : entry.work = other.work) :
    entry.apply = other.apply := by
  rw [← apply_work, h, apply_work]

end QueueEntry

/-! ## The invariant -/

/-- The storage while the head of the queue is in progress. -/
def Stage (state : MemoryStorage) : List QueueEntry → MemoryStorage → Prop
  | [], store => store = state
  | entry :: _, store => store = state ∨ store = entry.put state ∨ store = entry.apply state

/-- From `state` the file leads to `final`, and the storage has got somewhere into the
first entry. -/
structure Pending (final state : MemoryStorage) (queue : List QueueEntry)
    (world : World MemoryStorage) : Prop where
  file : world.file = queue
  ready : Ready state queue
  stage : Stage state queue world.store
  leads : applyAll queue state = final

def Inv (final : MemoryStorage) (world : World MemoryStorage) : Prop :=
  ∃ state queue, Pending final state queue world

variable {final state : MemoryStorage} {entry other : QueueEntry} {rest : List QueueEntry}
  {world : World MemoryStorage}

theorem Pending.inv {queue : List QueueEntry} (h : Pending final state queue world) :
    Inv final world := ⟨state, queue, h⟩

theorem Ready.replaceHead (h : Ready state (entry :: rest)) (hWork : other.work = entry.work) :
    Ready state (other :: rest) where
  pending := by
    have hHead := h.pending entry List.mem_cons_self
    rw [← QueueEntry.done_of_work hWork] at hHead
    intro e hMem
    rcases List.mem_cons.mp hMem with rfl | hMem
    · exact hHead
    · exact h.pending e (List.mem_cons_of_mem entry hMem)
  distinct := by
    have := h.distinct
    rwa [List.map_cons, ← QueueEntry.key_of_work hWork] at this
  fresh := by
    have hHead := h.fresh entry List.mem_cons_self
    rw [← QueueEntry.recorded_work, ← hWork, QueueEntry.recorded_work] at hHead
    intro e hMem
    rcases List.mem_cons.mp hMem with rfl | hMem
    · exact hHead
    · exact h.fresh e (List.mem_cons_of_mem entry hMem)
  valid := by
    have hHead := h.valid entry List.mem_cons_self
    rw [← QueueEntry.validPayload_work, ← hWork, QueueEntry.validPayload_work] at hHead
    intro e hMem
    rcases List.mem_cons.mp hMem with rfl | hMem
    · exact hHead
    · exact h.valid e (List.mem_cons_of_mem entry hMem)

/-- Once the head is applied, the rest is ready from there on. -/
theorem Ready.tail (h : Ready state (entry :: rest)) : Ready (entry.apply state) rest where
  pending e hMem := h.pending e (List.mem_cons_of_mem entry hMem)
  distinct := (List.nodup_cons.mp h.distinct).2
  fresh e hMem := by
    have hKey : e.idempotencyKey ≠ entry.idempotencyKey := by
      intro hEq
      apply (List.nodup_cons.mp h.distinct).1
      show entry.idempotencyKey ∈ rest.map (·.idempotencyKey)
      rw [← hEq]
      exact List.mem_map_of_mem hMem
    rw [QueueEntry.recorded_apply_other hKey]
    exact h.fresh e (List.mem_cons_of_mem entry hMem)
  valid e hMem := h.valid e (List.mem_cons_of_mem entry hMem)

/-- Noting progress in the head changes nothing. -/
theorem Pending.replaceHead (h : Pending final state (entry :: rest) world)
    (hWork : other.work = entry.work) :
    Pending final state (other :: rest) { world with file := other :: rest } where
  file := rfl
  ready := h.ready.replaceHead hWork
  stage := by
    have hStage := h.stage
    simpa only [Stage, QueueEntry.put_of_work hWork, QueueEntry.apply_of_work hWork] using hStage
  leads := by
    have hLeads := h.leads
    rwa [applyAll, List.foldl_cons, ← QueueEntry.apply_of_work hWork] at hLeads

/-- An entry that has been applied may leave the queue. -/
theorem Pending.dropHead (h : Pending final state (entry :: rest) world)
    (hApplied : world.store = entry.apply state) :
    Pending final (entry.apply state) rest { world with file := rest } where
  file := rfl
  ready := h.ready.tail
  stage := by
    cases rest with
    | nil => exact hApplied
    | cons next rest => exact Or.inl hApplied
  leads := by
    have hLeads := h.leads
    rwa [applyAll, List.foldl_cons] at hLeads

theorem Pending.withStore {store : MemoryStorage} (h : Pending final state (entry :: rest) world)
    (hStage : Stage state (entry :: rest) store) :
    Pending final state (entry :: rest) { world with store } where
  file := h.file
  ready := h.ready
  stage := hStage
  leads := h.leads

/-- Both pieces of evidence together mean that the entry has been applied. -/
theorem Pending.applied (h : Pending final state (entry :: rest) world)
    (hRecorded : entry.recorded world.store = true)
    (hFinished : entry.finished world.store = true) : world.store = entry.apply state := by
  rcases h.stage with hStore | hStore | hStore
  · rw [hStore, h.ready.fresh entry List.mem_cons_self] at hRecorded
    cases hRecorded
  · rw [hStore] at hFinished ⊢
    exact (QueueEntry.finish_of_finished hFinished).symm
  · exact hStore

/-! ## Calls -/

/-- A storage call under faults, from what it does when it works. -/
theorem triple_call {request : StorageCall} {P C : World MemoryStorage → Prop}
    {Q : TransportResult request.Value → World MemoryStorage → Prop}
    (hDone : ∀ w, P w → Q (MemoryStorage.handle w.store request).1
      { w with store := (MemoryStorage.handle w.store request).2 })
    (hRefused : ∀ w err, P w → Q (.error err) w)
    (hLost : ∀ w err, P w →
      Q (.error err) { w with store := (MemoryStorage.handle w.store request).2 })
    (hP : ∀ w, P w → C w) (hQ : ∀ r w, Q r w → C w) :
    Triple faulty Alone P (call request).run Q C := by
  refine Triple.perform (stable_alone P) (fun r => stable_alone (Q r)) hP hQ ?_
  intro w r w' hw hCall
  rcases hCall.inv with ⟨rfl, rfl⟩ | ⟨⟨err, rfl⟩, rfl | ⟨-, rfl⟩⟩
  · exact hDone w hw
  · exact hRefused w' err hw
  · exact hLost w err hw

/-- A call that only looks leaves the world alone. -/
theorem triple_read {request : StorageCall} (hReads : request.reads = true)
    {P C : World MemoryStorage → Prop}
    {Q : TransportResult request.Value → World MemoryStorage → Prop}
    (hDone : ∀ w, P w → Q (MemoryStorage.handle w.store request).1 w)
    (hError : ∀ w err, P w → Q (.error err) w) (hP : ∀ w, P w → C w)
    (hQ : ∀ r w, Q r w → C w) : Triple faulty Alone P (call request).run Q C := by
  refine triple_call ?_ hError ?_ hP hQ
  · intro w hw
    rw [MemoryStorage.handle_reads hReads]
    exact hDone w hw
  · intro w err hw
    rw [MemoryStorage.handle_reads hReads]
    exact hError w err hw

theorem triple_persist {entries : List QueueEntry} {P C : World MemoryStorage → Prop}
    {Q : TransportResult Unit → World MemoryStorage → Prop}
    (hDone : ∀ w r, P w → Q r { w with file := entries })
    (hRefused : ∀ w err, P w → Q (.error err) w) (hP : ∀ w, P w → C w)
    (hQ : ∀ r w, Q r w → C w) : Triple faulty Alone P (persistEntries entries).run Q C := by
  refine Triple.perform (stable_alone P) (fun r => stable_alone (Q r)) hP hQ ?_
  intro w r w' hw hCall
  rcases hCall.inv with ⟨rfl, rfl⟩ | ⟨⟨err, rfl⟩, rfl | ⟨-, rfl⟩⟩
  · exact hDone w (.ok ()) hw
  · exact hRefused w' err hw
  · exact hDone w (.error err) hw

/-! ## The executor -/

/-- The head is still pending, and an answer tells its evidence in the storage. -/
def Reports (final state : MemoryStorage) (entry : QueueEntry) (rest : List QueueEntry)
    (evidence : MemoryStorage → Bool) (reply : TransportResult Bool)
    (world : World MemoryStorage) : Prop :=
  Pending final state (entry :: rest) world ∧
    ∀ answer, reply = .ok answer → answer = evidence world.store

/-- The outcome of `isApplied`: an affirmative answer means the entry is applied. -/
def Confirms (final state : MemoryStorage) (entry : QueueEntry) (rest : List QueueEntry)
    (reply : TransportResult Bool) (world : World MemoryStorage) : Prop :=
  Pending final state (entry :: rest) world ∧
    (reply = .ok true → world.store = entry.apply state)

theorem Pending.confirms_error {err : TransportError}
    (h : Pending final state (entry :: rest) world) :
    Confirms final state entry rest (.error err) world :=
  ⟨h, fun hTrue => by cases hTrue⟩

/-- A rename is applied when its put is recorded and its delete finds nothing. -/
theorem triple_renameApplied {lookRecord lookDelete : Transport Bool}
    (hRecord : Triple faulty Alone (Pending final state (entry :: rest)) lookRecord.run
      (Reports final state entry rest entry.recorded) (Inv final))
    (hDelete : Triple faulty Alone
      (fun w => Pending final state (entry :: rest) w ∧ entry.recorded w.store = true)
      lookDelete.run (Confirms final state entry rest) (Inv final)) :
    Triple faulty Alone (Pending final state (entry :: rest))
      (do
        let destinationApplied ← lookRecord
        if !destinationApplied then
          return false
        lookDelete : Transport Bool).run
      (Confirms final state entry rest) (Inv final) := by
  refine Triple.bindExcept _ hRecord (fun _ => stable_alone _) ?_ ?_ ?_
  · intro err w h
    exact h.1.confirms_error
  · intro err w h
    exact h.1.inv
  · intro recorded
    cases recorded with
    | false =>
        exact .ret (stable_alone _) (fun w h => ⟨h.1, fun hTrue => by cases hTrue⟩)
          fun w h => h.1.inv
    | true =>
        exact hDelete.weaken (fun w h => ⟨h.1, (h.2 true rfl).symm⟩) (fun _ _ h => h)
          fun _ h => h

theorem triple_isApplied :
    Triple faulty Alone (Pending final state (entry :: rest))
      (StoreReplayExecutor.isApplied entry).run (Confirms final state entry rest)
      (Inv final) := by
  have hInv : ∀ w, Pending final state (entry :: rest) w → Inv final w := fun w hw => hw.inv
  have hInvC : ∀ r w, Confirms final state entry rest r w → Inv final w :=
    fun r w hw => hw.1.inv
  have hError : ∀ w err, Pending final state (entry :: rest) w →
      Confirms final state entry rest (.error err) w := fun w err hw => hw.confirms_error
  -- an answer about the record, where there is nothing to delete
  have hPut : (∀ store, entry.finished store = true) → ∀ w,
      Pending final state (entry :: rest) w →
      Confirms final state entry rest (.ok (entry.recorded w.store)) w := by
    intro hFinished w hw
    exact ⟨hw, fun h => hw.applied (Except.ok.inj h) (hFinished w.store)⟩
  have hLook : ∀ w, Pending final state (entry :: rest) w →
      Reports final state entry rest entry.recorded (.ok (entry.recorded w.store)) w := by
    intro w hw
    exact ⟨hw, fun answer h => (Except.ok.inj h).symm⟩
  have hLookError : ∀ w err, Pending final state (entry :: rest) w →
      Reports final state entry rest entry.recorded (.error err) w := by
    intro w err hw
    exact ⟨hw, fun answer h => by cases h⟩
  -- an answer about the delete, once the record has been seen
  have hDelete : ∀ w, Pending final state (entry :: rest) w ∧ entry.recorded w.store = true →
      Confirms final state entry rest (.ok (entry.finished w.store)) w := by
    rintro w ⟨hw, hRecorded⟩
    exact ⟨hw, fun h => hw.applied hRecorded (Except.ok.inj h)⟩
  obtain ⟨key, operation, attempts, done⟩ := entry
  cases operation with
  | kvPut | materializedPut | objectPut =>
      exact triple_read rfl (hPut fun _ => rfl) hError hInv hInvC
  | publishJsonLines stream subject bytes applied =>
      refine triple_read rfl ?_ hError hInv hInvC
      intro w hw
      have hReply : MemoryStorage.publishJsonLinesApplied w.store stream subject bytes key =
          .ok (w.store.streamApplied.contains (stream, subject, key)) := by
        have hValid : validateJsonLines subject bytes = .ok () :=
          hw.ready.valid _ List.mem_cons_self
        rw [MemoryStorage.publishJsonLinesApplied, hValid]
      show Confirms _ _ _ _ (MemoryStorage.publishJsonLinesApplied w.store _ _ _ _) w
      rw [hReply]
      exact hPut (fun _ => rfl) w hw
  | kvRenameComplete fromBucket fromKey expected toBucket toKey bytes =>
      refine triple_renameApplied (triple_read rfl hLook hLookError hInv fun r w h => hInv w h.1)
        (triple_read rfl ?_ (fun w err h => hError w err h.1) (fun w h => hInv w h.1) hInvC)
      intro w h
      show Confirms _ _ _ _ (MemoryStorage.kvDeleteIfRevisionApplied w.store _ _ _) w
      rw [MemoryStorage.kvDeleteIfRevisionApplied_eq]
      exact hDelete w h
  | objectRenameComplete fromBucket fromObject expected nuid toBucket toObject bytes =>
      exact triple_renameApplied
        (triple_read rfl hLook hLookError hInv fun r w h => hInv w h.1)
        (triple_read rfl hDelete (fun w err h => hError w err h.1) (fun w h => hInv w h.1) hInvC)

/-- The head with its put done. -/
def HasPut (final state : MemoryStorage) (entry : QueueEntry) (rest : List QueueEntry)
    (world : World MemoryStorage) : Prop :=
  Pending final state (entry :: rest) world ∧
    (world.store = entry.put state ∨ world.store = entry.apply state)

/-- A successful execution leaves the entry applied. -/
def Executed (final state : MemoryStorage) (entry : QueueEntry) (rest : List QueueEntry)
    (reply : TransportResult Unit) (world : World MemoryStorage) : Prop :=
  Pending final state (entry :: rest) world ∧
    (reply = .ok () → world.store = entry.apply state)

/-- The idempotent put of the head, wherever replay has got to. -/
theorem Pending.putOnce (h : Pending final state (entry :: rest) world) {store : MemoryStorage}
    (hStore : store = if entry.recorded world.store then world.store
      else entry.put world.store) :
    HasPut final state entry rest { world with store } := by
  have hPut : store = entry.put state ∨ store = entry.apply state := by
    have hRecorded := QueueEntry.recorded_put (h.ready.valid entry List.mem_cons_self) state
    rcases h.stage with hWorld | hWorld | hWorld
    · rw [hWorld, h.ready.fresh entry List.mem_cons_self] at hStore
      exact Or.inl hStore
    · rw [hWorld, hRecorded] at hStore
      exact Or.inl hStore
    · rw [hWorld, QueueEntry.apply, QueueEntry.recorded_finish, hRecorded] at hStore
      exact Or.inr hStore
  exact ⟨h.withStore (Or.inr hPut), hPut⟩

/-- The conditional delete after the put. -/
theorem HasPut.finish (h : HasPut final state entry rest world) :
    entry.finish world.store = entry.apply state := by
  rcases h.2 with hStore | hStore
  · rw [hStore, QueueEntry.apply]
  · rw [hStore, QueueEntry.apply, QueueEntry.finish_finish]

theorem Pending.executed_error {err : TransportError}
    (h : Pending final state (entry :: rest) world) :
    Executed final state entry rest (.error err) world :=
  ⟨h, fun hOk => by cases hOk⟩

/-- The put of the head as a call. -/
theorem triple_put {request : StorageCall}
    (hState : ∀ w, Pending final state (entry :: rest) w →
      (MemoryStorage.handle w.store request).2 =
        if entry.recorded w.store then w.store else entry.put w.store) :
    Triple faulty Alone (Pending final state (entry :: rest)) (call request).run
      (fun reply w => Pending final state (entry :: rest) w ∧
        ∀ value, reply = .ok value → HasPut final state entry rest w) (Inv final) := by
  refine triple_call ?_ ?_ ?_ (fun w hw => hw.inv) (fun r w h => h.1.inv)
  · intro w hw
    have hPut := hw.putOnce (hState w hw)
    exact ⟨hPut.1, fun _ _ => hPut⟩
  · intro w err hw
    exact ⟨hw, fun value hValue => by cases hValue⟩
  · intro w err hw
    exact ⟨(hw.putOnce (hState w hw)).1, fun value hValue => by cases hValue⟩

/-- An execution is the put followed by what completes it. -/
theorem triple_putThen {request : StorageCall} {next : request.Value → Transport Unit}
    (hState : ∀ w, Pending final state (entry :: rest) w →
      (MemoryStorage.handle w.store request).2 =
        if entry.recorded w.store then w.store else entry.put w.store)
    (hNext : ∀ value, Triple faulty Alone (HasPut final state entry rest) (next value).run
      (Executed final state entry rest) (Inv final)) :
    Triple faulty Alone (Pending final state (entry :: rest)) (call request >>= next).run
      (Executed final state entry rest) (Inv final) := by
  refine Triple.bindExcept _ (triple_put hState) (fun _ => stable_alone _) ?_ ?_ ?_
  · intro err w h
    exact h.1.executed_error
  · intro err w h
    exact h.1.inv
  · intro value
    exact (hNext value).weaken (fun w h => h.2 value rfl) (fun _ _ h => h) fun _ h => h

theorem triple_complete (hNothing : ∀ store, entry.finish store = store) :
    Triple faulty Alone (HasPut final state entry rest) (pure () : Transport Unit).run
      (Executed final state entry rest) (Inv final) := by
  refine .ret (stable_alone _) ?_ fun w h => h.1.inv
  intro w h
  refine ⟨h.1, fun _ => ?_⟩
  rw [← h.finish, hNothing]

theorem triple_delete {request : StorageCall}
    (hState : ∀ store, (MemoryStorage.handle store request).2 = entry.finish store) :
    Triple faulty Alone (HasPut final state entry rest) (call request).run
      (fun reply w => Pending final state (entry :: rest) w ∧
        ∀ value, reply = .ok value → w.store = entry.apply state) (Inv final) := by
  have hApplied : ∀ w, HasPut final state entry rest w →
      (MemoryStorage.handle w.store request).2 = entry.apply state :=
    fun w h => (hState w.store).trans h.finish
  refine triple_call ?_ ?_ ?_ (fun w h => h.1.inv) (fun r w h => h.1.inv)
  · intro w h
    exact ⟨h.1.withStore (Or.inr (Or.inr (hApplied w h))), fun _ _ => hApplied w h⟩
  · intro w err h
    exact ⟨h.1, fun value hv => by cases hv⟩
  · intro w err h
    exact ⟨h.1.withStore (Or.inr (Or.inr (hApplied w h))), fun value hv => by cases hv⟩

theorem triple_execute :
    Triple faulty Alone (Pending final state (entry :: rest))
      (StoreReplayExecutor.execute entry).run (Executed final state entry rest)
      (Inv final) := by
  obtain ⟨key, operation, attempts, done⟩ := entry
  cases operation with
  | kvPut bucket name bytes =>
      exact triple_putThen (fun w _ => MemoryStorage.kvPutIdempotent_state _ _ _ _ _)
        fun _ => triple_complete fun _ => rfl
  | materializedPut bucket name bytes =>
      exact triple_putThen (fun w _ => MemoryStorage.kvPutIdempotent_state _ _ _ _ _)
        fun _ => triple_complete fun _ => rfl
  | kvRenameComplete fromBucket fromKey expected toBucket toKey bytes =>
      refine triple_putThen (fun w _ => MemoryStorage.kvPutIdempotent_state _ _ _ _ _) ?_
      intro value
      refine (triple_delete fun _ => rfl).weaken (fun _ h => h) ?_ fun _ h => h
      exact fun reply w h => ⟨h.1, h.2 ()⟩
  | objectPut bucket object bytes =>
      exact triple_putThen (fun w _ => MemoryStorage.objectPutIdempotent_state _ _ _ _ _)
        fun _ => triple_complete fun _ => rfl
  | objectRenameComplete fromBucket fromObject expected nuid toBucket toObject bytes =>
      refine triple_putThen (fun w _ => MemoryStorage.objectPutIdempotent_state _ _ _ _ _) ?_
      intro value
      refine (triple_delete fun _ => rfl).weaken (fun _ h => h) ?_ fun _ h => h
      exact fun reply w h => ⟨h.1, h.2 ()⟩
  | publishJsonLines stream subject bytes applied =>
      refine triple_putThen ?_ fun _ => triple_complete fun _ => rfl
      intro w hw
      have hValid : validateJsonLines subject bytes = .ok () :=
        hw.ready.valid _ List.mem_cons_self
      obtain ⟨lines, hLines⟩ := jsonLines_of_validateJsonLines hValid
      simp only [QueueEntry.put, QueueEntry.recorded, hLines]
      exact MemoryStorage.publishJsonLines_state w.store stream key hValid hLines

/-- Noting how far a failed publish got does not change the work of the entry. -/
theorem triple_refresh :
    Triple faulty Alone (Pending final state (entry :: rest))
      (StoreReplayExecutor.refreshAfterFailedExecute entry)
      (fun result w => Pending final state (entry :: rest) w ∧ result.1.work = entry.work)
      (Inv final) := by
  simp only [StoreReplayExecutor.refreshAfterFailedExecute]
  split
  · next stream subject bytes applied hOperation =>
    refine Triple.bind (fun _ => Pending final state (entry :: rest)) ?_ ?_
    · exact triple_read rfl (fun w h => h) (fun w err h => h) (fun w h => h.inv)
        fun r w h => h.inv
    · intro reply
      cases reply with
      | error err => exact .ret (stable_alone _) (fun w h => ⟨h, rfl⟩) fun w h => h.inv
      | ok durable =>
          refine .ret (stable_alone _) ?_ fun w h => h.inv
          intro w h
          exact ⟨h, by simp [QueueEntry.work, hOperation]⟩
  · exact .ret (stable_alone _) (fun w h => ⟨h, rfl⟩) fun w h => h.inv

/-! ## The loop -/

/-- Persisting the rest of the queue after the head has been applied, and going on. -/
theorem triple_drop {current : QueueEntry}
    (hLoop : Triple faulty Alone (Pending final (entry.apply state) rest)
      (replayEntries storeReplayExecutor rest) (fun _ => Inv final) (Inv final)) :
    Triple faulty Alone
      (fun w => Pending final state (entry :: rest) w ∧ w.store = entry.apply state)
      (do
        match ← (persistEntries rest).run with
        | .error err => return (current :: rest, .error err)
        | .ok () => replayEntries storeReplayExecutor rest)
      (fun _ => Inv final) (Inv final) := by
  refine Triple.bind (fun reply w => Inv final w ∧
    (reply = .ok () → Pending final (entry.apply state) rest w)) ?_ ?_
  · refine triple_persist ?_ ?_ (fun w h => h.1.inv) fun r w h => h.1
    · intro w r h
      have hDropped := h.1.dropHead h.2
      exact ⟨hDropped.inv, fun _ => hDropped⟩
    · intro w err h
      exact ⟨h.1.inv, fun hOk => by cases hOk⟩
  · intro reply
    cases reply with
    | error err => exact .ret (stable_alone _) (fun w h => h.1) fun w h => h.1
    | ok _ => exact hLoop.weaken (fun w h => h.2 rfl) (fun _ _ h => h) fun _ h => h

/-- From a persisted attempt on: execute the head and drop it, or note how far it got. -/
theorem triple_attempted
    (hLoop : Triple faulty Alone (Pending final (entry.apply state) rest)
      (replayEntries storeReplayExecutor rest) (fun _ => Inv final) (Inv final)) :
    Triple faulty Alone (Pending final state (entry :: rest))
      (do
        match ← (storeReplayExecutor.execute entry).run with
        | .ok () =>
            match ← (persistEntries rest).run with
            | .error err => return (entry :: rest, .error err)
            | .ok () => replayEntries storeReplayExecutor rest
        | .error err => do
            let (refreshed, _) ← storeReplayExecutor.refreshAfterFailedExecute entry
            match ← (persistEntries (refreshed :: rest)).run with
            | .error persistErr => return (entry :: rest, .error persistErr)
            | .ok () => return (refreshed :: rest, .error err))
      (fun _ => Inv final) (Inv final) := by
  refine Triple.bind (Executed final state entry rest) triple_execute ?_
  intro reply
  cases reply with
  | ok _ =>
      exact (triple_drop hLoop).weaken (fun w h => ⟨h.1, h.2 rfl⟩) (fun _ _ h => h) fun _ h => h
  | error err =>
      refine Triple.bind _ (triple_refresh.weaken (fun w h => h.1) (fun _ _ h => h) fun _ h => h) ?_
      rintro ⟨refreshed, result⟩
      refine Triple.bind (fun _ => Inv final) ?_ ?_
      · refine triple_persist ?_ (fun w err h => h.1.inv) (fun w h => h.1.inv) fun r w h => h
        intro w r h
        exact (h.1.replaceHead h.2).inv
      · intro persisted
        cases persisted <;> exact .ret (stable_alone _) (fun w h => h) fun w h => h

/-- Replay keeps the invariant at every point, by induction on the queue. -/
theorem triple_replayEntries (queue : List QueueEntry) :
    ∀ state, Triple faulty Alone (Pending final state queue)
      (replayEntries storeReplayExecutor queue) (fun _ => Inv final) (Inv final) := by
  induction queue with
  | nil =>
      intro state
      exact .ret (stable_alone _) (fun w h => h.inv) fun w h => h.inv
  | cons entry rest ih =>
      intro state
      refine Triple.assume (fun w h => h.ready.pending entry List.mem_cons_self) ?_
      intro hDone
      rw [replayEntries, if_neg (by simp [hDone])]
      refine Triple.bind (Confirms final state entry rest) triple_isApplied ?_
      intro applied
      match applied with
      | .error err => exact .ret (stable_alone _) (fun w h => h.1.inv) fun w h => h.1.inv
      | .ok true =>
          exact (triple_drop (ih _)).weaken (fun w h => ⟨h.1, h.2 rfl⟩) (fun _ _ h => h)
            fun _ h => h
      | .ok false =>
          refine Triple.bind (fun reply w => Inv final w ∧
            (reply = .ok () → Pending final state (entry.attempt :: rest) w)) ?_ ?_
          · refine triple_persist ?_ ?_ (fun w h => h.1.inv) fun r w h => h.1
            · intro w r h
              have hAttempt := h.1.replaceHead (QueueEntry.work_attempt entry)
              exact ⟨hAttempt.inv, fun _ => hAttempt⟩
            · intro w err h
              exact ⟨h.1.inv, fun hOk => by cases hOk⟩
          · intro reply
            match reply with
            | .error err => exact .ret (stable_alone _) (fun w h => h.1) fun w h => h.1
            | .ok () =>
                exact (triple_attempted (ih _)).weaken (fun w h => h.2 rfl) (fun _ _ h => h)
                  fun _ h => h

/-! ## Sessions -/

/-- Opening the queue reads the file; with nothing to compact it writes nothing. -/
theorem triple_open {queue : List QueueEntry} {capacity : Nat} :
    Triple faulty Alone (Pending final state queue) (WritebackQueue.open capacity).run
      (fun reply w => Pending final state queue w ∧
        ∀ opened, reply = .ok opened → opened.entries = queue) (Inv final) := by
  refine Triple.bindExcept (fun reply w => Pending final state queue w ∧
    ∀ entries, reply = .ok entries → entries = queue) ?_ (fun _ => stable_alone _) ?_ ?_ ?_
  · refine Triple.perform (stable_alone _) (fun _ => stable_alone _) (fun w h => h.inv)
      (fun r w h => h.1.inv) ?_
    intro w r w' hw hCall
    rcases hCall.inv with ⟨rfl, rfl⟩ | ⟨⟨err, rfl⟩, rfl | ⟨-, rfl⟩⟩
    · exact ⟨hw, fun entries h => (Except.ok.inj h).symm.trans hw.file⟩
    · exact ⟨hw, fun entries h => by cases h⟩
    · exact ⟨hw, fun entries h => by cases h⟩
  · intro err w h
    exact ⟨h.1, fun opened hOk => by cases hOk⟩
  · intro err w h
    exact h.1.inv
  · intro entries
    refine Triple.assume (fun w h => And.intro (h.2 entries rfl) h.1.ready.pending) ?_
    rintro ⟨rfl, hPending⟩
    have hCompact : WritebackQueue.compactCompletedEntries entries = entries := by
      rw [WritebackQueue.compactCompletedEntries, List.filter_eq_self]
      intro e hMem
      simp [hPending e hMem]
    simp only [hCompact, ne_eq, not_true_eq_false, if_false]
    refine .ret (stable_alone _) ?_ fun w h => h.1.inv
    intro w h
    exact ⟨h.1, fun opened hOk => by cases hOk; rfl⟩

theorem triple_session (capacity : Nat) :
    Triple faulty Alone (Inv final) (session capacity) (fun _ => Inv final) (Inv final) := by
  refine Triple.exists fun state => Triple.exists fun queue => ?_
  refine Triple.bind _ triple_open ?_
  intro opened
  cases opened with
  | error err => exact .ret (stable_alone _) (fun w h => h.1.inv) fun w h => h.1.inv
  | ok opened =>
      refine Triple.assume (fun w h => h.2 opened rfl) ?_
      rintro rfl
      refine Triple.bind (fun _ => Inv final) ?_ ?_
      · refine Triple.bind (fun _ => Inv final)
          ((triple_replayEntries opened.entries state).weaken (fun w h => h.1) (fun _ _ h => h)
            fun _ h => h) ?_
        intro result
        exact .ret (stable_alone _) (fun w h => h) fun w h => h
      · intro result
        exact .ret (stable_alone _) (fun w h => h) fun w h => h

theorem inv_of_sessions {capacity : Nat} {before after : World MemoryStorage}
    (hSessions : Relation.ReflTransGen (Session capacity) before after)
    (hInv : Inv final before) : Inv final after := by
  induction hSessions with
  | refl => exact hInv
  | tail _ hStep ih =>
      obtain ⟨outcome, hRun⟩ := hStep
      have hEnd := triple_session capacity ih hRun
      cases outcome with
      | none => exact hEnd
      | some result => exact hEnd

theorem inv_of_ready {store : MemoryStorage} {queue : List QueueEntry}
    (hReady : Ready store queue) : Inv (applyAll queue store) ⟨store, queue⟩ := by
  refine ⟨store, queue, rfl, hReady, ?_, rfl⟩
  cases queue with
  | nil => rfl
  | cons entry rest => exact Or.inl rfl

/-- Whatever crashes and errors the sessions meet, once the file is empty every entry
has been executed exactly once and in order. -/
theorem replay_drained_eq_applyAll {capacity : Nat} {store : MemoryStorage}
    {queue : List QueueEntry} (hReady : Ready store queue) {world : World MemoryStorage}
    (hSessions : Relation.ReflTransGen (Session capacity) ⟨store, queue⟩ world)
    (hDrained : world.file = []) : world.store = applyAll queue store := by
  have hInv := inv_of_sessions hSessions (inv_of_ready hReady)
  obtain ⟨state, left, hPending⟩ := hInv
  obtain rfl : left = [] := hPending.file.symm.trans hDrained
  exact hPending.stage.trans hPending.leads

end Replay

/-! A rename and a put, with a crash between the put and the delete of the rename. -/

/-- Accepts the literals of JSON and nothing else. -/
@[reducible] def literalSerde : Serde where
  fromStr s :=
    if s = "null".toList ∨ s = "true".toList ∨ s = "false".toList then .ok ()
    else .error "expected value at line 1 column 1".toList
  fromSlice s :=
    if s = Text.asBytes "null".toList ∨ s = Text.asBytes "true".toList ∨
        s = Text.asBytes "false".toList then .ok ()
    else .error "expected value at line 1 column 1".toList
  utf8Error _ := "invalid utf-8 sequence of 1 bytes from index 0".toList

def renameStore : MemoryStorage := (MemoryStorage.new.putKv ['b'] ['x'] [1]).2

def renameQueue : List QueueEntry :=
  [⟨['1'], .kvRenameComplete ['b'] ['x'] 1 ['b'] ['y'] [1], 0, false⟩,
    ⟨['2'], .kvPut ['b'] ['x'] [2], 0, false⟩]

/-- The first session stops right after its fourth call, the put of the rename. -/
def renameCrashed : World MemoryStorage :=
  letI := literalSerde
  stateAfter (World.handle MemoryStorage.handle) 4 (session 8) ⟨renameStore, renameQueue⟩

def renameReplayed : World MemoryStorage :=
  letI := literalSerde
  (eval (World.handle MemoryStorage.handle) (session 8) renameCrashed).2

theorem renameQueue_ready : @Ready literalSerde renameStore renameQueue := by
  let _ := literalSerde
  refine ⟨by decide, by decide, by decide, ?_⟩
  intro entry hMem
  simp only [renameQueue, List.mem_cons, List.not_mem_nil, or_false] at hMem
  rcases hMem with rfl | rfl <;> trivial

theorem crashed_rename_replayed_once :
    renameReplayed.store = @applyAll literalSerde renameQueue renameStore := by
  let _ := literalSerde
  have hCrash : Session 8 ⟨renameStore, renameQueue⟩ renameCrashed :=
    ⟨none, run_stateAfter Faulty.done 4 (session 8) _⟩
  have hReplay : Session 8 renameCrashed renameReplayed := ⟨_, run_eval Faulty.done (session 8) _⟩
  exact replay_drained_eq_applyAll renameQueue_ready
    (Relation.ReflTransGen.tail (.single hCrash) hReplay) (by decide)

end EventFs.Transport
