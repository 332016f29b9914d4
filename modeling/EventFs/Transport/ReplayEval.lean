import EventFs.Transport.ReplayOnce

/-!
# Replay without faults

Without faults no call of a replay fails, so the queue is drained; by the invariant of
`ReplayOnce` the storage is then the one all pending entries lead to.
-/

namespace EventFs.Transport

open Library Protocol Program

variable [Serde]

/-- The world whose calls do what they should. -/
abbrev faultless : Handler io (World MemoryStorage) := World.handle MemoryStorage.handle

/-- From this world the steps return a value and leave the queue file alone. -/
def Succeeds {α : Type} (p : Transport α) (w : World MemoryStorage) : Prop :=
  ∃ a store, eval faultless p.run w = (.ok a, { w with store })

theorem Succeeds.call {request : StorageCall} {w : World MemoryStorage}
    (h : ∃ value, (MemoryStorage.handle w.store request).1 = .ok value) :
    Succeeds (Transport.call request) w := by
  obtain ⟨value, hValue⟩ := h
  refine ⟨value, (MemoryStorage.handle w.store request).2, ?_⟩
  rw [← hValue]
  rfl

theorem Succeeds.bind {α β : Type} {p : Transport α} {f : α → Transport β}
    {w : World MemoryStorage} (hFirst : Succeeds p w)
    (hSecond : ∀ a store, Succeeds (f a) { w with store }) : Succeeds (p >>= f) w := by
  obtain ⟨a, store, hEval⟩ := hFirst
  obtain ⟨b, store', hEval'⟩ := hSecond a store
  refine ⟨b, store', ?_⟩
  rw [ExceptT.run_bind, eval_bind, hEval]
  exact hEval'

theorem Succeeds.pure {α : Type} (a : α) (w : World MemoryStorage) :
    Succeeds (Pure.pure a : Transport α) w := ⟨a, w.store, rfl⟩

omit [Serde] in
theorem kvPutIdempotent_ok (store : MemoryStorage) (bucket name : Str) (bytes : Bytes)
    (key : Str) : ∃ revision, (store.kvPutIdempotent bucket name bytes key).1 = .ok revision := by
  simp only [MemoryStorage.kvPutIdempotent]
  split <;> exact ⟨_, rfl⟩

omit [Serde] in
theorem objectPutIdempotent_ok (store : MemoryStorage) (bucket name : Str) (bytes : Bytes)
    (key : Str) : ∃ value, (store.objectPutIdempotent bucket name bytes key).1 = .ok value := by
  refine ⟨(), ?_⟩
  simp only [MemoryStorage.objectPutIdempotent]
  split <;> rfl

theorem publishJsonLines_ok (store : MemoryStorage) (stream seed : Str) {subject : Str}
    {bytes : Bytes} (hValid : validateJsonLines subject bytes = .ok ()) :
    ∃ value, (store.publishJsonLines stream subject bytes seed).1 = .ok value := by
  obtain ⟨lines, hLines⟩ := jsonLines_of_validateJsonLines hValid
  simp only [MemoryStorage.publishJsonLines, hValid, hLines]
  split <;> exact ⟨_, rfl⟩

theorem isApplied_succeeds {entry : QueueEntry} (hValid : entry.ValidPayload)
    (w : World MemoryStorage) : Succeeds (StoreReplayExecutor.isApplied entry) w := by
  obtain ⟨key, operation, attempts, done⟩ := entry
  cases operation with
  | kvPut | materializedPut | objectPut => exact .call ⟨_, rfl⟩
  | publishJsonLines stream subject bytes applied =>
      have hLines : validateJsonLines subject bytes = .ok () := hValid
      refine .call ⟨w.store.streamApplied.contains (stream, subject, key), ?_⟩
      show MemoryStorage.publishJsonLinesApplied w.store stream subject bytes key = _
      rw [MemoryStorage.publishJsonLinesApplied, hLines]
  | kvRenameComplete fromBucket fromKey expected toBucket toKey bytes =>
      refine Succeeds.bind (.call ⟨_, rfl⟩) ?_
      intro recorded store
      cases recorded with
      | false => exact .pure false _
      | true =>
          exact .call ⟨_, MemoryStorage.kvDeleteIfRevisionApplied_eq store fromBucket fromKey
            expected⟩
  | objectRenameComplete fromBucket fromObject expected nuid toBucket toObject bytes =>
      refine Succeeds.bind (.call ⟨_, rfl⟩) ?_
      intro recorded store
      cases recorded with
      | false => exact .pure false _
      | true => exact .call ⟨_, rfl⟩

theorem execute_succeeds {entry : QueueEntry} (hValid : entry.ValidPayload)
    (w : World MemoryStorage) : Succeeds (StoreReplayExecutor.execute entry) w := by
  obtain ⟨key, operation, attempts, done⟩ := entry
  cases operation with
  | kvPut | materializedPut =>
      exact .bind (.call (kvPutIdempotent_ok _ _ _ _ _)) fun _ _ => .pure () _
  | objectPut => exact .bind (.call (objectPutIdempotent_ok _ _ _ _ _)) fun _ _ => .pure () _
  | kvRenameComplete fromBucket fromKey expected =>
      refine .bind (.call (kvPutIdempotent_ok _ _ _ _ _)) ?_
      intro revision store
      refine .call ⟨(), ?_⟩
      show (store.kvDeleteIfRevision fromBucket fromKey expected).1 = .ok ()
      simp only [MemoryStorage.kvDeleteIfRevision]
      split
      · rfl
      · split <;> rfl
  | objectRenameComplete fromBucket fromObject expected nuid =>
      refine .bind (.call (objectPutIdempotent_ok _ _ _ _ _)) ?_
      intro revision store
      refine .call ⟨(), ?_⟩
      show (store.objectDeleteIfSequence fromBucket fromObject expected nuid).1 = .ok ()
      simp only [MemoryStorage.objectDeleteIfSequence]
      split
      · rfl
      · split <;> rfl
  | publishJsonLines stream subject bytes applied =>
      exact .bind (.call (publishJsonLines_ok _ _ _ hValid)) fun _ _ => .pure () _

/-- Replay without faults empties the queue and its file. -/
theorem eval_replayEntries_drained (queue : List QueueEntry) :
    ∀ w : World MemoryStorage, (∀ entry ∈ queue, entry.ValidPayload) → w.file = queue →
      ∃ store, eval faultless (replayEntries storeReplayExecutor queue) w =
        (([], .ok ()), ⟨store, []⟩) := by
  induction queue with
  | nil =>
      intro w _ hFile
      obtain ⟨store, file⟩ := w
      obtain rfl : file = [] := hFile
      exact ⟨store, rfl⟩
  | cons entry rest ih =>
      intro w hValid hFile
      have hRest : ∀ e ∈ rest, e.ValidPayload :=
        fun e hMem => hValid e (List.mem_cons_of_mem entry hMem)
      have hHead := hValid entry List.mem_cons_self
      rw [replayEntries]
      split
      · exact ih { w with file := rest } hRest rfl
      · obtain ⟨answer, store, hApplied⟩ := isApplied_succeeds hHead w
        rw [eval_bind, show eval faultless (storeReplayExecutor.isApplied entry).run w = _ from
          hApplied]
        cases answer with
        | true => exact ih ⟨store, rest⟩ hRest rfl
        | false =>
            obtain ⟨⟨⟩, store', hExecuted⟩ := execute_succeeds
              (show entry.attempt.ValidPayload from hHead) ⟨store, entry.attempt :: rest⟩
            obtain ⟨final, hFinal⟩ := ih ⟨store', rest⟩ hRest rfl
            refine ⟨final, ?_⟩
            have hExecuted' : eval faultless (storeReplayExecutor.execute entry.attempt).run
                ⟨store, entry.attempt :: rest⟩ = (.ok (), ⟨store', entry.attempt :: rest⟩) :=
              hExecuted
            simp only [eval_bind, eval_persistEntries, hExecuted', hFinal]

/-- From any point of an interrupted replay, replaying without faults reaches the state
the queue leads to. -/
theorem eval_replayEntries {final state : MemoryStorage} {queue : List QueueEntry}
    {w : World MemoryStorage} (h : Pending final state queue w) :
    eval faultless (replayEntries storeReplayExecutor queue) w = (([], .ok ()), ⟨final, []⟩) := by
  obtain ⟨store, hEval⟩ := eval_replayEntries_drained queue w h.ready.valid h.file
  have hInv : Inv final (eval faultless (replayEntries storeReplayExecutor queue) w).2 :=
    triple_replayEntries queue state h
      (run_eval Faulty.done (replayEntries storeReplayExecutor queue) w)
  rw [hEval] at hInv ⊢
  obtain ⟨state', left, hPending⟩ := hInv
  obtain rfl : left = [] := hPending.file.symm
  obtain rfl : store = final := hPending.stage.trans hPending.leads
  rfl

end EventFs.Transport
