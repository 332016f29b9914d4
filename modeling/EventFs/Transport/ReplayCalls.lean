import EventFs.Transport.Writeback

/-!
# The calls of a replay

Which calls the replay of a queue issues, and how the queue file follows the queue in
memory. The backend is any relation between a call, its reply and the states before and
after it; a write of the queue file takes place or is refused.
-/

namespace EventFs.Transport

open Library Protocol Program

variable {σ α β : Type}

/-! ## Calls -/

/-- The calls by which the replay of an entry changes the backend. -/
def QueueEntry.changes (entry : QueueEntry) : List StorageCall :=
  match entry.operation with
  | .kvPut bucket key bytes | .materializedPut bucket key bytes =>
      [.kvPutIdempotent bucket key bytes entry.idempotencyKey]
  | .kvRenameComplete fromBucket fromKey expectedFromRevision toBucket toKey bytes =>
      [.kvPutIdempotent toBucket toKey bytes entry.idempotencyKey,
        .kvDeleteIfRevision fromBucket fromKey expectedFromRevision]
  | .objectPut bucket object bytes =>
      [.objectPutIdempotent bucket object bytes entry.idempotencyKey]
  | .objectRenameComplete fromBucket fromObject expectedFromSequence expectedFromNuid toBucket
      toObject bytes =>
      [.objectPutIdempotent toBucket toObject bytes entry.idempotencyKey,
        .objectDeleteIfSequence fromBucket fromObject expectedFromSequence expectedFromNuid]
  | .publishJsonLines stream subject bytes _ =>
      [.publishJsonLines stream subject bytes entry.idempotencyKey]

/-- A call that looks at the backend or changes it as one of these entries says. -/
def ReplayCall (queue : List QueueEntry) : IoCall → Prop
  | .store call => call.reads = true ∨ ∃ entry ∈ queue, call ∈ entry.changes
  | .persist _ => True
  | .load => False

theorem ReplayCall.of_subset {queue queue' : List QueueEntry} (hSubset : queue ⊆ queue')
    {c : IoCall}
    (h : ReplayCall queue c) : ReplayCall queue' c := by
  cases c with
  | store call =>
      rcases h with hReads | ⟨entry, hMem, hCall⟩
      · exact Or.inl hReads
      · exact Or.inr ⟨entry, hSubset hMem, hCall⟩
  | persist entries => trivial
  | load => exact h

theorem calls_call {Issue : IoCall → Prop} {request : StorageCall} (h : Issue (.store request)) :
    (call request).run.Calls Issue := ⟨h, fun _ => trivial⟩

theorem calls_andThen {Issue : IoCall → Prop} {p : Transport α} {f : α → Transport β}
    (hFirst : p.run.Calls Issue) (hSecond : ∀ a, (f a).run.Calls Issue) :
    (p >>= f).run.Calls Issue := by
  refine hFirst.bind ?_
  intro result
  cases result with
  | ok a => exact hSecond a
  | error err => trivial

section Executor

variable {Issue : IoCall → Prop} (entry : QueueEntry)

theorem calls_isApplied (hReads : ∀ call : StorageCall, call.reads = true → Issue (.store call)) :
    (StoreReplayExecutor.isApplied entry).run.Calls Issue := by
  unfold StoreReplayExecutor.isApplied
  split
  · exact calls_call (hReads _ rfl)
  · exact calls_call (hReads _ rfl)
  · refine calls_andThen (calls_call (hReads _ rfl)) ?_
    intro applied
    split
    · trivial
    · exact calls_call (hReads _ rfl)
  · exact calls_call (hReads _ rfl)
  · refine calls_andThen (calls_call (hReads _ rfl)) ?_
    intro applied
    split
    · trivial
    · exact calls_call (hReads _ rfl)
  · exact calls_call (hReads _ rfl)

theorem calls_refresh (hReads : ∀ call : StorageCall, call.reads = true → Issue (.store call)) :
    (StoreReplayExecutor.refreshAfterFailedExecute entry).All Issue
      fun result => result.1.changes = entry.changes ∧ result.1.done = entry.done := by
  unfold StoreReplayExecutor.refreshAfterFailedExecute
  split
  · next hOperation =>
    refine All.bind (calls_call (hReads _ rfl)) ?_
    intro reply _
    cases reply with
    | ok durable => exact ⟨by simp only [QueueEntry.changes, hOperation], rfl⟩
    | error err => exact ⟨rfl, rfl⟩
  · exact ⟨rfl, rfl⟩

theorem calls_execute (hChanges : ∀ call ∈ entry.changes, Issue (.store call)) :
    (StoreReplayExecutor.execute entry).run.Calls Issue := by
  unfold QueueEntry.changes at hChanges
  unfold StoreReplayExecutor.execute
  split <;> rename_i hOperation <;>
    simp only [hOperation, List.mem_cons, List.not_mem_nil, or_false, forall_eq_or_imp,
      forall_eq] at hChanges
  · exact calls_andThen (calls_call hChanges) fun _ => trivial
  · exact calls_andThen (calls_call hChanges) fun _ => trivial
  · exact calls_andThen (calls_call hChanges.1) fun _ => calls_call hChanges.2
  · exact calls_andThen (calls_call hChanges) fun _ => trivial
  · exact calls_andThen (calls_call hChanges.1) fun _ => calls_call hChanges.2
  · exact calls_andThen (calls_call hChanges) fun _ => trivial

end Executor

/-- A replay looks at the backend, writes the queue file and makes the changes of its
entries, and issues no other call. -/
theorem calls_replayEntries (queue : List QueueEntry) :
    (replayEntries storeReplayExecutor queue).Calls (ReplayCall queue) := by
  induction queue with
  | nil => trivial
  | cons entry rest ih =>
      have hRest : (replayEntries storeReplayExecutor rest).Calls (ReplayCall (entry :: rest)) :=
        ih.weaken (fun _ h => h.of_subset (List.subset_cons_self entry rest)) fun _ h => h
      have hDrop (current : QueueEntry) : Program.Calls (ReplayCall (entry :: rest))
          (dropEntry storeReplayExecutor current rest) := by
        refine ⟨trivial, ?_⟩
        intro reply
        cases reply with
        | error err => trivial
        | ok _ => exact hRest
      rw [replayEntries]
      split
      · exact hDrop entry
      · refine (calls_isApplied entry fun _ hReads => Or.inl hReads).bind ?_
        intro applied
        rcases applied with err | _ | _
        · trivial
        · refine ⟨trivial, ?_⟩
          intro persisted
          cases persisted with
          | error err => trivial
          | ok _ =>
              have hChange : ∀ call ∈ entry.attempt.changes,
                  ReplayCall (entry :: rest) (.store call) :=
                fun call hCall => Or.inr ⟨entry, List.mem_cons_self, hCall⟩
              refine (calls_execute entry.attempt hChange).bind ?_
              intro executed
              cases executed with
              | ok _ => exact hDrop entry.attempt
              | error err =>
                  refine All.bind (calls_refresh entry.attempt fun _ hReads => Or.inl hReads) ?_
                  intro refreshed _
                  refine ⟨trivial, ?_⟩
                  intro reply
                  cases reply <;> trivial
        · exact hDrop entry

/-! ## The queue file -/

/-- The backend answers as it likes, and a write of the queue file that fails leaves the
file as it was. So the one step that can fail after the new file has replaced the old one,
the sync of the directory, is taken to succeed here. -/
inductive Atomic (backend : Behaviour storage σ) : Behaviour io (World σ)
  | store {world : World σ} {call : StorageCall} {reply : TransportResult call.Value} {store' : σ}
      (hCall : backend world.store call reply store') :
      Atomic backend world (.store call) reply { world with store := store' }
  | persisted (world : World σ) (entries : List QueueEntry) :
      Atomic backend world (.persist entries) (Except.ok ()) { world with file := entries }
  | refused (world : World σ) (entries : List QueueEntry) (err : TransportError) :
      Atomic backend world (.persist entries) (Except.error err) world
  | loaded (world : World σ) : Atomic backend world .load (Except.ok world.file) world
  | unread (world : World σ) (err : TransportError) :
      Atomic backend world .load (Except.error err) world

theorem atomic_handle {backend : Behaviour storage σ} {handler : Handler storage σ}
    (hConforms : ∀ state call, backend state call (handler state call).1 (handler state call).2)
    (world : World σ) (c : IoCall) :
    Atomic backend world c (World.handle handler world c).1 (World.handle handler world c).2 := by
  cases c with
  | store call => exact .store (hConforms world.store call)
  | persist entries => exact .persisted world entries
  | load => exact .loaded world

/-- As many entries in the file as in memory, and none of them done. -/
structure Tracks (queue file : List QueueEntry) : Prop where
  length : file.length = queue.length
  queue : ∀ entry ∈ queue, entry.done = false
  file : ∀ entry ∈ file, entry.done = false

theorem Tracks.replaceQueue {entry other : QueueEntry} {rest file : List QueueEntry}
    (h : Tracks (entry :: rest) file) (hDone : other.done = entry.done) :
    Tracks (other :: rest) file where
  length := h.length
  queue := by
    have hPending := List.forall_mem_cons.mp h.queue
    exact List.forall_mem_cons.mpr ⟨hDone.trans hPending.1, hPending.2⟩
  file := h.file

theorem Tracks.written {queue file : List QueueEntry} (h : Tracks queue file) :
    Tracks queue queue :=
  ⟨rfl, h.queue, h.queue⟩

theorem Tracks.tail {entry : QueueEntry} {rest file : List QueueEntry}
    (h : Tracks (entry :: rest) file) : Tracks rest rest :=
  have hRest := (List.forall_mem_cons.mp h.queue).2
  ⟨rfl, hRest, hRest⟩

section Tracking

variable {backend : Behaviour storage σ}

theorem triple_stores {P : List QueueEntry → Prop} {Issue : IoCall → Prop} {Q : α → Prop}
    {p : Program io α} (hStore : ∀ c, Issue c → ∃ call, c = .store call) (hCalls : p.All Issue Q) :
    Triple (Atomic backend) Alone (fun w => P w.file) p (fun a w => Q a ∧ P w.file)
      fun _ => True := by
  refine Triple.all hCalls (stable_alone _) (fun _ _ => trivial) ?_
  intro c s r t hIssue hFile hCall
  obtain ⟨call, rfl⟩ := hStore c hIssue
  cases hCall
  exact hFile

theorem triple_write {P : List QueueEntry → Prop}
    {Q : TransportResult Unit → List QueueEntry → Prop}
    {entries : List QueueEntry} (hWritten : ∀ file, P file → Q (.ok ()) entries)
    (hRefused : ∀ file err, P file → Q (.error err) file) :
    Triple (Atomic backend) Alone (fun w => P w.file) (persistEntries entries).run
      (fun r w => Q r w.file) fun _ => True := by
  refine Triple.perform (stable_alone _) (fun _ => stable_alone _) (fun _ _ => trivial)
    (fun _ _ _ => trivial) ?_
  intro w r w' hP hCall
  cases hCall with
  | persisted => exact hWritten w.file hP
  | refused => exact hRefused w.file _ hP

/-- The file after a write that went through, and after one that was refused. -/
def Outcome (written refused : List QueueEntry → Prop) :
    TransportResult Unit → List QueueEntry → Prop
  | .ok _ => written
  | .error _ => refused

/-- The file follows the queue through every replay, and the queue does not grow. -/
theorem triple_tracks (queue : List QueueEntry) :
    Triple (Atomic backend) Alone (fun w => Tracks queue w.file)
      (replayEntries storeReplayExecutor queue)
      (fun result w => Tracks result.1 w.file ∧ result.1.length ≤ queue.length)
      fun _ => True := by
  induction queue with
  | nil => exact .ret (stable_alone _) (fun w h => ⟨h, le_rfl⟩) fun _ _ => trivial
  | cons entry rest ih =>
      have hDrop (current : QueueEntry) (hCurrent : current.done = entry.done) :
          Triple (Atomic backend) Alone (fun w => Tracks (entry :: rest) w.file)
            (dropEntry storeReplayExecutor current rest)
          (fun result w => Tracks result.1 w.file ∧ result.1.length ≤ rest.length + 1)
          fun _ => True := by
        refine Triple.bind _ (triple_write (P := Tracks (entry :: rest))
          (Q := Outcome (Tracks rest) (Tracks (entry :: rest))) (fun _ h => h.tail)
          fun _ _ h => h) ?_
        intro reply
        cases reply with
        | error err =>
            exact .ret (stable_alone _) (fun w h => ⟨h.replaceQueue hCurrent, le_rfl⟩)
              fun _ _ => trivial
        | ok _ =>
            exact ih.weaken (fun _ h => h) (fun _ _ h => ⟨h.1, Nat.le_succ_of_le h.2⟩) fun _ h => h
      have hKept {reply : TransportResult Unit} : Triple (Atomic backend) Alone
          (fun w => Tracks (entry :: rest) w.file) (return (entry :: rest, reply))
          (fun result w => Tracks result.1 w.file ∧ result.1.length ≤ rest.length + 1)
          fun _ => True := .ret (stable_alone _) (fun w h => ⟨h, le_rfl⟩) fun _ _ => trivial
      have hReads : ∀ call : StorageCall, call.reads = true →
          ∃ other, IoCall.store call = .store other := fun call _ => ⟨call, rfl⟩
      rw [replayEntries]
      split
      · exact hDrop entry rfl
      · refine Triple.bind _ (triple_stores (P := Tracks (entry :: rest)) (fun _ h => h)
          (calls_isApplied entry hReads)) ?_
        intro applied
        rcases applied with err | _ | _
        · exact hKept.weaken (fun _ h => h.2) (fun _ _ h => h) fun _ h => h
        · refine Triple.bind _ ((triple_write (P := Tracks (entry :: rest)) (Q := fun _ file =>
            Tracks (entry :: rest) file) (fun file h => ?_) fun _ _ h => h).weaken
            (fun _ h => h.2) (fun _ _ h => h) fun _ h => h) ?_
          · have hAttempt : Tracks (entry.attempt :: rest) file := h.replaceQueue rfl
            exact hAttempt.written.replaceQueue rfl
          intro persisted
          cases persisted with
          | error err => exact hKept
          | ok _ =>
              refine Triple.bind _ (triple_stores (P := Tracks (entry :: rest)) (fun _ h => h)
                (calls_execute entry.attempt fun call _ => ⟨call, rfl⟩)) ?_
              intro executed
              cases executed with
              | ok _ =>
                  exact (hDrop entry.attempt rfl).weaken (fun _ h => h.2) (fun _ _ h => h)
                    fun _ h => h
              | error err =>
                  refine Triple.bind (fun refreshed w => refreshed.1.done = entry.done ∧
                    Tracks (entry :: rest) w.file) ((triple_stores (P := Tracks (entry :: rest))
                      (fun _ h => h) (calls_refresh entry.attempt hReads)).weaken
                      (fun _ h => h.2) (fun _ _ h => ⟨h.1.2, h.2⟩) fun _ h => h) ?_
                  intro refreshed
                  refine Triple.assume (fun _ h => h.1) ?_
                  intro hDone
                  refine Triple.bind _ ((triple_write (P := Tracks (entry :: rest))
                    (Q := Outcome (Tracks (refreshed.1 :: rest)) (Tracks (entry :: rest)))
                    (fun _ h => (h.replaceQueue hDone).written) fun _ _ h => h).weaken
                    (fun _ h => h.2) (fun _ _ h => h) fun _ h => h) ?_
                  intro persisted
                  cases persisted with
                  | error persistErr =>
                      exact .ret (stable_alone _) (fun w h => ⟨h.replaceQueue rfl, le_rfl⟩)
                        fun _ _ => trivial
                  | ok _ =>
                      exact .ret (stable_alone _) (fun w h => ⟨h, le_rfl⟩) fun _ _ => trivial
        · exact (hDrop entry rfl).weaken (fun _ h => h.2) (fun _ _ h => h) fun _ h => h

end Tracking

end EventFs.Transport
