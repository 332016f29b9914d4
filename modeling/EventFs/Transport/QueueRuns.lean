import EventFs.Transport.QueueDisk
import EventFs.Transport.ReplayCalls

/-!
# The queue over whole runs

A queue is opened in a new directory, takes batches, is replayed and is reopened, in any
order and however the replays end. The file is read and written without failure here.
Through every such run the queue holds each idempotency key once, stays within its
capacity, keeps the order in which its entries were accepted, and is what its file
decodes to.
-/

namespace EventFs.Transport

open Library Program

/-! ## Latest occurrences -/

/-- `dedup` keeps the latest occurrence of each value. Values appended to a log are its
latest ones. -/
theorem sublist_dedup_append {α : Type} [DecidableEq α] {kept log new : List α}
    (h : kept.Sublist log.dedup) (hNew : new.Nodup) (hDisjoint : ∀ a ∈ kept, a ∉ new) :
    (kept ++ new).Sublist (log ++ new).dedup := by
  induction log generalizing kept with
  | nil =>
      obtain rfl := List.sublist_nil.mp h
      exact (List.dedup_eq_self.mpr hNew).symm ▸ List.Sublist.refl _
  | cons a log ih =>
      have hLonger : (log ++ new).dedup.Sublist (a :: log ++ new).dedup := by
        rw [List.cons_append, List.dedup_cons]
        split
        · exact List.Sublist.refl _
        · exact List.sublist_cons_self _ _
      by_cases hLater : a ∈ log
      · rw [List.dedup_cons_of_mem hLater] at h
        exact (ih h hDisjoint).trans hLonger
      · rw [List.dedup_cons_of_notMem hLater] at h
        cases h with
        | cons _ hRest => exact (ih hRest hDisjoint).trans hLonger
        | @cons_cons rest _ _ hRest =>
            have hFresh : a ∉ log ++ new := by
              rw [List.mem_append, not_or]
              exact ⟨hLater, hDisjoint a List.mem_cons_self⟩
            rw [List.cons_append, List.cons_append, List.dedup_cons_of_notMem hFresh]
            exact (ih hRest fun b hb => hDisjoint b (List.mem_cons_of_mem a hb)).cons_cons a

/-! ## Entries with new keys -/

/-- The entries of a batch whose keys are not queued, the first of each key. -/
def newEntries (queued entries : List QueueEntry) : List QueueEntry :=
  (entries.filter fun entry => !(queued.map QueueEntry.idempotencyKey).contains
    entry.idempotencyKey).eraseDupsBy fun entry other =>
      entry.idempotencyKey == other.idempotencyKey

theorem any_key (entries : List QueueEntry) (entry : QueueEntry) :
    (entries.any fun existing => existing.idempotencyKey == entry.idempotencyKey) =
      (entries.map QueueEntry.idempotencyKey).contains entry.idempotencyKey := by
  rw [Bool.eq_iff_iff]
  simp only [List.any_eq_true, beq_iff_eq, List.contains_iff_mem, List.mem_map]

/-- What the loop over a batch has collected, in the order of the library's own loop. -/
theorem admitted_loop (queued pending entries : List QueueEntry) :
    WritebackQueue.admitted queued pending entries =
      List.eraseDupsBy.loop (fun entry other : QueueEntry =>
        entry.idempotencyKey == other.idempotencyKey)
        (entries.filter fun entry =>
          !(queued.map QueueEntry.idempotencyKey).contains entry.idempotencyKey)
        pending.reverse := by
  induction entries generalizing pending with
  | nil => simp [WritebackQueue.admitted, List.eraseDupsBy.loop]
  | cons entry rest ih =>
      have hSeen : (pending.reverse.any fun other => entry.idempotencyKey == other.idempotencyKey) =
          pending.any fun existing => existing.idempotencyKey == entry.idempotencyKey := by
        rw [List.any_reverse]
        simp only [BEq.comm]
      rw [WritebackQueue.admitted, any_key queued, List.filter_cons]
      cases hQueued : (queued.map QueueEntry.idempotencyKey).contains entry.idempotencyKey with
      | true => simpa only [Bool.true_or, if_true, Bool.not_true, Bool.false_eq_true, if_false]
          using ih pending
      | false =>
          simp only [Bool.false_or, Bool.not_false, if_true]
          rw [List.eraseDupsBy.loop, hSeen]
          cases pending.any fun existing => existing.idempotencyKey == entry.idempotencyKey with
          | true => exact ih pending
          | false => simpa using ih (pending ++ [entry])

theorem admitted_eq_newEntries (queued entries : List QueueEntry) :
    WritebackQueue.admitted queued [] entries = newEntries queued entries :=
  admitted_loop queued [] entries

/-- What a batch adds to a queue with distinct keys has keys of its own. -/
theorem nodup_admitted {queued pending : List QueueEntry} (entries : List QueueEntry)
    (h : ((queued ++ pending).map QueueEntry.idempotencyKey).Nodup) :
    ((queued ++ WritebackQueue.admitted queued pending entries).map
      QueueEntry.idempotencyKey).Nodup := by
  induction entries generalizing pending with
  | nil => exact h
  | cons entry rest ih =>
      rw [WritebackQueue.admitted, ← List.any_append]
      split
      · exact ih h
      · next hNew =>
        refine ih ?_
        rw [any_key, List.contains_iff_mem] at hNew
        rw [← List.append_assoc, List.map_append, List.nodup_append]
        refine ⟨h, List.nodup_singleton _, ?_⟩
        intro key hKey other hOther hSame
        obtain rfl := List.mem_singleton.mp hOther
        exact hNew (hSame ▸ hKey)

theorem nodup_newEntries {queued : List QueueEntry} (entries : List QueueEntry)
    (h : (queued.map QueueEntry.idempotencyKey).Nodup) :
    ((queued ++ newEntries queued entries).map QueueEntry.idempotencyKey).Nodup := by
  rw [← admitted_eq_newEntries]
  exact nodup_admitted entries (by rwa [List.append_nil])

/-! ## Calls without failure -/

/-- The backend and the bytes of the queue file, if there is one. -/
structure Directory (σ : Type) where
  store : σ
  file : Option Bytes

variable {σ α : Type}

section Serde

variable [QueueSerde]

/-- The backend answers as it likes. The queue file is written, with records that the JSON
library can read back, and read. -/
inductive Reliable (backend : Behaviour storage σ) : Behaviour io (Directory σ)
  | store {dir : Directory σ} {call : StorageCall} {reply : TransportResult call.Value} {store' : σ}
      (hCall : backend dir.store call reply store') :
      Reliable backend dir (.store call) reply { dir with store := store' }
  | persisted (dir : Directory σ) {entries : List QueueEntry}
      (hForm : QueueFile.WellFormed entries) :
      Reliable backend dir (.persist entries) (Except.ok ())
        { dir with file := some (QueueFile.written entries).bytes }
  | loaded (dir : Directory σ) : Reliable backend dir .load (QueueFile.load dir.file) dir

/-- The file decodes to these entries. -/
def Decodes (entries : List QueueEntry) (dir : Directory σ) : Prop :=
  QueueFile.load dir.file = .ok entries

variable {backend : Behaviour storage σ}

theorem persist_inv {entries : List QueueEntry} {dir dir' : Directory σ}
    {reply : TransportResult Unit} (h : Reliable backend dir (.persist entries) reply dir') :
    reply = .ok () ∧ Decodes entries dir' := by
  cases h with
  | persisted _ hForm => exact ⟨rfl, QueueFile.load_written hForm⟩

theorem triple_decodes {P : Directory σ → Prop} (entries : List QueueEntry) :
    Triple (Reliable backend) Alone P (persistEntries entries).run
      (fun reply dir => reply = .ok () ∧ Decodes entries dir) fun _ => True :=
  Triple.perform (stable_alone _) (fun _ => stable_alone _) (fun _ _ => trivial)
    (fun _ _ _ => trivial) fun _ _ _ _ hCall => persist_inv hCall

/-! ## Executors -/

/-- A call of the backend. -/
def IsStore : IoCall → Prop
  | .store _ => True
  | _ => False

/-- What an executor does: it calls the backend, and where it refreshes an entry it leaves
the key. -/
structure WriteExecutor.KeepsKeys (executor : WriteExecutor) : Prop where
  isApplied (entry : QueueEntry) : (executor.isApplied entry).run.Calls IsStore
  execute (entry : QueueEntry) : (executor.execute entry).run.Calls IsStore
  refresh (entry : QueueEntry) : (executor.refreshAfterFailedExecute entry).All IsStore
    fun refreshed => refreshed.1.idempotencyKey = entry.idempotencyKey

omit [QueueSerde] in
theorem storeReplayExecutor_keepsKeys : storeReplayExecutor.KeepsKeys where
  isApplied entry := calls_isApplied entry fun _ _ => trivial
  execute entry := calls_execute entry fun _ _ => trivial
  refresh entry := by
    show (StoreReplayExecutor.refreshAfterFailedExecute entry).All _ _
    unfold StoreReplayExecutor.refreshAfterFailedExecute
    split
    · refine All.bind (calls_call trivial) ?_
      intro reply _
      cases reply with
      | ok durable => exact rfl
      | error err => exact rfl
    · exact rfl

theorem triple_store {entries : List QueueEntry} {Q : α → Prop} {p : Program io α}
    (hCalls : p.All IsStore Q) :
    Triple (Reliable backend) Alone (Decodes entries) p
      (fun a dir => Q a ∧ Decodes entries dir) fun _ => True := by
  refine Triple.all hCalls (stable_alone _) (fun _ _ => trivial) ?_
  intro c dir reply dir' hIssue hFile hCall
  cases hCall with
  | store _ => exact hFile
  | persisted _ _ => exact hIssue.elim
  | loaded _ => exact hFile

/-! ## Replays -/

/-- Through a replay the file follows the queue, and entries leave the queue at its front
only. -/
def FollowsReplay (queue : List QueueEntry) (result : List QueueEntry × TransportResult Unit)
    (dir : Directory σ) : Prop :=
  Decodes result.1 dir ∧
    result.1.map QueueEntry.idempotencyKey <:+ queue.map QueueEntry.idempotencyKey

theorem triple_followsReplay {executor : WriteExecutor} (hExecutor : executor.KeepsKeys)
    (queue : List QueueEntry) :
    Triple (Reliable backend) Alone (Decodes queue) (replayEntries executor queue)
      (FollowsReplay queue) fun _ => True := by
  induction queue with
  | nil => exact .ret (stable_alone _) (fun _ h => ⟨h, List.suffix_rfl⟩) fun _ _ => trivial
  | cons entry rest ih =>
      have hDrop (current : QueueEntry) {P : Directory σ → Prop} :
          Triple (Reliable backend) Alone P (dropEntry executor current rest)
          (FollowsReplay (entry :: rest)) fun _ => True := by
        refine Triple.bind _ (triple_decodes rest) ?_
        intro reply
        refine Triple.assume (fun _ h => h.1) ?_
        rintro rfl
        refine ih.weaken (fun _ h => h.2) (fun _ _ h => ⟨h.1, ?_⟩) fun _ h => h
        exact h.2.trans (List.suffix_cons _ _)
      have hKept {current : QueueEntry} (hKey : current.idempotencyKey = entry.idempotencyKey)
          {P : Directory σ → Prop} (hFile : ∀ dir, P dir → Decodes (current :: rest) dir)
          {reply : TransportResult Unit} :
          Triple (Reliable backend) Alone P (return (current :: rest, reply))
            (FollowsReplay (entry :: rest)) fun _ => True := by
        refine .ret (stable_alone _) (fun dir h => ⟨hFile dir h, ?_⟩) fun _ _ => trivial
        rw [List.map_cons, hKey]
        exact List.suffix_rfl
      rw [replayEntries]
      split
      · exact hDrop entry
      · refine Triple.bind _ (triple_store (hExecutor.isApplied entry)) ?_
        intro applied
        rcases applied with err | _ | _
        · exact hKept rfl fun _ h => h.2
        · refine Triple.bind _ (triple_decodes (entry.attempt :: rest)) ?_
          intro persisted
          refine Triple.assume (fun _ h => h.1) ?_
          rintro rfl
          refine Triple.bind _ ((triple_store (hExecutor.execute entry.attempt)).weaken
            (fun _ h => h.2) (fun _ _ h => h) fun _ h => h) ?_
          intro executed
          cases executed with
          | ok _ => exact hDrop entry.attempt
          | error err =>
              refine Triple.bind _ ((triple_store (hExecutor.refresh entry.attempt)).weaken
                (fun _ h => h.2) (fun _ _ h => h) fun _ h => h) ?_
              intro refreshed
              refine Triple.assume (fun _ h => h.1) ?_
              intro hKey
              refine Triple.bind _ (triple_decodes (refreshed.1 :: rest)) ?_
              intro reply
              refine Triple.assume (fun _ h => h.1) ?_
              rintro rfl
              exact hKept hKey fun _ h => h.2
        · exact hDrop entry

/-! ## Batches and reopening -/

/-- All of the new entries, where there is room for them, or none. -/
def AllOrNone (queue : WritebackQueue) (dir : Directory σ) (entries : List QueueEntry)
    (result : WritebackQueue × TransportResult Unit) (dir' : Directory σ) : Prop :=
  if newEntries queue.entries entries = [] ∨
      queue.entries.length + (newEntries queue.entries entries).length ≤ queue.capacity then
    result = ({ queue with entries := queue.entries ++ newEntries queue.entries entries }, .ok ()) ∧
      (Decodes queue.entries dir → Decodes result.1.entries dir')
  else result = (queue, .error .queueFull) ∧ dir' = dir

theorem enqueueAll_allOrNone {queue : WritebackQueue} {dir dir' : Directory σ}
    {entries : List QueueEntry} {result : WritebackQueue × TransportResult Unit}
    (hRun : Run (Reliable backend) Alone (queue.enqueueAll entries) dir (some result) dir') :
    AllOrNone queue dir entries result dir' := by
  rw [WritebackQueue.enqueueAll, admitted_eq_newEntries] at hRun
  unfold AllOrNone
  by_cases hNone : newEntries queue.entries entries = []
  · rw [if_pos (List.isEmpty_iff.mpr hNone)] at hRun
    obtain ⟨rfl, rfl⟩ := Run.of_ret hRun
    rw [if_pos (Or.inl hNone), hNone, List.append_nil]
    exact ⟨rfl, fun h => h⟩
  · rw [if_neg fun h => hNone (List.isEmpty_iff.mp h)] at hRun
    by_cases hFull : queue.capacity < queue.entries.length +
        (newEntries queue.entries entries).length
    · rw [if_pos hFull] at hRun
      obtain ⟨rfl, rfl⟩ := Run.of_ret hRun
      rw [if_neg (not_or.mpr ⟨hNone, Nat.not_le.mpr hFull⟩)]
      exact ⟨rfl, rfl⟩
    · rw [if_neg hFull] at hRun
      obtain ⟨reply, between, hCall, hRest⟩ := Run.of_call hRun
      obtain ⟨rfl, hFile⟩ := persist_inv hCall
      obtain ⟨rfl, rfl⟩ := Run.of_ret hRest
      rw [if_pos (Or.inr (Nat.not_lt.mp hFull))]
      exact ⟨rfl, fun _ => hFile⟩

/-- A reopen reads what the queue held and leaves out what is done. -/
theorem open_result {capacity : Nat} {entries : List QueueEntry} {dir dir' : Directory σ}
    {result : TransportResult WritebackQueue} (hFile : Decodes entries dir)
    (hRun : Run (Reliable backend) Alone (WritebackQueue.open capacity).run dir (some result)
      dir') :
    result = .ok ⟨capacity, WritebackQueue.compactCompletedEntries entries⟩ ∧
      Decodes (WritebackQueue.compactCompletedEntries entries) dir' := by
  obtain ⟨reply, between, hCall, hRest⟩ := Run.of_call hRun
  cases hCall
  rw [hFile] at hRest
  have hAfter : Run (Reliable backend) Alone (do
      if (WritebackQueue.compactCompletedEntries entries).length ≠ entries.length then
        persistEntries (WritebackQueue.compactCompletedEntries entries)
      return ⟨capacity, WritebackQueue.compactCompletedEntries entries⟩ :
        Transport WritebackQueue).run dir (some result) dir' := hRest
  by_cases hSame : (WritebackQueue.compactCompletedEntries entries).length = entries.length
  · rw [if_neg (not_not.mpr hSame)] at hAfter
    obtain ⟨rfl, rfl⟩ := Run.of_ret hAfter
    have hEntries : WritebackQueue.compactCompletedEntries entries = entries :=
      List.filter_sublist.eq_of_length hSame
    exact ⟨rfl, hEntries.symm ▸ hFile⟩
  · rw [if_pos hSame] at hAfter
    obtain ⟨written, after, hWrite, hEnd⟩ := Run.of_call hAfter
    obtain ⟨rfl, hWritten⟩ := persist_inv hWrite
    obtain ⟨rfl, rfl⟩ := Run.of_ret hEnd
    exact ⟨rfl, hWritten⟩

/-! ## Runs -/

/-- An open queue, its directory, and the keys of the entries it has accepted since the
directory was new, the latest at the end. A key that was replayed and comes back is
accepted again. -/
structure QueueRun (σ : Type) where
  queue : WritebackQueue
  dir : Directory σ
  accepted : List Str

/-- The keys that a batch adds to the queue. -/
def acceptedKeys (queue : WritebackQueue) (entries : List QueueEntry) :
    TransportResult Unit → List Str
  | .ok () => (newEntries queue.entries entries).map QueueEntry.idempotencyKey
  | .error _ => []

/-- What batches, replays and reopens make of a queue opened in a new directory. -/
inductive Reaches (backend : Behaviour storage σ) (capacity : Nat) : QueueRun σ → Prop
  | opened {store : σ} {queue : WritebackQueue} {dir : Directory σ}
      (hRun : Run (Reliable backend) Alone (WritebackQueue.open capacity).run ⟨store, none⟩
        (some (.ok queue)) dir) : Reaches backend capacity ⟨queue, dir, []⟩
  | enqueue {s : QueueRun σ} {entry : QueueEntry} {queue : WritebackQueue}
      {result : TransportResult Unit} {dir : Directory σ} (h : Reaches backend capacity s)
      (hRun : Run (Reliable backend) Alone (s.queue.enqueue entry) s.dir
        (some (queue, result)) dir) :
      Reaches backend capacity ⟨queue, dir, s.accepted ++ acceptedKeys s.queue [entry] result⟩
  | enqueueAll {s : QueueRun σ} {entries : List QueueEntry} {queue : WritebackQueue}
      {result : TransportResult Unit} {dir : Directory σ} (h : Reaches backend capacity s)
      (hRun : Run (Reliable backend) Alone (s.queue.enqueueAll entries) s.dir
        (some (queue, result)) dir) :
      Reaches backend capacity ⟨queue, dir, s.accepted ++ acceptedKeys s.queue entries result⟩
  | replay {s : QueueRun σ} {executor : WriteExecutor} {queue : WritebackQueue}
      {result : TransportResult Unit} {dir : Directory σ} (h : Reaches backend capacity s)
      (hExecutor : executor.KeepsKeys)
      (hRun : Run (Reliable backend) Alone (s.queue.replay executor) s.dir
        (some (queue, result)) dir) : Reaches backend capacity ⟨queue, dir, s.accepted⟩
  | reopened {s : QueueRun σ} {queue : WritebackQueue} {dir : Directory σ}
      (h : Reaches backend capacity s)
      (hRun : Run (Reliable backend) Alone (WritebackQueue.open capacity).run s.dir
        (some (.ok queue)) dir) : Reaches backend capacity ⟨queue, dir, s.accepted⟩

/-- `ordered` says that the queue lists some of the accepted keys by their latest
acceptances, in the order of these. -/
structure QueueInvariant (capacity : Nat) (s : QueueRun σ) : Prop where
  fixed : s.queue.capacity = capacity
  distinct : (s.queue.entries.map QueueEntry.idempotencyKey).Nodup
  bounded : s.queue.entries.length ≤ capacity
  ordered : (s.queue.entries.map QueueEntry.idempotencyKey).Sublist s.accepted.dedup
  stored : Decodes s.queue.entries s.dir

variable {capacity : Nat} {s : QueueRun σ}

/-- Entries that stay, in their order, with the file rewritten. -/
theorem QueueInvariant.kept {entries : List QueueEntry} {dir : Directory σ}
    (h : QueueInvariant capacity s)
    (hKept : (entries.map QueueEntry.idempotencyKey).Sublist
      (s.queue.entries.map QueueEntry.idempotencyKey))
    (hFile : Decodes entries dir) :
    QueueInvariant capacity ⟨⟨capacity, entries⟩, dir, s.accepted⟩ where
  fixed := rfl
  distinct := hKept.nodup h.distinct
  bounded := by
    have hLength := hKept.length_le
    rw [List.length_map, List.length_map] at hLength
    exact hLength.trans h.bounded
  ordered := hKept.trans h.ordered
  stored := hFile

theorem QueueInvariant.batch {entries : List QueueEntry} {queue : WritebackQueue}
    {result : TransportResult Unit} {dir : Directory σ} (h : QueueInvariant capacity s)
    (hBatch : AllOrNone s.queue s.dir entries (queue, result) dir) :
    QueueInvariant capacity ⟨queue, dir, s.accepted ++ acceptedKeys s.queue entries result⟩ := by
  unfold AllOrNone at hBatch
  split at hBatch
  · next hRoom =>
    obtain ⟨hResult, hFile⟩ := hBatch
    obtain ⟨rfl, rfl⟩ := Prod.mk.inj hResult
    have hDistinct := nodup_newEntries entries h.distinct
    have hParts := hDistinct
    rw [List.map_append, List.nodup_append] at hParts
    refine ⟨h.fixed, hDistinct, ?_, ?_, hFile h.stored⟩
    · rw [List.length_append, ← h.fixed]
      rcases hRoom with hNone | hFits
      · rw [hNone, List.length_nil, h.fixed]
        exact h.bounded
      · exact hFits
    · rw [List.map_append]
      exact sublist_dedup_append h.ordered hParts.2.1 fun key hKey hNew =>
        hParts.2.2 key hKey key hNew rfl
  · obtain ⟨hResult, rfl⟩ := hBatch
    obtain ⟨rfl, rfl⟩ := Prod.mk.inj hResult
    rw [show acceptedKeys s.queue entries (.error .queueFull) = [] from rfl, List.append_nil]
    exact h

theorem QueueInvariant.compacted {dir : Directory σ} {queue : WritebackQueue}
    (h : QueueInvariant capacity s)
    (hRun : Run (Reliable backend) Alone (WritebackQueue.open capacity).run s.dir
      (some (.ok queue)) dir) : QueueInvariant capacity ⟨queue, dir, s.accepted⟩ := by
  obtain ⟨hOpen, hFile⟩ := open_result h.stored hRun
  obtain rfl := Except.ok.inj hOpen
  exact h.kept (List.filter_sublist.map _) hFile

theorem reaches_invariant (h : Reaches backend capacity s) : QueueInvariant capacity s := by
  induction h with
  | @opened store queue dir hRun =>
      have hNew : QueueInvariant capacity
          (⟨⟨capacity, []⟩, ⟨store, none⟩, []⟩ : QueueRun σ) :=
        ⟨rfl, List.nodup_nil, Nat.zero_le _, List.Sublist.refl _, rfl⟩
      exact hNew.compacted hRun
  | enqueue _ hRun ih => exact ih.batch (enqueueAll_allOrNone hRun)
  | enqueueAll _ hRun ih => exact ih.batch (enqueueAll_allOrNone hRun)
  | @replay s executor queue result dir _ hExecutor hRun ih =>
      obtain ⟨replayed, between, hReplay, hEnd⟩ := Run.bind_some hRun
      obtain ⟨hFile, hSuffix⟩ := triple_followsReplay hExecutor s.queue.entries ih.stored hReplay
      obtain ⟨hResult, rfl⟩ := Run.of_ret hEnd
      obtain ⟨rfl, -⟩ := Prod.mk.inj hResult
      rw [ih.fixed]
      exact ih.kept hSuffix.sublist hFile
  | reopened _ hRun ih => exact ih.compacted hRun

/-- A queue of any run satisfies the invariant, takes all of the new entries of a batch or
none, and can be reopened. -/
theorem queue_holds_over_runs (h : Reaches backend capacity s) :
    QueueInvariant capacity s ∧
      (∀ (entries : List QueueEntry) (result : WritebackQueue × TransportResult Unit)
        (dir : Directory σ), Run (Reliable backend) Alone (s.queue.enqueueAll entries) s.dir
          (some result) dir → AllOrNone s.queue s.dir entries result dir) ∧
      ∀ (result : TransportResult WritebackQueue) (dir : Directory σ),
        Run (Reliable backend) Alone (WritebackQueue.open capacity).run s.dir (some result) dir →
          ∃ queue, result = .ok queue := by
  have hInvariant := reaches_invariant h
  refine ⟨hInvariant, fun _ _ _ hRun => enqueueAll_allOrNone hRun, ?_⟩
  intro result dir hRun
  exact ⟨_, (open_result hInvariant.stored hRun).1⟩

end Serde

/-! ## One queue -/

/-- A backend that may answer anything. -/
def anyBackend : Behaviour storage Unit := fun _ _ _ _ => True

/-- The same entry twice in one batch is accepted once, and leaves when the backend says
that it is applied. -/
theorem accented_queue_holds :
    let _ := accentedSerde
    let filled : QueueRun Unit :=
      ⟨⟨2, [accentedPut]⟩, ⟨(), some (QueueFile.written [accentedPut]).bytes⟩, ["k".toList]⟩
    let drained : QueueRun Unit :=
      ⟨⟨2, []⟩, ⟨(), some (QueueFile.written []).bytes⟩, ["k".toList]⟩
    QueueInvariant 2 filled ∧ QueueInvariant 2 drained := by
  intro _ filled drained
  have hOpened : Reaches anyBackend 2 ⟨⟨2, []⟩, ⟨(), none⟩, []⟩ :=
    .opened (.step (.loaded ⟨(), none⟩) (.finish _ _))
  have hBatch : Run (Reliable anyBackend) Alone
      ((⟨2, []⟩ : WritebackQueue).enqueueAll [accentedPut, accentedPut]) ⟨(), none⟩
      (some (⟨2, [accentedPut]⟩, .ok ())) filled.dir :=
    .step (.persisted _ accentedSerde_wellFormed) (.finish _ _)
  have hFilled : Reaches anyBackend 2 filled := .enqueueAll hOpened hBatch
  have hReplay : Run (Reliable anyBackend) Alone (filled.queue.replay storeReplayExecutor)
      filled.dir (some (⟨2, []⟩, .ok ())) drained.dir := by
    have hApplied : Reliable anyBackend filled.dir
        (.store (.objectPutApplied "b".toList "é".toList "k".toList)) (Except.ok true)
        filled.dir := .store trivial
    have hEmpty : QueueFile.WellFormed [] := ⟨nofun, nofun, nofun, nofun⟩
    exact .step hApplied (.step (.persisted _ hEmpty) (.finish _ _))
  have hDrained : Reaches anyBackend 2 drained :=
    .replay hFilled storeReplayExecutor_keepsKeys hReplay
  exact ⟨(queue_holds_over_runs hFilled).1, (queue_holds_over_runs hDrained).1⟩

end EventFs.Transport
