import EventFs.Library.Answers
import EventFs.Transport.Writeback

/-!
# The order of a replay

Whatever the storage and the disk answer, a replay removes entries from the front, one
after the other, and stops at the first one it cannot remove. `Removed` and `Kept` say
what the log of one turn looks like.
-/

namespace EventFs.Transport

open Library Program

/-- The same entry, with no less progress. -/
structure QueueEntry.Advanced (before after : QueueEntry) : Prop where
  key : after.idempotencyKey = before.idempotencyKey
  done : after.done = before.done
  attempts : before.attempts ≤ after.attempts
  operation : after.operation = before.operation ∨
    ∃ stream subject bytes applied applied',
      before.operation = .publishJsonLines stream subject bytes applied ∧
        after.operation = .publishJsonLines stream subject bytes applied' ∧ applied ≤ applied'

namespace QueueEntry.Advanced

theorem refl (entry : QueueEntry) : entry.Advanced entry := ⟨rfl, rfl, le_rfl, Or.inl rfl⟩

theorem attempt {entry : QueueEntry} (h : entry.attempts < 2 ^ 32) :
    entry.Advanced entry.attempt := by
  refine ⟨rfl, rfl, ?_, Or.inl rfl⟩
  show entry.attempts ≤ min (entry.attempts + 1) (2 ^ 32 - 1)
  omega

theorem trans_attempts {first second third : QueueEntry} (hFirst : first.Advanced second)
    (hOperation : second.operation = first.operation) (hSecond : second.Advanced third) :
    first.Advanced third where
  key := hSecond.key.trans hFirst.key
  done := hSecond.done.trans hFirst.done
  attempts := hFirst.attempts.trans hSecond.attempts
  operation := by
    have h := hSecond.operation
    rwa [hOperation] at h

end QueueEntry.Advanced

/-! ## One turn -/

def persisted (entries : List QueueEntry) (reply : TransportResult Unit) :
    Σ c : io.Call, io.Reply c := ⟨.persist entries, reply⟩

/-- The log of a turn that removed the entry, with `rest` behind it: the entry was done,
or reported as applied, or executed with success. -/
inductive Removed (executor : WriteExecutor) (entry : QueueEntry) (rest : List QueueEntry) :
    Log io → Prop
  | done (hDone : entry.done = true) : Removed executor entry rest [persisted rest (.ok ())]
  | applied {seen : Log io} (hDone : entry.done = false)
      (hSeen : Answers (executor.isApplied entry).run seen (.ok true)) :
      Removed executor entry rest (seen ++ [persisted rest (.ok ())])
  | executed {seen acts : Log io} (hDone : entry.done = false)
      (hSeen : Answers (executor.isApplied entry).run seen (.ok false))
      (hActs : Answers (executor.execute entry.attempt).run acts (.ok ())) :
      Removed executor entry rest
        (seen ++ persisted (entry.attempt :: rest) (.ok ()) :: acts ++ [persisted rest (.ok ())])

/-- The log of a turn that kept the entry, the entry as it is kept and the error. -/
inductive Kept (executor : WriteExecutor) (entry : QueueEntry) (rest : List QueueEntry) :
    Log io → QueueEntry → TransportError → Prop
  | done {err : TransportError} (hDone : entry.done = true) :
      Kept executor entry rest [persisted rest (.error err)] entry err
  | unknown {seen : Log io} {err : TransportError} (hDone : entry.done = false)
      (hSeen : Answers (executor.isApplied entry).run seen (.error err)) :
      Kept executor entry rest seen entry err
  | applied {seen : Log io} {err : TransportError} (hDone : entry.done = false)
      (hSeen : Answers (executor.isApplied entry).run seen (.ok true)) :
      Kept executor entry rest (seen ++ [persisted rest (.error err)]) entry err
  | unattempted {seen : Log io} {err : TransportError} (hDone : entry.done = false)
      (hSeen : Answers (executor.isApplied entry).run seen (.ok false)) :
      Kept executor entry rest (seen ++ [persisted (entry.attempt :: rest) (.error err)]) entry err
  | executed {seen acts : Log io} {err : TransportError} (hDone : entry.done = false)
      (hSeen : Answers (executor.isApplied entry).run seen (.ok false))
      (hActs : Answers (executor.execute entry.attempt).run acts (.ok ())) :
      Kept executor entry rest
        (seen ++ persisted (entry.attempt :: rest) (.ok ()) :: acts ++
          [persisted rest (.error err)]) entry.attempt err
  | failed {seen acts looks : Log io} {err : TransportError} {refreshed : QueueEntry}
      {noted : TransportResult Unit} (hDone : entry.done = false)
      (hSeen : Answers (executor.isApplied entry).run seen (.ok false))
      (hActs : Answers (executor.execute entry.attempt).run acts (.error err))
      (hLooks : Answers (executor.refreshAfterFailedExecute entry.attempt) looks
        (refreshed, noted)) :
      Kept executor entry rest
        (seen ++ persisted (entry.attempt :: rest) (.ok ()) :: acts ++ looks ++
          [persisted (refreshed :: rest) (.ok ())]) refreshed err
  | unrecorded {seen acts looks : Log io} {err persistErr : TransportError}
      {refreshed : QueueEntry} {noted : TransportResult Unit} (hDone : entry.done = false)
      (hSeen : Answers (executor.isApplied entry).run seen (.ok false))
      (hActs : Answers (executor.execute entry.attempt).run acts (.error err))
      (hLooks : Answers (executor.refreshAfterFailedExecute entry.attempt) looks
        (refreshed, noted)) :
      Kept executor entry rest
        (seen ++ persisted (entry.attempt :: rest) (.ok ()) :: acts ++ looks ++
          [persisted (refreshed :: rest) (.error persistErr)]) entry.attempt persistErr

/-! ## The whole replay -/

/-- The turns of entries removed one after the other, with `left` behind the last of them.
The turn of an entry begins after those of all entries before it have ended. -/
inductive Removals (executor : WriteExecutor) (left : List QueueEntry) :
    List QueueEntry → Log io → Prop
  | nil : Removals executor left [] []
  | cons {entry : QueueEntry} {removed : List QueueEntry} {turn log : Log io}
      (hTurn : Removed executor entry (removed ++ left) turn)
      (hRest : Removals executor left removed log) :
      Removals executor left (entry :: removed) (turn ++ log)

/-- Where the replay ends: the queue is empty, or its first entry was kept. -/
inductive Ends (executor : WriteExecutor) :
    List QueueEntry → Log io → List QueueEntry → TransportResult Unit → Prop
  | drained : Ends executor [] [] [] (.ok ())
  | stopped {entry kept : QueueEntry} {rest : List QueueEntry} {log : Log io}
      {err : TransportError} (hTurn : Kept executor entry rest log kept err) :
      Ends executor (entry :: rest) log (kept :: rest) (.error err)

/-- A log splits into the turns of the removed entries and the turn that ends it. -/
def Replayed (executor : WriteExecutor) (queue : List QueueEntry) (log : Log io)
    (queue' : List QueueEntry) (result : TransportResult Unit) : Prop :=
  ∃ removed left turns last, queue = removed ++ left ∧ log = turns ++ last ∧
    Removals executor left removed turns ∧ Ends executor left last queue' result

theorem Replayed.cons {executor : WriteExecutor} {entry : QueueEntry}
    {rest queue' : List QueueEntry}
    {turn log : Log io} {result : TransportResult Unit}
    (hTurn : Removed executor entry rest turn) (hRest : Replayed executor rest log queue' result) :
    Replayed executor (entry :: rest) (turn ++ log) queue' result := by
  obtain ⟨removed, left, turns, last, rfl, rfl, hRemovals, hEnds⟩ := hRest
  exact ⟨entry :: removed, left, turn ++ turns, last, rfl, (List.append_assoc ..).symm,
    .cons hTurn hRemovals, hEnds⟩

theorem Replayed.stopped {executor : WriteExecutor} {entry kept : QueueEntry}
    {rest : List QueueEntry} {log : Log io} {err : TransportError}
    (hTurn : Kept executor entry rest log kept err) :
    Replayed executor (entry :: rest) log (kept :: rest) (.error err) :=
  ⟨[], entry :: rest, [], log, rfl, rfl, .nil, .stopped hTurn⟩

/-- A turn that ends with the removal of the entry: the file is written without it, and
then the rest is replayed, or the entry is kept. -/
theorem replayed_drop {executor : WriteExecutor} {entry current : QueueEntry}
    {rest queue' : List QueueEntry} {before log : Log io} {result : TransportResult Unit}
    (ih : ∀ {log queue' result}, Answers (replayEntries executor rest) log (queue', result) →
      Replayed executor rest log queue' result)
    (hRemoved : Removed executor entry rest (before ++ [persisted rest (.ok ())]))
    (hKept : ∀ err, Kept executor entry rest (before ++ [persisted rest (.error err)]) current err)
    (h : Answers ((persistEntries rest).run >>= fun reply =>
      match reply with
      | .error err => pure (current :: rest, .error err)
      | .ok () => replayEntries executor rest) log (queue', result)) :
    Replayed executor (entry :: rest) (before ++ log) queue' result := by
  obtain ⟨first, second, reply, rfl, hPersist, hNext⟩ := h.of_bind
  have hFirst : first = [persisted rest reply] := Answers.of_perform hPersist
  subst hFirst
  cases reply with
  | error err =>
      obtain ⟨rfl, hOutcome⟩ := hNext.of_pure
      obtain ⟨rfl, rfl⟩ := Prod.mk.inj hOutcome
      rw [List.append_nil]
      exact .stopped (hKept err)
  | ok value =>
      rw [← List.append_assoc]
      exact .cons hRemoved (ih hNext)

theorem replayed_of_answers (executor : WriteExecutor) (queue : List QueueEntry) :
    ∀ {log queue' result}, Answers (replayEntries executor queue) log (queue', result) →
      Replayed executor queue log queue' result := by
  induction queue with
  | nil =>
      intro log queue' result h
      obtain ⟨rfl, hOutcome⟩ := h.of_pure
      obtain ⟨rfl, rfl⟩ := Prod.mk.inj hOutcome
      exact ⟨[], [], [], [], rfl, rfl, .nil, .drained⟩
  | cons entry rest ih =>
      intro log queue' result h
      rw [replayEntries] at h
      by_cases hDone : entry.done = true
      · rw [if_pos hDone] at h
        exact @replayed_drop _ _ _ _ _ [] _ _ ih (.done hDone) (fun _ => .done hDone) h
      rw [if_neg hDone] at h
      have hDone : entry.done = false := by simpa using hDone
      obtain ⟨seen, log₁, answer, rfl, hSeen, hAfterSeen⟩ := h.of_bind
      cases answer with
      | error err =>
          obtain ⟨rfl, hOutcome⟩ := hAfterSeen.of_pure
          obtain ⟨rfl, rfl⟩ := Prod.mk.inj hOutcome
          rw [List.append_nil]
          exact .stopped (.unknown hDone hSeen)
      | ok answer =>
          cases answer with
          | true =>
              exact replayed_drop ih (.applied hDone hSeen)
                (fun _ => .applied hDone hSeen) hAfterSeen
          | false =>
              obtain ⟨first, log₂, reply, rfl, hPersist, hAfterPersist⟩ := hAfterSeen.of_bind
              have hFirst : first = [persisted (entry.attempt :: rest) reply] :=
                Answers.of_perform hPersist
              subst hFirst
              cases reply with
              | error err =>
                  obtain ⟨rfl, hOutcome⟩ := hAfterPersist.of_pure
                  obtain ⟨rfl, rfl⟩ := Prod.mk.inj hOutcome
                  exact .stopped (.unattempted hDone hSeen)
              | ok value =>
                  obtain ⟨acts, log₃, outcome, rfl, hActs, hAfterActs⟩ := hAfterPersist.of_bind
                  cases outcome with
                  | ok value =>
                      have hTurn := replayed_drop ih (.executed hDone hSeen hActs)
                        (fun _ => .executed hDone hSeen hActs) hAfterActs
                      simpa only [List.append_assoc, List.cons_append, List.nil_append] using hTurn
                  | error err =>
                      obtain ⟨looks, log₄, ⟨refreshed, noted⟩, rfl, hLooks, hAfterLooks⟩ :=
                        hAfterActs.of_bind
                      obtain ⟨first, log₅, reply, rfl, hPersist, hEnd⟩ := hAfterLooks.of_bind
                      have hFirst : first = [persisted (refreshed :: rest) reply] :=
                        Answers.of_perform hPersist
                      subst hFirst
                      cases reply with
                      | error persistErr =>
                          obtain ⟨rfl, hOutcome⟩ := hEnd.of_pure
                          obtain ⟨rfl, rfl⟩ := Prod.mk.inj hOutcome
                          have hTurn := Replayed.stopped
                            (@Kept.unrecorded executor entry rest _ _ _ _ persistErr _ _ hDone hSeen
                              hActs hLooks)
                          simpa only [List.append_assoc, List.cons_append, List.nil_append]
                            using hTurn
                      | ok value =>
                          obtain ⟨rfl, hOutcome⟩ := hEnd.of_pure
                          obtain ⟨rfl, rfl⟩ := Prod.mk.inj hOutcome
                          have hTurn := Replayed.stopped
                            (@Kept.failed executor entry rest _ _ _ _ _ _ hDone hSeen hActs hLooks)
                          simpa only [List.append_assoc, List.cons_append, List.nil_append]
                            using hTurn

/-! ## The executor on the store -/

namespace StoreReplayExecutor

theorem within_call (request : StorageCall) : Within 1 (call request).run := .perform _

/-- One call, and after an affirmative answer a second one. -/
theorem within_isApplied (entry : QueueEntry) : Within 2 (isApplied entry).run := by
  obtain ⟨key, operation, attempts, done⟩ := entry
  cases operation with
  | kvPut | materializedPut | objectPut | publishJsonLines =>
      exact fun log a h => (within_call _ h).trans (by omega)
  | kvRenameComplete | objectRenameComplete =>
      refine Within.bindExcept (m := 1) (within_call _) ?_
      intro recorded
      cases recorded with
      | false => exact .pure 1 _
      | true => exact within_call _

theorem within_execute (entry : QueueEntry) : Within 2 (execute entry).run := by
  obtain ⟨key, operation, attempts, done⟩ := entry
  cases operation with
  | kvPut | materializedPut | objectPut | publishJsonLines =>
      exact Within.bindExcept (m := 1) (within_call _) fun _ => .pure 1 _
  | kvRenameComplete | objectRenameComplete =>
      exact Within.bindExcept (m := 1) (within_call _) fun _ => within_call _

theorem within_refresh (entry : QueueEntry) : Within 1 (refreshAfterFailedExecute entry) := by
  obtain ⟨key, operation, attempts, done⟩ := entry
  cases operation with
  | kvPut | materializedPut | objectPut | kvRenameComplete | objectRenameComplete =>
      exact .pure 1 _
  | publishJsonLines =>
      refine Within.bind (m := 0) (within_call _) ?_
      intro reply
      cases reply with
      | ok value => exact .pure 0 _
      | error err => exact .pure 0 _

/-- Looking at how far a failed publish got changes nothing but the count of lines, and
never lowers it. -/
theorem advanced_of_refresh {entry refreshed : QueueEntry} {noted : TransportResult Unit}
    {log : Log io} (h : Answers (refreshAfterFailedExecute entry) log (refreshed, noted)) :
    entry.Advanced refreshed := by
  obtain ⟨key, operation, attempts, done⟩ := entry
  cases operation with
  | kvPut | materializedPut | objectPut | kvRenameComplete | objectRenameComplete =>
      obtain ⟨-, hOutcome⟩ := h.of_pure
      rw [(Prod.mk.inj hOutcome).1]
      exact .refl _
  | publishJsonLines stream subject bytes applied =>
      obtain ⟨first, second, reply, -, -, hEnd⟩ := h.of_bind
      cases reply with
      | ok durable =>
          obtain ⟨-, hOutcome⟩ := hEnd.of_pure
          rw [(Prod.mk.inj hOutcome).1]
          exact ⟨rfl, rfl, le_rfl,
            Or.inr ⟨stream, subject, bytes, applied, _, rfl, rfl, Nat.le_max_left ..⟩⟩
      | error err =>
          obtain ⟨-, hOutcome⟩ := hEnd.of_pure
          rw [(Prod.mk.inj hOutcome).1]
          exact .refl _

end StoreReplayExecutor

open StoreReplayExecutor

theorem Removed.length_le {entry : QueueEntry} {rest : List QueueEntry} {log : Log io}
    (h : Removed storeReplayExecutor entry rest log) : log.length ≤ 7 := by
  cases h with
  | done => simp
  | applied _ hSeen =>
      have := within_isApplied entry hSeen
      simp only [List.length_append, List.length_cons, List.length_nil]
      omega
  | executed _ hSeen hActs =>
      have := within_isApplied entry hSeen
      have := within_execute entry.attempt hActs
      simp only [List.length_append, List.length_cons, List.length_nil]
      omega

theorem Kept.length_le {entry kept : QueueEntry} {rest : List QueueEntry} {log : Log io}
    {err : TransportError} (h : Kept storeReplayExecutor entry rest log kept err) :
    log.length ≤ 7 := by
  cases h with
  | done => simp
  | unknown _ hSeen => exact (within_isApplied entry hSeen).trans (by omega)
  | applied _ hSeen | unattempted _ hSeen =>
      have := within_isApplied entry hSeen
      simp only [List.length_append, List.length_cons, List.length_nil]
      omega
  | executed _ hSeen hActs =>
      have := within_isApplied entry hSeen
      have := within_execute entry.attempt hActs
      simp only [List.length_append, List.length_cons, List.length_nil]
      omega
  | failed _ hSeen hActs hLooks | unrecorded _ hSeen hActs hLooks =>
      have := within_isApplied entry hSeen
      have := within_execute entry.attempt hActs
      have := within_refresh entry.attempt hLooks
      simp only [List.length_append, List.length_cons, List.length_nil]
      omega

theorem Kept.advanced {entry kept : QueueEntry} {rest : List QueueEntry} {log : Log io}
    {err : TransportError} (hAttempts : entry.attempts < 2 ^ 32)
    (h : Kept storeReplayExecutor entry rest log kept err) : entry.Advanced kept := by
  cases h with
  | done | unknown | applied | unattempted => exact .refl entry
  | executed | unrecorded => exact .attempt hAttempts
  | failed _ _ _ hLooks =>
      exact (QueueEntry.Advanced.attempt hAttempts).trans_attempts rfl (advanced_of_refresh hLooks)

theorem Removals.length_le {left removed : List QueueEntry} {log : Log io}
    (h : Removals storeReplayExecutor left removed log) : log.length ≤ 7 * removed.length := by
  induction h with
  | nil => simp
  | cons hTurn hRest ih =>
      have := hTurn.length_le
      simp only [List.length_append, List.length_cons]
      omega

theorem Ends.length_le {left queue' : List QueueEntry} {log : Log io}
    {result : TransportResult Unit} (h : Ends storeReplayExecutor left log queue' result) :
    log.length ≤ 7 * left.length := by
  cases h with
  | drained => simp
  | stopped hTurn =>
      have := hTurn.length_le
      simp only [List.length_cons]
      omega

/-- The queue after a replay is what was left of the queue before it; only its first entry
may have changed. -/
theorem Ends.advanced {left queue' : List QueueEntry} {log : Log io}
    {result : TransportResult Unit} (hAttempts : ∀ entry ∈ left, entry.attempts < 2 ^ 32)
    (h : Ends storeReplayExecutor left log queue' result) :
    queue' = left ∨ ∃ entry kept rest, left = entry :: rest ∧ queue' = kept :: rest ∧
      entry.Advanced kept := by
  cases h with
  | drained => exact Or.inl rfl
  | stopped hTurn =>
      exact Or.inr ⟨_, _, _, rfl, rfl, hTurn.advanced (hAttempts _ List.mem_cons_self)⟩

theorem Ends.empty_of_ok {executor : WriteExecutor} {left queue' : List QueueEntry} {log : Log io}
    (h : Ends executor left log queue' (.ok ())) : queue' = [] := by
  cases h
  rfl

theorem answers_replayWithStore {queue after : WritebackQueue} {log : Log io}
    {result : TransportResult Unit} (h : Answers queue.replayWithStore log (after, result)) :
    after.capacity = queue.capacity ∧
      Replayed storeReplayExecutor queue.entries log after.entries result := by
  obtain ⟨first, second, ⟨entries, outcome⟩, rfl, hReplay, hEnd⟩ := h.of_bind
  obtain ⟨rfl, hOutcome⟩ := hEnd.of_pure
  obtain ⟨rfl, rfl⟩ := Prod.mk.inj hOutcome
  rw [List.append_nil]
  exact ⟨rfl, replayed_of_answers _ _ hReplay⟩

/-- A replay returns after at most seven calls an entry, whatever the replies are. It
removes entries from the front, each in a turn of its own that ends before the next one
begins, and ends at an empty queue or at the first entry it keeps. -/
theorem replay_removes_in_order (queue : WritebackQueue)
    (hAttempts : ∀ entry ∈ queue.entries, entry.attempts < 2 ^ 32) :
    (∀ strategy, ∃ log outcome, Answers queue.replayWithStore log outcome ∧
      Follows strategy [] log) ∧
    ∀ ⦃log after result⦄, Answers queue.replayWithStore log (after, result) →
      log.length ≤ 7 * queue.entries.length ∧
      (∃ removed left turns last, queue.entries = removed ++ left ∧ log = turns ++ last ∧
        Removals storeReplayExecutor left removed turns ∧
        Ends storeReplayExecutor left last after.entries result ∧
        (after.entries = left ∨ ∃ entry kept rest, left = entry :: rest ∧
          after.entries = kept :: rest ∧ entry.Advanced kept)) ∧
      (result = .ok () → after.entries = []) := by
  refine ⟨fun strategy => exists_answers strategy _ [], ?_⟩
  intro log after result h
  obtain ⟨-, removed, left, turns, last, hQueue, rfl, hRemovals, hEnds⟩ :=
    answers_replayWithStore h
  have hLeft : ∀ entry ∈ left, entry.attempts < 2 ^ 32 := by
    intro entry hMem
    exact hAttempts entry (hQueue ▸ List.mem_append_right removed hMem)
  refine ⟨?_, ⟨removed, left, turns, last, hQueue, rfl, hRemovals, hEnds, hEnds.advanced hLeft⟩, ?_⟩
  · have := hRemovals.length_le
    have := hEnds.length_le
    rw [hQueue]
    simp only [List.length_append]
    omega
  · rintro rfl
    exact hEnds.empty_of_ok

def secondPut : QueueEntry := ⟨"2".toList, .kvPut "b".toList "k".toList [2], 0, false⟩

def twoPuts : WritebackQueue :=
  ⟨8, [⟨"1".toList, .kvPut "b".toList "k".toList [1], 0, false⟩, secondPut]⟩

/-- The first put is found applied, the second one fails. -/
def secondPutFails : Log io :=
  [⟨.store (.kvPutApplied "b".toList "k".toList "1".toList), .ok true⟩,
    persisted [secondPut] (.ok ()),
    ⟨.store (.kvPutApplied "b".toList "k".toList "2".toList), .ok false⟩,
    persisted [secondPut.attempt] (.ok ()),
    ⟨.store (.kvPutIdempotent "b".toList "k".toList [2] "2".toList), .error .notFound⟩,
    persisted [secondPut.attempt] (.ok ())]

theorem answers_secondPutFails : Answers twoPuts.replayWithStore secondPutFails
    (⟨8, [secondPut.attempt]⟩, .error .notFound) :=
  .call _ (.call _ (.call _ (.call _ (.call _ (.call _ (.ret _))))))

theorem second_put_kept : secondPutFails.length ≤ 14 ∧
    ∃ removed left, twoPuts.entries = removed ++ left ∧
      ([secondPut.attempt] = left ∨ ∃ entry kept rest, left = entry :: rest ∧
        [secondPut.attempt] = kept :: rest ∧ entry.Advanced kept) := by
  obtain ⟨hLength, ⟨removed, left, _, _, hQueue, _, _, _, hLeft⟩, _⟩ :=
    (replay_removes_in_order twoPuts (by decide)).2 answers_secondPutFails
  exact ⟨hLength, removed, left, hQueue, hLeft⟩

end EventFs.Transport
