import EventFs.Fuse.Logs
import EventFs.Fuse.StreamReads

/-!
# Reading a stream that grows

A subject is read through many calls, and each of them may be refused. What is published
while they are made is not part of the answer: the listing fixes which messages are read,
and these stay as they are.
-/

namespace EventFs.Fuse

open Library Protocol Transport Program

/-- The stream has the lines it had, and possibly more. -/
def GrowsTo (stream : Str) (log grown : LineLog) : Prop :=
  log.messages stream <+: grown.messages stream

theorem GrowsTo.trans {stream : Str} {log between grown : LineLog}
    (h : GrowsTo stream log between) (h' : GrowsTo stream between grown) :
    GrowsTo stream log grown :=
  List.IsPrefix.trans h h'

theorem GrowsTo.ordered {stream : Str} {log grown : LineLog} (h : GrowsTo stream log grown)
    (hOrdered : LineLog.Ordered (grown.messages stream)) :
    LineLog.Ordered (log.messages stream) :=
  ⟨hOrdered.1.sublist h.sublist, fun line hLine => hOrdered.2 line (h.subset hLine)⟩

/-- The call was answered with an error. -/
def refused : (Σ call : IoCall, io.Reply call) → Bool
  | ⟨.store request, reply⟩ => !Except.isOk (show TransportResult request.Value from reply)
  | ⟨.persist _, reply⟩ => !Except.isOk (show TransportResult Unit from reply)
  | ⟨.load, reply⟩ => !Except.isOk (show TransportResult (List QueueEntry) from reply)

/-- What a read of a subject comes to: its bytes, or nothing once a call was refused. -/
inductive Read (calls : Log io) (bytes : Bytes) : Except Errno Bytes → Prop
  | answered (hCalls : calls.any refused = false) : Read calls bytes (.ok bytes)
  | missing (hCalls : calls.any refused = true) : Read calls bytes (.ok [])
  | unavailable {errno : Errno} (hCalls : calls.any refused = true)
      (hErrno : directoryListingUnavailable errno = true) : Read calls bytes (.error errno)

theorem directoryListingUnavailable_ioError (err : TransportError) :
    directoryListingUnavailable (ioError err) = true := by
  cases err <;> rfl

theorem Read.failed {call : StorageCall} {rest : Log io} (bytes : Bytes) (err : TransportError) :
    Read (⟨.store call, (.error err : TransportResult call.Value)⟩ :: rest) bytes
      (.error (ioError err)) :=
  .unavailable rfl (directoryListingUnavailable_ioError err)

theorem Read.cons {call : StorageCall} {value : call.Value} {calls : Log io} {bytes : Bytes}
    {answer : Except Errno Bytes} (h : Read calls bytes answer) :
    Read (⟨.store call, (.ok value : TransportResult call.Value)⟩ :: calls) bytes answer := by
  cases h with
  | answered hCalls => exact .answered hCalls
  | missing hCalls => exact .missing hCalls
  | unavailable hCalls hErrno => exact .unavailable hCalls hErrno

/-- What the mount takes for the lines of a subject when these calls read it. -/
def linesRead (log : LineLog) (stream subject : Str) (calls : Log io) : List LoggedLine :=
  if calls.any refused then [] else log.ofSubject stream subject

theorem Read.lines {log : LineLog} {stream subject : Str} {calls : Log io}
    {answer : Except Errno Bytes}
    (h : Read calls (snapshotOf (log.ofSubject stream subject)) answer) :
    answer = .ok (snapshotOf (linesRead log stream subject calls)) ∨
      linesRead log stream subject calls = [] ∧
        ∃ errno, answer = .error errno ∧ directoryListingUnavailable errno = true := by
  cases h with
  | answered hCalls => exact Or.inl (by simp [linesRead, hCalls])
  | missing hCalls => exact Or.inl (by simp [linesRead, hCalls, snapshotOf])
  | unavailable hCalls hErrno => exact Or.inr ⟨by simp [linesRead, hCalls], _, rfl, hErrno⟩

section Heard

variable [Serde] {stream subject : Str} {log grown final : LineLog} {calls : Log io}

/-- Every call is answered by the log it meets or refused, and the stream grows from one
call to the next. -/
inductive Heard (stream : Str) : LineLog → Log io → LineLog → Prop
  | done (log : LineLog) : Heard stream log [] log
  | answered {log grown final : LineLog} {call : IoCall} {calls : Log io}
      (hGrows : GrowsTo stream log grown) (rest : Heard stream grown calls final) :
      Heard stream log (⟨call, (logWorld ⟨log, []⟩ call).1⟩ :: calls) final
  | refused {log grown final : LineLog} {call : IoCall} {calls : Log io} (err : TransportError)
      (hGrows : GrowsTo stream log grown) (rest : Heard stream grown calls final) :
      Heard stream log (⟨call, failing err call⟩ :: calls) final

namespace Heard

theorem growsTo (h : Heard stream log calls final) : GrowsTo stream log final := by
  induction h with
  | done log => exact List.prefix_rfl
  | answered hGrows _ ih => exact hGrows.trans ih
  | refused _ hGrows _ ih => exact hGrows.trans ih

theorem split {first second : Log io} (h : Heard stream log (first ++ second) final) :
    ∃ met, Heard stream log first met ∧ Heard stream met second final := by
  induction first generalizing log with
  | nil => exact ⟨log, .done log, h⟩
  | cons head first ih =>
      cases h with
      | answered hGrows rest =>
          obtain ⟨met, hFirst, hSecond⟩ := ih rest
          exact ⟨met, .answered hGrows hFirst, hSecond⟩
      | refused err hGrows rest =>
          obtain ⟨met, hFirst, hSecond⟩ := ih rest
          exact ⟨met, .refused err hGrows hFirst, hSecond⟩

/-- The first of the calls. -/
theorem store_cons {call : StorageCall} {reply : TransportResult call.Value}
    (h : Heard stream log (⟨.store call, reply⟩ :: calls) final) :
    (reply = (LineLog.handle log call).1 ∨ ∃ err, reply = .error err) ∧
      ∃ grown, GrowsTo stream log grown ∧ Heard stream grown calls final := by
  cases h with
  | answered hGrows rest => exact ⟨Or.inl rfl, _, hGrows, rest⟩
  | refused err hGrows rest => exact ⟨Or.inr ⟨err, rfl⟩, _, hGrows, rest⟩

end Heard

variable {mount mount' : Mount} {answer : Except Errno Bytes}

/-- The messages behind a listing, whatever is added to the stream while they are read. -/
theorem Logs.of_collectMessages {lines : List LoggedLine} {bytes : Bytes}
    (hHeard : Heard stream log calls final) (hOrdered : LineLog.Ordered (final.messages stream))
    (hHeld : lines ⊆ log.messages stream)
    (h : Logs ((lines.map (·.sequence)).foldlM (fun bytes sequence => do
        let message ← requestIo (.streamMessage stream sequence)
        return if message.subject = subject then appendJsonLine bytes message.payload else bytes)
        bytes : Runtime Bytes).run mount calls answer mount') :
    mount' = mount ∧ Read calls ((lines.filter fun line => line.subject == subject).foldl
      (fun bytes line => appendJsonLine bytes line.payload) bytes) answer := by
  induction lines generalizing log calls bytes mount with
  | nil =>
      obtain ⟨rfl, rfl, rfl⟩ := Logs.of_pure h
      exact ⟨rfl, .answered rfl⟩
  | cons line rest ih =>
      rcases Logs.of_andThen h with ⟨errno, rfl, hStep⟩ | ⟨_, second, next, _, rfl, hStep, hRest⟩
      · obtain ⟨reply, rfl, hAnswer, rfl⟩ := hStep.of_requestIo_map
        cases reply with
        | ok message => cases hAnswer
        | error err =>
            obtain rfl := Except.error.inj hAnswer
            exact ⟨rfl, .failed _ err⟩
      · obtain ⟨reply, rfl, hAnswer, rfl⟩ := hStep.of_requestIo_map
        obtain ⟨hReply, grown, hGrows, hHeardRest⟩ := hHeard.store_cons
        cases reply with
        | error err => cases hAnswer
        | ok message =>
            have hMessage : message = ⟨stream, line.sequence, line.subject, line.payload⟩ := by
              rcases hReply with hReply | ⟨err, hReply⟩
              · rw [handle_streamMessage (hHeard.growsTo.ordered hOrdered)
                  (hHeld List.mem_cons_self)] at hReply
                exact Except.ok.inj hReply
              · cases hReply
            obtain rfl : next = if message.subject = subject then
                appendJsonLine bytes message.payload else bytes := Except.ok.inj hAnswer
            obtain ⟨rfl, hRead⟩ := ih hHeardRest
              (fun other hOther => hGrows.subset (hHeld (List.mem_cons_of_mem line hOther))) hRest
            refine ⟨rfl, .cons ?_⟩
            subst hMessage
            rw [List.filter_cons]
            by_cases hSubject : line.subject = subject
            · simpa [hSubject] using hRead
            · simpa [hSubject] using hRead

omit [Serde] in
theorem Logs.of_listStreamMessages {result : Except Errno (List DirectoryEntry)}
    (h : Logs (listStreamMessages stream true).run mount calls result mount') :
    ∃ reply : TransportResult (List DirectoryEntry),
      calls = [⟨.store (.listStreamMessages stream), reply⟩] ∧ mount' = mount ∧
        match reply with
        | .ok entries => result = .ok entries
        | .error err => result = .ok [] ∨ result = .error (ioError err) := by
  obtain ⟨_, _, reply, _, rfl, hRequest, hEnd⟩ := h.of_liftM_andThen
  obtain ⟨rfl, rfl⟩ := hRequest.of_request
  refine ⟨reply, ?_⟩
  cases reply with
  | ok entries =>
      obtain ⟨rfl, rfl, rfl⟩ := Logs.of_pure hEnd
      exact ⟨rfl, rfl, rfl⟩
  | error err =>
      by_cases hMissing : err = .notFound ∧ true = true
      · obtain ⟨rfl, rfl, rfl⟩ := Logs.of_pure (hEnd.of_then hMissing)
        exact ⟨rfl, rfl, Or.inl rfl⟩
      · obtain ⟨rfl, rfl, rfl⟩ := (hEnd.of_else hMissing).of_throw
        exact ⟨rfl, rfl, Or.inr rfl⟩

theorem entries_of_listed {entries : List DirectoryEntry}
    (h : (LineLog.handle log (.listStreamMessages stream)).1 = .ok entries) :
    entries = (log.messages stream).map fun line =>
      ⟨Text.decimal line.sequence ++ ".json".toList, .file⟩ := by
  have hReply : (LineLog.handle log (.listStreamMessages stream)).1 =
      log.listStreamMessages stream := rfl
  rw [hReply, LineLog.listStreamMessages] at h
  rw [LineLog.messages, Std.ExtTreeMap.getD_eq_getD_getElem?]
  cases hLines : log.streams[stream]? with
  | none =>
      rw [hLines] at h
      cases h
  | some lines =>
      rw [hLines] at h
      exact (Except.ok.inj h).symm

/-- The read gives the lines that the listing found, unless a call of it is refused. -/
theorem Logs.of_readStreamSubjectSnapshotAllowMissing
    (hHeard : Heard stream log calls final) (hOrdered : LineLog.Ordered (final.messages stream))
    (h : Logs (readStreamSubjectSnapshotAllowMissing stream subject).run mount calls answer
      mount') :
    mount' = mount ∧ Read calls (snapshotOf (log.ofSubject stream subject)) answer := by
  rcases h.of_andThen with ⟨errno, rfl, hList⟩ | ⟨_, second, entries, _, rfl, hList, hCollect⟩
  · obtain ⟨reply, rfl, rfl, hResult⟩ := hList.of_listStreamMessages
    cases reply with
    | ok entries => cases hResult
    | error err =>
        obtain rfl : errno = ioError err := by simpa using hResult
        exact ⟨rfl, .failed _ err⟩
  · obtain ⟨reply, rfl, rfl, hResult⟩ := hList.of_listStreamMessages
    obtain ⟨hReply, grown, hGrows, hHeardRest⟩ := hHeard.store_cons
    cases reply with
    | error err =>
        obtain rfl : entries = [] := by simpa using hResult
        obtain ⟨rfl, rfl, rfl⟩ := Logs.of_pure hCollect
        exact ⟨rfl, .missing rfl⟩
    | ok listed =>
        obtain rfl : entries = listed := Except.ok.inj hResult
        have hListed : entries = (log.messages stream).map fun line =>
            ⟨Text.decimal line.sequence ++ ".json".toList, .file⟩ := by
          rcases hReply with hReply | ⟨err, hReply⟩
          · exact entries_of_listed hReply.symm
          · cases hReply
        rw [collectStreamSubjectSnapshot, hListed,
          filterMap_messageSequence (hHeard.growsTo.ordered hOrdered)] at hCollect
        obtain ⟨rfl, hRead⟩ := hCollect.of_collectMessages hHeardRest hOrdered hGrows.subset
        exact ⟨rfl, hRead.cons⟩

/-- Code that takes a read that fails for one of an empty subject. -/
theorem Logs.of_readThen {α : Type} {next : Except Errno Bytes → RuntimeM α} {f : Bytes → α}
    {a : α} (hOk : ∀ bytes, next (.ok bytes) = pure (f bytes))
    (hError : ∀ errno, directoryListingUnavailable errno = true →
      next (.error errno) = pure (f []))
    (hHeard : Heard stream log calls final) (hOrdered : LineLog.Ordered (final.messages stream))
    (h : Logs ((readStreamSubjectSnapshotAllowMissing stream subject).run >>= next) mount calls a
      mount') :
    a = f (snapshotOf (linesRead log stream subject calls)) := by
  obtain ⟨first, second, answer, _, rfl, hRead, hNext⟩ := h.of_bind
  obtain ⟨met, hFirst, hSecond⟩ := hHeard.split
  obtain ⟨rfl, hAnswer⟩ := hRead.of_readStreamSubjectSnapshotAllowMissing hFirst
    (hSecond.growsTo.ordered hOrdered)
  rcases hAnswer.lines with rfl | ⟨hNone, errno, rfl, hErrno⟩
  · rw [hOk] at hNext
    obtain ⟨rfl, rfl, -⟩ := hNext.of_pure
    rw [List.append_nil]
  · rw [hError errno hErrno] at hNext
    obtain ⟨rfl, rfl, -⟩ := hNext.of_pure
    rw [List.append_nil, hNone]
    rfl

end Heard

end EventFs.Fuse
