import EventFs.Library.Answers
import EventFs.Transport.Nats.Kv

/-!
# What a delete asks of the broker

A delete works in rounds. A round reads the key, publishes a delete message that is tied
to the revision it has read, and reads the key again if that fails. The delete ends with
the first acknowledgement, and with the first read that finds the key missing.
-/

namespace EventFs.Transport.Nats.Kv

open Library Program

variable {bucket key : Str} {log : Log nats}

/-! ## Single calls -/

theorem answers_attempt {call : NatsCall} {result : TransportResult (Except IoError call.Value)}
    (h : Answers (attempt call).run log result) :
    ∃ reply : Except IoError call.Value, log = [⟨call, reply⟩] ∧ result = .ok reply := by
  cases h with
  | call reply hRest =>
      obtain ⟨rfl, rfl⟩ := Answers.of_pure hRest
      exact ⟨reply, rfl, rfl⟩

theorem answers_perform {call : NatsCall} {result : TransportResult call.Value}
    (h : Answers (perform call).run log result) :
    ∃ reply : Except IoError call.Value, log = [⟨call, reply⟩] ∧
      result = reply.mapError IoError.toTransport := by
  rcases h.of_bindExcept with ⟨err, -, hFailed⟩ | ⟨_, _, reply, rfl, hCall, hEnd⟩
  · obtain ⟨_, -, hOk⟩ := answers_attempt hFailed
    cases hOk
  obtain ⟨reply, rfl, hReply⟩ := answers_attempt hCall
  obtain rfl := Except.ok.inj hReply
  cases reply with
  | ok value | error err =>
      obtain ⟨rfl, rfl⟩ := Answers.of_pure hEnd
      exact ⟨_, rfl, rfl⟩

theorem answers_lookup {call : NatsCall} {result : TransportResult (Option call.Value)}
    (h : Answers (lookup call).run log result) :
    ∃ reply : Except IoError call.Value, log = [⟨call, reply⟩] ∧
      ((∃ value, reply = .ok value ∧ result = .ok (some value)) ∨
        (∃ err, reply = .error err ∧ err.isNotFound = true ∧ result = .ok none) ∨
        ∃ err, reply = .error err ∧ err.isNotFound = false ∧ result = .error err.toTransport) := by
  rcases h.of_bindExcept with ⟨err, -, hFailed⟩ | ⟨_, _, reply, rfl, hCall, hEnd⟩
  · obtain ⟨_, -, hOk⟩ := answers_attempt hFailed
    cases hOk
  obtain ⟨reply, rfl, hReply⟩ := answers_attempt hCall
  obtain rfl := Except.ok.inj hReply
  refine ⟨reply, ?_⟩
  cases reply with
  | ok value =>
      obtain ⟨rfl, rfl⟩ := Answers.of_pure hEnd
      exact ⟨rfl, Or.inl ⟨value, rfl, rfl⟩⟩
  | error err =>
      cases hNotFound : err.isNotFound with
      | true =>
          simp only [hNotFound, if_true] at hEnd
          obtain ⟨rfl, rfl⟩ := Answers.of_pure hEnd
          exact ⟨rfl, Or.inr (Or.inl ⟨err, rfl, hNotFound, rfl⟩)⟩
      | false =>
          simp only [hNotFound, Bool.false_eq_true, if_false] at hEnd
          obtain ⟨rfl, rfl⟩ := Answers.of_pure hEnd
          exact ⟨rfl, Or.inr (Or.inr ⟨err, rfl, hNotFound, rfl⟩)⟩

/-! ## Reading the key -/

abbrev Exchange := Σ call : nats.Call, nats.Reply call

def Reads (bucket key : Str) (call : NatsCall) : Prop :=
  call = .keyValue bucket ∨ call = .getLastMessage (streamName bucket) (subject bucket key)

/-- A reply about the last message of the key. -/
def lastReply (bucket key : Str) (reply : Except IoError Message) : Exchange :=
  ⟨NatsCall.getLastMessage (streamName bucket) (subject bucket key), reply⟩

def bucketReply (bucket : Str) (reply : Except IoError Unit) : Exchange :=
  ⟨NatsCall.keyValue bucket, reply⟩

/-- A reply by which the key is not there: no bucket, no message, or a delete. -/
inductive FoundMissing (bucket key : Str) : Exchange → Prop
  | bucket {err : IoError} (hErr : err.isNotFound = true) :
      FoundMissing bucket key (bucketReply bucket (.error err))
  | message {err : IoError} (hErr : err.isNotFound = true) :
      FoundMissing bucket key (lastReply bucket key (.error err))
  | deletion {message : Message} (hDelete : messageIsPut message.headers = false) :
      FoundMissing bucket key (lastReply bucket key (.ok message))

theorem FoundMissing.reads {event : Exchange} (h : FoundMissing bucket key event) :
    Reads bucket key event.1 := by
  cases h with
  | bucket => exact Or.inl rfl
  | message | deletion => exact Or.inr rfl

/-- A reply to a read that does not find the key missing. -/
def Passes (bucket key : Str) (event : Exchange) : Prop :=
  Reads bucket key event.1 ∧ ¬ FoundMissing bucket key event

/-- What a read of the key gets. -/
inductive Got (bucket key : Str) : Log nats → TransportResult (Option Entry) → Prop
  | put {front : Log nats} {message : Message} (hFront : ∀ event ∈ front, Passes bucket key event)
      (hPut : messageIsPut message.headers = true) :
      Got bucket key (front ++ [lastReply bucket key (.ok message)])
        (.ok (some ⟨message.sequence, message.payload⟩))
  | missing {front : Log nats} {event : Exchange}
      (hFront : ∀ event ∈ front, Passes bucket key event)
      (hMissing : FoundMissing bucket key event) : Got bucket key (front ++ [event]) (.ok none)
  | failed {log : Log nats} {err : TransportError} (hLog : ∀ event ∈ log, Passes bucket key event)
      (hErr : err ≠ .notFound) : Got bucket key log (.error err)

theorem answers_store {result : TransportResult Unit}
    (h : Answers (store bucket).run log result) :
    ∃ reply, log = [bucketReply bucket reply] ∧
      ((reply = .ok () ∧ result = .ok ()) ∨
        (∃ err, reply = .error err ∧ err.isNotFound = true ∧ result = .error .notFound) ∨
        ∃ err, reply = .error err ∧ err.isNotFound = false ∧ result = .error err.toTransport) := by
  rcases h.of_bindExcept with ⟨err, -, hFailed⟩ | ⟨_, _, reply, rfl, hCall, hEnd⟩
  · obtain ⟨_, -, hOk⟩ := answers_attempt hFailed
    cases hOk
  obtain ⟨reply, rfl, hReply⟩ := answers_attempt hCall
  obtain rfl := Except.ok.inj hReply
  refine ⟨reply, ?_⟩
  cases reply with
  | ok value =>
      obtain ⟨rfl, rfl⟩ := Answers.of_pure hEnd
      exact ⟨rfl, Or.inl ⟨rfl, rfl⟩⟩
  | error err =>
      obtain ⟨rfl, rfl⟩ := Answers.of_pure hEnd
      refine ⟨rfl, Or.inr ?_⟩
      cases hNotFound : err.isNotFound with
      | true => exact Or.inl ⟨err, rfl, hNotFound, congrArg _ (if_pos hNotFound)⟩
      | false => exact Or.inr ⟨err, rfl, hNotFound, congrArg _ (if_neg (by simp [hNotFound]))⟩

theorem passes_bucketReply {reply : Except IoError Unit}
    (hReply : ∀ err, reply = .error err → err.isNotFound = false) :
    Passes bucket key (bucketReply bucket reply) := by
  refine ⟨Or.inl rfl, fun hMissing => ?_⟩
  generalize hEvent : bucketReply bucket reply = event at hMissing
  cases hMissing with
  | @bucket err hErr =>
      have hSame := hReply err (eq_of_heq (Sigma.mk.inj hEvent).2)
      rw [hErr] at hSame
      cases hSame
  | message | deletion => cases hEvent

theorem passes_lastReply {reply : Except IoError Message}
    (hError : ∀ err, reply = .error err → err.isNotFound = false)
    (hPut : ∀ message, reply = .ok message → messageIsPut message.headers = true) :
    Passes bucket key (lastReply bucket key reply) := by
  refine ⟨Or.inr rfl, fun hMissing => ?_⟩
  generalize hEvent : lastReply bucket key reply = event at hMissing
  cases hMissing with
  | bucket => cases hEvent
  | @message err hErr =>
      have hSame := hError err (eq_of_heq (Sigma.mk.inj hEvent).2)
      rw [hErr] at hSame
      cases hSame
  | @deletion message hDelete =>
      have hSame := hPut message (eq_of_heq (Sigma.mk.inj hEvent).2)
      rw [hDelete] at hSame
      cases hSame

theorem toTransport_ne_notFound (err : IoError) : err.toTransport ≠ .notFound := nofun

theorem answers_get {result : TransportResult (Option Entry)}
    (h : Answers (get bucket key).run log result) : Got bucket key log result := by
  obtain ⟨_, second, outcome, rfl, hStore, hRest⟩ := h.of_inspect
  obtain ⟨reply, rfl, ⟨rfl, rfl⟩ | ⟨err, rfl, hNotFound, rfl⟩ | ⟨err, rfl, hNotFound, rfl⟩⟩ :=
    answers_store hStore
  case inr.inl =>
    obtain ⟨rfl, rfl⟩ := Answers.of_pure hRest
    exact @Got.missing bucket key [] _ (List.forall_mem_nil _) (.bucket hNotFound)
  case inr.inr =>
    obtain ⟨rfl, rfl⟩ := Answers.of_pure hRest
    refine .failed (List.forall_mem_singleton.mpr ?_) (toTransport_ne_notFound err)
    exact passes_bucketReply fun _ hSame => Except.error.inj hSame ▸ hNotFound
  have hBucket : ∀ event ∈ [bucketReply bucket (.ok ())], Passes bucket key event :=
    List.forall_mem_singleton.mpr (passes_bucketReply nofun)
  rcases hRest.of_bindExcept with ⟨err, rfl, hFailed⟩ | ⟨_, _, found, rfl, hLookup, hEnd⟩
  · obtain ⟨reply, rfl, ⟨_, -, hOk⟩ | ⟨_, -, -, hOk⟩ | ⟨err', rfl, hNotFound, hErr⟩⟩ :=
      answers_lookup hFailed
    · cases hOk
    · cases hOk
    · obtain rfl := Except.error.inj hErr
      refine .failed ?_ (toTransport_ne_notFound err')
      refine List.forall_mem_append.mpr ⟨hBucket, List.forall_mem_singleton.mpr ?_⟩
      exact passes_lastReply (fun _ hSame => Except.error.inj hSame ▸ hNotFound) nofun
  · obtain ⟨reply, rfl, ⟨message, rfl, hFound⟩ | ⟨err, rfl, hNotFound, hFound⟩ |
      ⟨_, -, -, hFound⟩⟩ := answers_lookup hLookup
    · obtain rfl := Except.ok.inj hFound
      cases hPut : messageIsPut message.headers with
      | true =>
          simp only [hPut, if_true] at hEnd
          obtain ⟨rfl, rfl⟩ := Answers.of_pure hEnd
          rw [List.append_nil]
          exact .put hBucket hPut
      | false =>
          simp only [hPut, Bool.false_eq_true, if_false] at hEnd
          obtain ⟨rfl, rfl⟩ := Answers.of_pure hEnd
          rw [List.append_nil]
          exact .missing hBucket (.deletion hPut)
    · obtain rfl := Except.ok.inj hFound
      obtain ⟨rfl, rfl⟩ := Answers.of_pure hEnd
      rw [List.append_nil]
      exact .missing hBucket (.message hNotFound)
    · cases hFound

theorem Got.passes {found : TransportResult (Option Entry)} (h : Got bucket key log found)
    (hFound : found ≠ .ok none) : ∀ event ∈ log, Passes bucket key event := by
  cases h with
  | put hFront hPut =>
      refine List.forall_mem_append.mpr ⟨hFront, List.forall_mem_singleton.mpr ?_⟩
      exact passes_lastReply nofun fun _ hSame => Except.ok.inj hSame ▸ hPut
  | missing => exact absurd rfl hFound
  | failed hLog => exact hLog

theorem Got.reads {found : TransportResult (Option Entry)} (h : Got bucket key log found) :
    ∀ event ∈ log, Reads bucket key event.1 := by
  by_cases hFound : found = .ok none
  · subst hFound
    cases h with
    | missing hFront hMissing =>
        exact List.forall_mem_append.mpr ⟨fun event hMem => (hFront event hMem).1,
          List.forall_mem_singleton.mpr hMissing.reads⟩
  · exact fun event hMem => (h.passes hFound event hMem).1

theorem Got.ne_notFound {err : TransportError} (h : Got bucket key log (.error err)) :
    err ≠ .notFound := by
  cases h with
  | failed _ hErr => exact hErr

/-! ## Deleting a revision -/

/-- The delete message of the key, to be stored only if this is still its revision. -/
def deleteCall (bucket key : Str) (revision : Nat) : NatsCall :=
  .publish (streamName bucket) (subject bucket key) [(operationHeader, operationDelete)]
    (.bytes []) ⟨none, some revision⟩

def deleteReply (bucket key : Str) (revision : Nat) (reply : Except IoError Nat) : Exchange :=
  ⟨deleteCall bucket key revision, reply⟩

def Deletes (bucket key : Str) (revision : Nat) (event : Exchange) : Prop :=
  event.1 = deleteCall bucket key revision

/-- What trying to delete a revision gets: an acknowledgement, a read by which the key is
missing, or something that leaves the key there. -/
inductive Tried (bucket key : Str) (revision retries : Nat) :
    Log nats → TransportResult KvDeleteRevision → Prop
  | deleted {front : Log nats} {sequence : Nat} (hLength : front.length ≤ retries)
      (hFront : ∀ event ∈ front, Deletes bucket key revision event) :
      Tried bucket key revision retries
        (front ++ [deleteReply bucket key revision (.ok sequence)]) (.ok .deleted)
  | missing {deletes reads : Log nats} (hLength : deletes.length ≤ retries + 1)
      (hDeletes : ∀ event ∈ deletes, Deletes bucket key revision event)
      (hReads : Got bucket key reads (.ok none)) :
      Tried bucket key revision retries (deletes ++ reads) (.ok .missing)
  | changed {deletes reads : Log nats} (hLength : deletes.length ≤ retries + 1)
      (hDeletes : ∀ event ∈ deletes, Deletes bucket key revision event)
      (hReads : ∀ event ∈ reads, Passes bucket key event) :
      Tried bucket key revision retries (deletes ++ reads) (.ok .revisionChanged)
  | failed {deletes reads : Log nats} {err : TransportError}
      (hLength : deletes.length ≤ retries + 1)
      (hDeletes : ∀ event ∈ deletes, Deletes bucket key revision event)
      (hReads : ∀ event ∈ reads, Passes bucket key event) (hErr : err ≠ .notFound) :
      Tried bucket key revision retries (deletes ++ reads) (.error err)

theorem answers_retryIo {call : NatsCall} {result : TransportResult call.Value} (retries : Nat)
    (h : Answers (retryIo (perform call) retries).run log result) :
    ∃ front reply, log = front ++ [⟨call, reply⟩] ∧ front.length ≤ retries ∧
      (∀ event ∈ front, event.1 = call) ∧
      result = (reply : Except IoError call.Value).mapError IoError.toTransport := by
  induction retries generalizing log with
  | zero =>
      obtain ⟨reply, rfl, rfl⟩ := answers_perform h
      exact ⟨[], reply, rfl, le_refl 0, List.forall_mem_nil _, rfl⟩
  | succ retries ih =>
      obtain ⟨_, second, outcome, rfl, hFirst, hRest⟩ := h.of_inspect
      obtain ⟨reply, rfl, rfl⟩ := answers_perform hFirst
      cases reply with
      | ok value =>
          obtain ⟨rfl, rfl⟩ := Answers.of_pure hRest
          exact ⟨[], .ok value, rfl, Nat.zero_le _, List.forall_mem_nil _, rfl⟩
      | error err =>
          obtain ⟨front, reply, rfl, hLength, hFront, rfl⟩ := ih hRest
          exact ⟨⟨call, .error err⟩ :: front, reply, rfl, Nat.succ_le_succ hLength,
            List.forall_mem_cons.mpr ⟨rfl, hFront⟩, rfl⟩

variable {config : NatsStorageConfig}

theorem answers_deleteRevisionOnce {revision : Nat} {result : TransportResult KvDeleteRevision}
    (h : Answers (deleteRevisionOnce config bucket key revision).run log result) :
    Tried bucket key revision config.retries log result := by
  obtain ⟨_, second, outcome, rfl, hPublish, hRest⟩ := h.of_inspect
  obtain ⟨front, reply, rfl, hLength, hFront, rfl⟩ := answers_retryIo config.retries hPublish
  cases reply with
  | ok sequence =>
      obtain ⟨rfl, rfl⟩ := Answers.of_pure hRest
      rw [List.append_nil]
      exact .deleted hLength hFront
  | error err =>
      have hDeletes : ∀ event ∈ front ++ [deleteReply bucket key revision (.error err)],
          Deletes bucket key revision event :=
        List.forall_mem_append.mpr ⟨hFront, List.forall_mem_singleton.mpr rfl⟩
      have hCount : (front ++ [deleteReply bucket key revision (.error err)]).length ≤
          config.retries + 1 := by
        simpa using hLength
      rcases hRest.of_bindExcept with ⟨err', rfl, hFailed⟩ | ⟨_, _, found, rfl, hGet, hEnd⟩
      · have hGot := answers_get hFailed
        exact .failed hCount hDeletes (hGot.passes nofun) hGot.ne_notFound
      have hGot := answers_get hGet
      cases found with
      | none =>
          obtain ⟨rfl, rfl⟩ := Answers.of_pure hEnd
          rw [List.append_nil]
          exact .missing hCount hDeletes hGot
      | some entry =>
          by_cases hChanged : entry.revision ≠ revision
          · simp only [if_pos hChanged] at hEnd
            obtain ⟨rfl, rfl⟩ := Answers.of_pure hEnd
            rw [List.append_nil]
            exact .changed hCount hDeletes (hGot.passes nofun)
          · simp only [if_neg hChanged] at hEnd
            obtain ⟨rfl, rfl⟩ := Answers.of_pure hEnd
            rw [List.append_nil]
            exact .failed hCount hDeletes (hGot.passes nofun) (toTransport_ne_notFound err)

/-! ## Rounds -/

/-- One round: reads, and where they give a put, deletes of its revision and reads. -/
inductive Round (bucket key : Str) (retries : Nat) : Log nats → Prop
  | read {reads : Log nats} (hReads : ∀ event ∈ reads, Reads bucket key event.1) :
      Round bucket key retries reads
  | delete {reads deletes rereads : Log nats} {message : Message}
      (hReads : ∀ event ∈ reads, Reads bucket key event.1)
      (hMessage : lastReply bucket key (.ok message) ∈ reads)
      (hPut : messageIsPut message.headers = true) (hLength : deletes.length ≤ retries + 1)
      (hDeletes : ∀ event ∈ deletes, Deletes bucket key message.sequence event)
      (hRereads : ∀ event ∈ rereads, Reads bucket key event.1) :
      Round bucket key retries (reads ++ deletes ++ rereads)

/-- Every delete is of a revision that a reply before it gave as the key's. -/
def ReadFirst (bucket key : Str) (log : Log nats) : Prop :=
  ∀ before event after revision, log = before ++ event :: after →
    Deletes bucket key revision event →
      ∃ message, lastReply bucket key (.ok message) ∈ before ∧
        messageIsPut message.headers = true ∧ message.sequence = revision

/-- What a delete that has this many rounds asks, and when it reports what. -/
structure Asks (bucket key : Str) (retries rounds : Nat) (log : Log nats)
    (result : TransportResult Unit) : Prop where
  rounds : ∃ parts : List (Log nats), log = parts.flatten ∧ parts.length ≤ rounds ∧
    ∀ part ∈ parts, Round bucket key retries part
  readFirst : ReadFirst bucket key log
  ok : result = .ok () → ∃ revision sequence,
    deleteReply bucket key revision (.ok sequence) ∈ log
  notFound : result = .error .notFound →
    ∃ front event, log = front ++ [event] ∧ FoundMissing bucket key event
  missing : ∀ event ∈ log, FoundMissing bucket key event → result = .error .notFound

theorem not_reads_of_deletes {revision : Nat} {event : Exchange}
    (h : Deletes bucket key revision event) : ¬ Reads bucket key event.1 := by
  rw [show event.1 = deleteCall bucket key revision from h]
  exact nofun

theorem not_missing_of_deletes {revision : Nat} {event : Exchange}
    (h : Deletes bucket key revision event) : ¬ FoundMissing bucket key event :=
  fun hMissing => not_reads_of_deletes h hMissing.reads

theorem readFirst_of_reads (h : ∀ event ∈ log, Reads bucket key event.1) :
    ReadFirst bucket key log := by
  rintro before event after revision rfl hDeletes
  exact absurd (h event (by simp)) (not_reads_of_deletes hDeletes)

theorem ReadFirst.append {first second : Log nats} (h : ReadFirst bucket key first)
    (h' : ReadFirst bucket key second) : ReadFirst bucket key (first ++ second) := by
  intro before event after revision hSplit hDeletes
  rcases List.append_eq_append_iff.mp hSplit with ⟨more, rfl, hSecond⟩ | ⟨more, hFirst, hAfter⟩
  · obtain ⟨message, hMessage, hRead⟩ := h' more event after revision hSecond hDeletes
    exact ⟨message, List.mem_append_right first hMessage, hRead⟩
  · cases more with
    | nil =>
        obtain ⟨message, hMessage, -⟩ := h' [] event after revision hAfter.symm hDeletes
        cases hMessage
    | cons head more =>
        obtain ⟨rfl, -⟩ := List.cons.inj hAfter
        exact h before event more revision hFirst hDeletes

theorem ReadFirst.append_deletes {reads deletes : Log nats} {message : Message}
    (hReads : ∀ event ∈ reads, Reads bucket key event.1)
    (hMessage : lastReply bucket key (.ok message) ∈ reads)
    (hPut : messageIsPut message.headers = true)
    (hDeletes : ∀ event ∈ deletes, Deletes bucket key message.sequence event) :
    ReadFirst bucket key (reads ++ deletes) := by
  intro before event after revision hSplit hEvent
  have hFound {more : Log nats} (hBefore : before = reads ++ more) (hMem : event ∈ deletes) :
      ∃ message, lastReply bucket key (.ok message) ∈ before ∧
        messageIsPut message.headers = true ∧ message.sequence = revision := by
    have hSame : deleteCall bucket key message.sequence = deleteCall bucket key revision :=
      (hDeletes event hMem).symm.trans hEvent
    refine ⟨message, hBefore ▸ List.mem_append_left more hMessage, hPut, ?_⟩
    injection hSame with _ _ _ _ hOptions
    injection hOptions with _ hRevision
    exact Option.some.inj hRevision
  rcases List.append_eq_append_iff.mp hSplit with ⟨more, hBefore, rfl⟩ | ⟨more, rfl, hAfter⟩
  · exact hFound hBefore (by simp)
  · cases more with
    | nil =>
        refine @hFound [] (by simp) ?_
        rw [show deletes = event :: after from hAfter.symm]
        exact List.mem_cons_self
    | cons head more =>
        obtain ⟨rfl, -⟩ := List.cons.inj hAfter
        exact absurd (hReads event (by simp)) (not_reads_of_deletes hEvent)

/-- A read that gives a put, and what is tried for its revision, is a round. -/
theorem Tried.round {retries : Nat} {reads : Log nats} {message : Message}
    {result : TransportResult KvDeleteRevision}
    (h : Tried bucket key message.sequence retries log result)
    (hReads : ∀ event ∈ reads, Reads bucket key event.1)
    (hMessage : lastReply bucket key (.ok message) ∈ reads)
    (hPut : messageIsPut message.headers = true) :
    Round bucket key retries (reads ++ log) ∧ ReadFirst bucket key (reads ++ log) := by
  have hBoth {deletes rereads : Log nats} (hLength : deletes.length ≤ retries + 1)
      (hDeletes : ∀ event ∈ deletes, Deletes bucket key message.sequence event)
      (hRereads : ∀ event ∈ rereads, Reads bucket key event.1) :
      Round bucket key retries (reads ++ (deletes ++ rereads)) ∧
        ReadFirst bucket key (reads ++ (deletes ++ rereads)) := by
    rw [← List.append_assoc]
    exact ⟨.delete hReads hMessage hPut hLength hDeletes hRereads,
      (ReadFirst.append_deletes hReads hMessage hPut hDeletes).append
        (readFirst_of_reads hRereads)⟩
  cases h with
  | @deleted front sequence hLength hFront =>
      have hDeletes : ∀ event ∈ front ++ [deleteReply bucket key message.sequence (.ok sequence)],
          Deletes bucket key message.sequence event :=
        List.forall_mem_append.mpr ⟨hFront, List.forall_mem_singleton.mpr rfl⟩
      have hLast := @hBoth _ [] (by simpa using hLength) hDeletes (List.forall_mem_nil _)
      rwa [List.append_nil] at hLast
  | missing hLength hDeletes hReads => exact hBoth hLength hDeletes (Got.reads hReads)
  | changed hLength hDeletes hReads | failed hLength hDeletes hReads =>
      exact hBoth hLength hDeletes fun event hMem => (hReads event hMem).1

/-- Unless the key is reported missing, no reply finds it missing. -/
theorem Tried.found {revision retries : Nat} {reads : Log nats}
    {result : TransportResult KvDeleteRevision}
    (h : Tried bucket key revision retries log result)
    (hReads : ∀ event ∈ reads, Passes bucket key event) (hResult : result ≠ .ok .missing) :
    ∀ event ∈ reads ++ log, ¬ FoundMissing bucket key event := by
  refine List.forall_mem_append.mpr ⟨fun event hMem => (hReads event hMem).2, ?_⟩
  cases h with
  | deleted _ hFront =>
      exact List.forall_mem_append.mpr
        ⟨fun event hMem => not_missing_of_deletes (hFront event hMem),
        List.forall_mem_singleton.mpr (not_missing_of_deletes rfl)⟩
  | missing => exact absurd rfl hResult
  | changed _ hDeletes hRereads | failed _ hDeletes hRereads =>
      exact List.forall_mem_append.mpr
        ⟨fun event hMem => not_missing_of_deletes (hDeletes event hMem),
        fun event hMem => (hRereads event hMem).2⟩

theorem Tried.ne_notFound {revision retries : Nat} {err : TransportError}
    (h : Tried bucket key revision retries log (.error err)) : err ≠ .notFound := by
  cases h with
  | failed _ _ _ hErr => exact hErr

namespace Asks

variable {retries rounds : Nat} {result : TransportResult Unit}

/-- A round that is the last one. -/
theorem of_round (hRound : Round bucket key retries log) (hReadFirst : ReadFirst bucket key log)
    (hOk : result = .ok () → ∃ revision sequence,
      deleteReply bucket key revision (.ok sequence) ∈ log)
    (hNotFound : result = .error .notFound →
      ∃ front event, log = front ++ [event] ∧ FoundMissing bucket key event)
    (hMissing : ∀ event ∈ log, FoundMissing bucket key event → result = .error .notFound) :
    Asks bucket key retries (rounds + 1) log result where
  rounds := ⟨[log], by simp, by simp, List.forall_mem_singleton.mpr hRound⟩
  readFirst := hReadFirst
  ok := hOk
  notFound := hNotFound
  missing := hMissing

/-- A read that finds the key missing, and so is the last one. -/
theorem of_missing {first reads : Log nats} (hRound : Round bucket key retries (first ++ reads))
    (hReadFirst : ReadFirst bucket key (first ++ reads))
    (hReads : Got bucket key reads (.ok none)) :
    Asks bucket key retries (rounds + 1) (first ++ reads) (.error .notFound) := by
  refine .of_round hRound hReadFirst nofun (fun _ => ?_) fun _ _ _ => rfl
  cases hReads with
  | @missing front event _ hMissing =>
      exact ⟨first ++ front, event, (List.append_assoc first front [event]).symm, hMissing⟩

/-- A round that leaves the key there, before others. -/
theorem cons {first : Log nats} (hRound : Round bucket key retries first)
    (hReadFirst : ReadFirst bucket key first)
    (hFirst : ∀ event ∈ first, ¬ FoundMissing bucket key event)
    (h : Asks bucket key retries rounds log result) :
    Asks bucket key retries (rounds + 1) (first ++ log) result where
  rounds := by
    obtain ⟨parts, rfl, hLength, hParts⟩ := h.rounds
    exact ⟨first :: parts, rfl, Nat.succ_le_succ hLength, List.forall_mem_cons.mpr ⟨hRound, hParts⟩⟩
  readFirst := hReadFirst.append h.readFirst
  ok hOk := by
    obtain ⟨revision, sequence, hMem⟩ := h.ok hOk
    exact ⟨revision, sequence, List.mem_append_right first hMem⟩
  notFound hNotFound := by
    obtain ⟨front, event, rfl, hMissing⟩ := h.notFound hNotFound
    exact ⟨first ++ front, event, (List.append_assoc first front [event]).symm, hMissing⟩
  missing event hMem hMissing := by
    rcases List.mem_append.mp hMem with hIn | hIn
    · exact absurd hMissing (hFirst event hIn)
    · exact h.missing event hIn hMissing

end Asks

theorem answers_currentRevision {result : TransportResult (Option Nat)}
    (h : Answers (do return (← get bucket key).map (·.revision) : NatsM (Option Nat)).run
      log result) :
    ∃ found, Got bucket key log found ∧ result = found.map (Option.map (·.revision)) := by
  rcases h.of_bindExcept with ⟨err, rfl, hFailed⟩ | ⟨_, _, found, rfl, hGet, hEnd⟩
  · exact ⟨_, answers_get hFailed, rfl⟩
  · obtain ⟨rfl, rfl⟩ := Answers.of_pure hEnd
    rw [List.append_nil]
    exact ⟨_, answers_get hGet, rfl⟩

/-- By induction on the rounds that are left. -/
theorem answers_rounds {attempts left : Nat} {result : TransportResult Unit}
    (h : Answers (plainKvDeleteRounds (do return (← get bucket key).map (·.revision))
      (deleteRevisionOnce config bucket key) attempts left).run log result) :
    Asks bucket key config.retries left log result := by
  induction left generalizing log with
  | zero =>
      obtain ⟨rfl, rfl⟩ := Answers.of_pure h
      exact ⟨⟨[], rfl, le_refl 0, List.forall_mem_nil _⟩,
        readFirst_of_reads (List.forall_mem_nil _), nofun, nofun, List.forall_mem_nil _⟩
  | succ left ih =>
      rcases h.of_bindExcept with ⟨err, rfl, hFailed⟩ | ⟨reads, rest, revision, rfl, hRead, hRest⟩
      · obtain ⟨found, hGot, hFound⟩ := answers_currentRevision hFailed
        have hSame : found = .error err := by
          cases found with
          | ok entry => cases hFound
          | error err' => rw [Except.error.inj hFound]
        subst hSame
        refine .of_round (.read hGot.reads) (readFirst_of_reads hGot.reads) nofun ?_ ?_
        · exact fun hNotFound => absurd (Except.error.inj hNotFound) hGot.ne_notFound
        · exact fun event hMem hMissing => absurd hMissing (hGot.passes nofun event hMem).2
      obtain ⟨found, hGot, hFound⟩ := answers_currentRevision hRead
      cases hGot with
      | failed => cases hFound
      | @missing front event hFront hMissing =>
          obtain rfl : revision = none := Except.ok.inj hFound
          obtain ⟨rfl, rfl⟩ := Answers.of_pure hRest
          have hGot := Got.missing hFront hMissing
          rw [List.append_nil]
          exact @Asks.of_missing _ _ _ _ [] _ (.read hGot.reads)
            (readFirst_of_reads hGot.reads) hGot
      | @put front message hFront hPut =>
          obtain rfl : revision = some message.sequence := Except.ok.inj hFound
          have hGot := Got.put hFront hPut
          have hMessage : lastReply bucket key (.ok message) ∈
              front ++ [lastReply bucket key (.ok message)] := by simp
          rcases hRest.of_bindExcept with ⟨err, rfl, hFailed⟩ | ⟨tried, more, _, rfl, hTry, hMore⟩
          · have hTried := answers_deleteRevisionOnce hFailed
            obtain ⟨hRound, hReadFirst⟩ := hTried.round hGot.reads hMessage hPut
            refine .of_round hRound hReadFirst nofun ?_ ?_
            · exact fun hNotFound => absurd (Except.error.inj hNotFound) hTried.ne_notFound
            · exact fun event hMem hMissing =>
                absurd hMissing (hTried.found (hGot.passes nofun) nofun event hMem)
          have hTried := answers_deleteRevisionOnce hTry
          obtain ⟨hRound, hReadFirst⟩ := hTried.round hGot.reads hMessage hPut
          rw [← List.append_assoc]
          cases hTried with
          | @deleted deletes sequence _ hDeletes =>
              obtain ⟨rfl, rfl⟩ := Answers.of_pure hMore
              rw [List.append_nil]
              refine .of_round hRound hReadFirst ?_ nofun ?_
              · exact fun _ => ⟨message.sequence, sequence, by simp⟩
              · exact fun event hMem hMissing => absurd hMissing
                  ((Tried.deleted ‹_› hDeletes).found (hGot.passes nofun) nofun event hMem)
          | missing hLength hDeletes hReads =>
              obtain ⟨rfl, rfl⟩ := Answers.of_pure hMore
              rw [List.append_nil, ← List.append_assoc]
              rw [← List.append_assoc] at hRound hReadFirst
              exact .of_missing hRound hReadFirst hReads
          | changed hLength hDeletes hReads =>
              have hFound := (Tried.changed hLength hDeletes hReads).found (hGot.passes nofun) nofun
              by_cases hLast : left = 0
              · simp only [if_pos hLast] at hMore
                obtain ⟨rfl, rfl⟩ := Answers.of_pure hMore
                rw [List.append_nil]
                exact .of_round hRound hReadFirst nofun nofun fun event hMem hMissing =>
                  absurd hMissing (hFound event hMem)
              · simp only [if_neg hLast] at hMore
                exact .cons hRound hReadFirst hFound (ih hMore)

/-- What a delete asks in at most one round more than it has retries. -/
theorem answers_delete {result : TransportResult Unit}
    (h : Answers (delete config bucket key).run log result) :
    Asks bucket key config.retries (config.retries + 1) log result := by
  have hAsks := answers_rounds h
  obtain ⟨parts, hParts, hLength, hRounds⟩ := hAsks.rounds
  exact ⟨⟨parts, hParts, hLength.trans (min_le_left _ _), hRounds⟩, hAsks.readFirst, hAsks.ok,
    hAsks.notFound, hAsks.missing⟩

end EventFs.Transport.Nats.Kv
