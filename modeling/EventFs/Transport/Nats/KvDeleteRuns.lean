import EventFs.Library.History
import EventFs.Transport.Nats.BrokerFacts
import EventFs.Transport.Nats.KvDelete

/-!
# What a delete removes

A delete runs while other clients act on the broker, and every call may be refused or
take effect without being acknowledged. It removes only revisions it has read as the
key's, and reports success only if it has removed the key. It may report the key as not
found although it has removed it: when the acknowledgement of its delete message is lost,
the read after that finds the key missing. That is the only way.
-/

namespace EventFs.Transport.Nats

open Library Program

/-! ## What happens to a stream -/

/-- What one call may do to a stream. -/
inductive StreamChange : Option Stream → Option Stream → Prop
  | same (stream : Option Stream) : StreamChange stream stream
  | create (config : StreamConfig) : StreamChange none (some (.create config))
  | configure (stream : Stream) (config : StreamConfig) :
      StreamChange (some stream) (some { stream with config })
  | append (stream : Stream) (subject : Str) (headers : Headers) (payload : Payload) :
      StreamChange (some stream) (some (stream.append subject headers payload))
  | purge (stream : Stream) (subject : Str) :
      StreamChange (some stream) (some { stream with
        messages := stream.messages.filter fun message => message.subject != subject })

theorem StreamChange.setStream {broker : Broker} {name : Str} {stream : Stream}
    (h : StreamChange (broker.streams name) (some stream)) (other : Str) :
    StreamChange (broker.streams other) ((broker.setStream name stream).streams other) := by
  rw [Broker.setStream_streams]
  split
  · next hName =>
    rw [hName]
    exact h
  · exact .same _

theorem Quiet.streamChange {broker broker' : Broker} (h : Quiet broker broker') (name : Str) :
    StreamChange (broker.streams name) (broker'.streams name) := by
  cases h with
  | same | forget => exact .same _
  | create config hNone =>
      refine StreamChange.setStream ?_ name
      rw [hNone]
      exact .create config
  | configure config hStream =>
      refine StreamChange.setStream ?_ name
      rw [hStream]
      exact .configure _ config

section Handler

variable [Nuid]

theorem handle_streamChange (broker : Broker) (call : NatsCall) (name : Str) :
    StreamChange (broker.streams name) ((Broker.handle broker call).2.streams name) := by
  cases hQuiet : call.quiet with
  | true => exact (handle_isQuiet hQuiet).streamChange name
  | false =>
      cases call with
      | publish stream subject headers payload options =>
          simp only [Broker.handle]
          rcases publish_cases broker stream subject headers payload options with
            ⟨err, hSame, -⟩ | ⟨sequence, -, hSame⟩ | ⟨found, hStream, -, hStored⟩
          · rw [hSame]
            exact .same _
          · rw [hSame]
            exact .same _
          · rw [hStored]
            refine StreamChange.setStream ?_ name
            rw [hStream]
            exact .append found subject headers payload
      | purgeStreamSubject stream subject =>
          simp only [Broker.handle]
          split
          · exact .same _
          · next found hStream =>
            refine StreamChange.setStream ?_ name
            rw [hStream]
            exact .purge found subject
      | putObject bucket object description bytes =>
          simp only [Broker.handle, Broker.putObject]
          split
          · exact .same _
          · next found hStream =>
            refine StreamChange.setStream ?_ name
            rw [hStream]
            exact .append found _ _ _
      | _ => cases hQuiet

end Handler

/-! ## Numbered streams -/

/-- Sequences start at 1 and grow, and what is retained was stored. Every stream of a
broker is so, whatever is deleted from it. -/
structure Stream.Numbered (stream : Stream) : Prop where
  positive : ∀ message ∈ stream.log, 0 < message.sequence
  bounded : ∀ message ∈ stream.log, message.sequence ≤ stream.lastSequence
  sorted : stream.log.Pairwise fun earlier later => earlier.sequence < later.sequence
  stored : ∀ message ∈ stream.messages, message ∈ stream.log

def Broker.Numbered (broker : Broker) : Prop :=
  ∀ name stream, broker.streams name = some stream → stream.Numbered

theorem Stream.Numbered.append {stream : Stream} (h : stream.Numbered) (subject : Str)
    (headers : Headers) (payload : Payload) : (stream.append subject headers payload).Numbered where
  positive := List.forall_mem_append.mpr
    ⟨h.positive, List.forall_mem_singleton.mpr (Nat.succ_pos _)⟩
  bounded := List.forall_mem_append.mpr
    ⟨fun message hMem => (h.bounded message hMem).trans (Nat.le_succ _),
      List.forall_mem_singleton.mpr (le_refl _)⟩
  sorted := by
    refine List.pairwise_append.mpr ⟨h.sorted, List.pairwise_singleton _ _, ?_⟩
    intro earlier hEarlier later hLater
    rw [List.mem_singleton.mp hLater]
    exact Nat.lt_succ_of_le (h.bounded earlier hEarlier)
  stored := List.forall_mem_append.mpr
    ⟨fun message hMem => List.mem_append_left _ (h.stored message (Stream.keptBefore_subset hMem)),
      List.forall_mem_singleton.mpr (by simp [Stream.append])⟩

theorem StreamChange.numbered {stream stream' : Option Stream} (h : StreamChange stream stream')
    (hNumbered : ∀ found, stream = some found → found.Numbered) :
    ∀ found, stream' = some found → found.Numbered := by
  rintro found hFound
  cases h with
  | same => exact hNumbered found hFound
  | create config =>
      cases hFound
      exact ⟨List.forall_mem_nil _, List.forall_mem_nil _, .nil, List.forall_mem_nil _⟩
  | configure stream config =>
      cases hFound
      obtain ⟨hPositive, hBounded, hSorted, hStored⟩ := hNumbered stream rfl
      exact ⟨hPositive, hBounded, hSorted, hStored⟩
  | append stream subject headers payload =>
      cases hFound
      exact (hNumbered stream rfl).append subject headers payload
  | purge stream subject =>
      cases hFound
      obtain ⟨hPositive, hBounded, hSorted, hStored⟩ := hNumbered stream rfl
      exact ⟨hPositive, hBounded, hSorted,
        fun message hMem => hStored message (List.mem_filter.mp hMem).1⟩

theorem StreamChange.log_subset {stream stream' : Option Stream} (h : StreamChange stream stream') :
    ∀ message ∈ stream.elim [] Stream.log, message ∈ stream'.elim [] Stream.log := by
  intro message hMem
  cases h with
  | same | configure | purge => exact hMem
  | create => cases hMem
  | append => exact List.mem_append_left _ hMem

theorem Stream.Numbered.eq_of_sequence {stream : Stream} (h : stream.Numbered)
    {message other : Message} (hMem : message ∈ stream.log) (hOther : other ∈ stream.log)
    (hSequence : message.sequence = other.sequence) : message = other := by
  have hKeys : (stream.log.map Message.sequence).Nodup :=
    List.pairwise_map.mpr (h.sorted.imp fun hLt => Nat.ne_of_lt hLt)
  exact List.inj_on_of_nodup_map hKeys hMem hOther hSequence

namespace Kv

variable [Nuid] {bucket key : Str} {s t : Broker}

/-! ## The key on the broker -/

/-- The last message of the key. -/
def current (bucket key : Str) (broker : Broker) : Option Message :=
  (broker.streams (streamName bucket)).bind (·.lastMessage (subject bucket key))

def Present (bucket key : Str) (broker : Broker) : Prop :=
  ∃ message, current bucket key broker = some message ∧ messageIsPut message.headers = true

/-- The key is there before the event and not after it. -/
def Removes (bucket key : Str) (event : Event nats Broker) : Prop :=
  Present bucket key event.before ∧ ¬ Present bucket key event.after

/-- Other clients may issue any call, puts and deletes among them. -/
def OtherClient (s t : Broker) : Prop := ∃ call, t = (Broker.handle s call).2

theorem handle_numbered (hNumbered : s.Numbered) (call : NatsCall) :
    (Broker.handle s call).2.Numbered :=
  fun name => (handle_streamChange s call name).numbered (hNumbered name)

theorem mem_log_handle {name : Str} {message : Message} (call : NatsCall)
    (hMem : message ∈ s.logOf name) : message ∈ (Broker.handle s call).2.logOf name := by
  have hLog (broker : Broker) : broker.logOf name = (broker.streams name).elim [] Stream.log := by
    unfold Broker.logOf
    cases broker.streams name <;> rfl
  rw [hLog] at hMem ⊢
  exact (handle_streamChange s call name).log_subset message hMem

/-- A call takes effect or does not. -/
theorem faultyBroker_cases {call : NatsCall} {reply : nats.Reply call}
    (h : faultyBroker s call reply t) : t = s ∨ t = (Broker.handle s call).2 := by
  rcases h.inv with ⟨-, hDone⟩ | ⟨-, hSame | ⟨-, hLost⟩⟩
  · exact Or.inr hDone
  · exact Or.inl hSame
  · exact Or.inr hLost

theorem history_keeps {J : Broker → Prop} {events : List (Event nats Broker)}
    (hKept : ∀ s call, J s → J (Broker.handle s call).2)
    (h : History faultyBroker OtherClient s events t) (hStart : J s) : J t := by
  refine h.keeps ?_ ?_ hStart
  · rintro s _ ⟨call, rfl⟩ hJ
    exact hKept s call hJ
  · intro s call reply t hCall hJ
    rcases faultyBroker_cases hCall with rfl | rfl
    · exact hJ
    · exact hKept s call hJ

theorem numbered_of_history {events : List (Event nats Broker)} (hNumbered : s.Numbered)
    (h : History faultyBroker OtherClient s events t) : t.Numbered :=
  history_keeps (fun _ call hJ => handle_numbered hJ call) h hNumbered

omit [Nuid] in
theorem mem_log_of_current (hNumbered : s.Numbered) {message : Message}
    (h : current bucket key s = some message) : message ∈ s.logOf (streamName bucket) := by
  obtain ⟨stream, hStream, hLast⟩ := Option.bind_eq_some_iff.mp h
  rw [Broker.logOf_of_some hStream]
  refine (hNumbered _ stream hStream).stored message ?_
  exact (List.mem_filter.mp (List.mem_of_getLast? hLast)).1

omit [Nuid] in
theorem positive_of_logged (hNumbered : s.Numbered) {name : Str} {message : Message}
    (hMem : message ∈ s.logOf name) : 0 < message.sequence := by
  cases hStream : s.streams name with
  | none =>
      rw [Broker.logOf, hStream] at hMem
      cases hMem
  | some stream =>
      rw [Broker.logOf_of_some hStream] at hMem
      exact (hNumbered name stream hStream).positive message hMem

omit [Nuid] in
theorem eq_of_sequence (hNumbered : s.Numbered) {name : Str} {message other : Message}
    (hMem : message ∈ s.logOf name) (hOther : other ∈ s.logOf name)
    (hSequence : message.sequence = other.sequence) : message = other := by
  cases hStream : s.streams name with
  | none =>
      rw [Broker.logOf, hStream] at hMem
      cases hMem
  | some stream =>
      rw [Broker.logOf_of_some hStream] at hMem hOther
      exact (hNumbered name stream hStream).eq_of_sequence hMem hOther hSequence

/-! ## What its own calls do -/

theorem same_of_reads {call : NatsCall} {reply : nats.Reply call} (hReads : Reads bucket key call)
    (h : faultyBroker s call reply t) : t = s := by
  have hHandle : (Broker.handle s call).2 = s := by
    rcases hReads with rfl | rfl
    · simp only [Broker.handle]
      split
      · rfl
      · split <;> rfl
    · simp only [Broker.handle]
      split <;> rfl
  rcases faultyBroker_cases h with hSame | hSame
  · exact hSame
  · exact hSame.trans hHandle

/-- A message that is read is the current one. -/
theorem current_of_read {message : Message} {event : Exchange}
    (hEvent : event = lastReply bucket key (.ok message))
    (h : faultyBroker s event.1 event.2 t) : current bucket key s = some message := by
  subst hEvent
  rcases h.inv with ⟨hReply, -⟩ | ⟨⟨-, err, hError, -⟩, -⟩
  · simp only [lastReply, Broker.handle] at hReply
    split at hReply
    · cases hReply
    · next found hFound =>
      cases hReply
      exact hFound
  · cases hError

omit [Nuid] in
theorem messageIsPut_delete : messageIsPut [(operationHeader, operationDelete)] = false := by decide

/-- The broker refuses a delete of another revision than the current one, and stores any
other. -/
theorem handle_delete (s : Broker) (revision : Nat) :
    ((∃ err : IoError, (Broker.handle s (deleteCall bucket key revision)).1 =
        (.error err : Except IoError Nat)) ∧
        (Broker.handle s (deleteCall bucket key revision)).2 = s) ∨
      ((current bucket key s).map (·.sequence)).getD 0 = revision ∧
        ¬ Present bucket key (Broker.handle s (deleteCall bucket key revision)).2 := by
  simp only [deleteCall, Broker.handle, Broker.publish]
  cases hStream : s.streams (streamName bucket) with
  | none => exact Or.inl ⟨⟨_, rfl⟩, rfl⟩
  | some stream =>
      have hCurrent : current bucket key s = stream.lastMessage (subject bucket key) := by
        rw [current, hStream]
        rfl
      simp only [Broker.duplicateOf, Option.any_some]
      split
      · exact Or.inl ⟨⟨_, rfl⟩, rfl⟩
      · next hRevision =>
        rw [bne_iff_ne, not_not] at hRevision
        rw [hCurrent]
        refine Or.inr ⟨hRevision.symm, ?_⟩
        rintro ⟨message, hMessage, hPut⟩
        have hDeletion : current bucket key (s.setStream (streamName bucket)
            (stream.append (subject bucket key) [(operationHeader, operationDelete)] (.bytes []))) =
              some ⟨subject bucket key, stream.lastSequence + 1,
                [(operationHeader, operationDelete)], .bytes []⟩ := by
          rw [current, Broker.setStream_streams, if_pos rfl]
          exact (stream.lastMessage_append _ _ _ _).trans (if_pos rfl)
        obtain rfl := Option.some.inj (hDeletion.symm.trans hMessage)
        rw [messageIsPut_delete] at hPut
        cases hPut

/-- A delete after which the broker is another one has the revision of the current message. -/
theorem sequence_of_changed {revision : Nat} {message : Message} {event : Exchange}
    (hDeletes : Deletes bucket key revision event) (h : faultyBroker s event.1 event.2 t)
    (hCurrent : current bucket key s = some message) (hChanged : t ≠ s) :
    message.sequence = revision := by
  obtain ⟨call, reply⟩ := event
  obtain rfl : call = deleteCall bucket key revision := hDeletes
  rcases faultyBroker_cases h with rfl | rfl
  · exact absurd rfl hChanged
  · rcases handle_delete s revision with ⟨-, hSame⟩ | ⟨hRevision, -⟩
    · exact absurd hSame hChanged
    · simpa [hCurrent] using hRevision

/-- An acknowledged delete has been stored over the revision that it is for. -/
theorem removed_of_acknowledged {revision sequence : Nat} {event : Exchange}
    (hEvent : event = deleteReply bucket key revision (.ok sequence))
    (h : faultyBroker s event.1 event.2 t) :
    ((current bucket key s).map (·.sequence)).getD 0 = revision ∧ ¬ Present bucket key t := by
  subst hEvent
  rcases h.inv with ⟨hReply, rfl⟩ | ⟨⟨-, err, hError, -⟩, -⟩
  · rcases handle_delete s revision with ⟨⟨err, hError⟩, -⟩ | hStored
    · cases hReply.trans hError
    · exact hStored
  · cases hError

/-! ## Reports -/

/-- What a delete is expected to do and to report. -/
structure Honest (bucket key : Str) (retries : Nat) (events : List (Event nats Broker))
    (result : TransportResult Unit) : Prop where
  /-- Every removed message has been read as the current one. -/
  onlyRead : ∀ before event after, events = before ++ event :: after →
    Removes bucket key event → ∃ message, current bucket key event.before = some message ∧
      ∃ read ∈ before, read.exchange = lastReply bucket key (.ok message) ∧
        current bucket key read.before = some message
  rounds : ∃ parts : List (Log nats), events.map Event.exchange = parts.flatten ∧
    parts.length ≤ retries + 1 ∧ ∀ part ∈ parts, Round bucket key retries part
  ok : result = .ok () → ∃ event ∈ events, Removes bucket key event
  notFound : result = .error .notFound → ∀ event ∈ events, ¬ Removes bucket key event

/-- No read that comes after an own removal of the key finds the key missing. -/
def NoLateMissing (bucket key : Str) (events : List (Event nats Broker)) : Prop :=
  ∀ before event after, events = before ++ event :: after →
    FoundMissing bucket key event.exchange → ∀ earlier ∈ before, ¬ Removes bucket key earlier

variable {events : List (Event nats Broker)} {retries rounds : Nat}
  {result : TransportResult Unit}

omit [Nuid] in
theorem Asks.calls {log : Log nats} (h : Asks bucket key retries rounds log result)
    {event : Exchange} (hMem : event ∈ log) :
    Reads bucket key event.1 ∨ ∃ revision, Deletes bucket key revision event := by
  obtain ⟨parts, rfl, -, hParts⟩ := h.rounds
  obtain ⟨part, hPart, hIn⟩ := List.mem_flatten.mp hMem
  cases hParts part hPart with
  | read hReads => exact Or.inl (hReads event hIn)
  | delete hReads _ _ _ hDeletes hRereads =>
      rcases List.mem_append.mp hIn with hIn | hIn
      · rcases List.mem_append.mp hIn with hIn | hIn
        · exact Or.inl (hReads event hIn)
        · exact Or.inr ⟨_, hDeletes event hIn⟩
      · exact Or.inl (hRereads event hIn)

/-- A message that was read as the current one is still in the log of the stream. -/
theorem logged_of_read {before after : List (Event nats Broker)} {event read : Event nats Broker}
    {message : Message} (hNumbered : s.Numbered)
    (h : History faultyBroker OtherClient s (before ++ event :: after) t) (hRead : read ∈ before)
    (hMessage : read.exchange = lastReply bucket key (.ok message)) :
    event.before.Numbered ∧ current bucket key read.before = some message ∧
      message ∈ event.before.logOf (streamName bucket) := by
  obtain ⟨hBefore, -, -⟩ := h.split
  have hNumberedEvent := numbered_of_history hNumbered hBefore
  obtain ⟨first, last, rfl⟩ := List.append_of_mem hRead
  obtain ⟨hFirst, hCall, hLast⟩ := hBefore.split
  have hNumberedRead := numbered_of_history hNumbered hFirst
  have hCurrent := current_of_read hMessage hCall
  have hLogged := mem_log_of_current hNumberedRead hCurrent
  have hLoggedAfter : message ∈ read.after.logOf (streamName bucket) := by
    rcases faultyBroker_cases hCall with hSame | hSame
    · rwa [hSame]
    · rw [hSame]
      exact mem_log_handle _ hLogged
  refine ⟨hNumberedEvent, hCurrent, ?_⟩
  exact @history_keeps _ _ _ (message ∈ ·.logOf (streamName bucket)) _
    (fun _ call hJ => mem_log_handle call hJ) hLast hLoggedAfter

/-- Before every own delete its revision was read, and the message with this revision is
in the log of the stream, under no other number. -/
theorem read_before_delete {before after : List (Event nats Broker)} {event : Event nats Broker}
    {revision : Nat} (hNumbered : s.Numbered)
    (h : History faultyBroker OtherClient s (before ++ event :: after) t)
    (hReadFirst : ReadFirst bucket key ((before ++ event :: after).map Event.exchange))
    (hDeletes : Deletes bucket key revision event.exchange) :
    ∃ message, 0 < revision ∧ messageIsPut message.headers = true ∧
      (∃ read ∈ before, read.exchange = lastReply bucket key (.ok message) ∧
        current bucket key read.before = some message) ∧
      ∀ found, current bucket key event.before = some found → found.sequence = revision →
        found = message := by
  obtain ⟨message, hMem, hPut, rfl⟩ := hReadFirst (before.map Event.exchange) event.exchange
    (after.map Event.exchange) revision (by simp) hDeletes
  obtain ⟨read, hRead, hMessage⟩ := List.mem_map.mp hMem
  obtain ⟨hNumberedEvent, hCurrent, hLogged⟩ := logged_of_read hNumbered h hRead hMessage
  refine ⟨message, ?_, hPut, ⟨read, hRead, hMessage, hCurrent⟩, ?_⟩
  · exact positive_of_logged hNumberedEvent hLogged
  · intro found hFound hSequence
    exact eq_of_sequence hNumberedEvent (mem_log_of_current hNumberedEvent hFound) hLogged hSequence

/-- An own event that removes the key is a delete of the current message's revision. -/
theorem deletes_of_removes {event : Event nats Broker}
    (hAsks : Asks bucket key retries rounds (events.map Event.exchange) result)
    (hMem : event ∈ events)
    (hCall : faultyBroker event.before event.call event.reply event.after)
    (hRemoves : Removes bucket key event) :
    ∃ message, current bucket key event.before = some message ∧
      Deletes bucket key message.sequence event.exchange := by
  obtain ⟨⟨message, hCurrent, hPut⟩, hGone⟩ := hRemoves
  have hChanged : event.after ≠ event.before := by
    intro hSame
    rw [hSame] at hGone
    exact hGone ⟨message, hCurrent, hPut⟩
  refine ⟨message, hCurrent, ?_⟩
  rcases hAsks.calls (List.mem_map_of_mem hMem) with hReads | ⟨revision, hDeletes⟩
  · exact absurd (same_of_reads hReads hCall) hChanged
  · rw [@sequence_of_changed _ _ _ _ _ _ _ event.exchange hDeletes hCall hCurrent hChanged]
    exact hDeletes

section Ran

variable {config : NatsStorageConfig} (hNumbered : s.Numbered)
  (h : Ran faultyBroker OtherClient (delete config bucket key).run s events result t)

include hNumbered h

theorem removes_only_read {before after : List (Event nats Broker)} {event : Event nats Broker}
    (hSplit : events = before ++ event :: after) (hRemoves : Removes bucket key event) :
    ∃ message, current bucket key event.before = some message ∧
      ∃ read ∈ before, read.exchange = lastReply bucket key (.ok message) ∧
        current bucket key read.before = some message := by
  obtain ⟨hAnswers, hHistory⟩ := h
  have hAsks := answers_delete hAnswers
  subst hSplit
  obtain ⟨-, hCall, -⟩ := hHistory.split
  obtain ⟨message, hCurrent, hDeletes⟩ :=
    deletes_of_removes hAsks (List.mem_append_right _ List.mem_cons_self) hCall hRemoves
  obtain ⟨seen, -, -, hRead, hUnique⟩ :=
    read_before_delete hNumbered hHistory hAsks.readFirst hDeletes
  obtain rfl := hUnique message hCurrent rfl
  exact ⟨message, hCurrent, hRead⟩

/-- Success is reported only for a delete that was acknowledged, and so removed the key. -/
theorem removed_of_ok (hOk : result = .ok ()) : ∃ event ∈ events, Removes bucket key event := by
  obtain ⟨hAnswers, hHistory⟩ := h
  have hAsks := answers_delete hAnswers
  obtain ⟨revision, sequence, hMem⟩ := hAsks.ok hOk
  obtain ⟨event, hEvent, hReply⟩ := List.mem_map.mp hMem
  refine ⟨event, hEvent, ?_⟩
  obtain ⟨before, after, rfl⟩ := List.append_of_mem hEvent
  obtain ⟨-, hCall, -⟩ := hHistory.split
  obtain ⟨hRevision, hGone⟩ := removed_of_acknowledged hReply hCall
  obtain ⟨message, hPositive, hPut, -, hUnique⟩ :=
    read_before_delete hNumbered hHistory hAsks.readFirst (congrArg Sigma.fst hReply)
  cases hCurrent : current bucket key event.before with
  | none =>
      rw [hCurrent] at hRevision
      exact absurd hRevision hPositive.ne
  | some found =>
      rw [hCurrent] at hRevision
      rw [← hUnique found hCurrent hRevision] at hPut
      exact ⟨⟨found, hCurrent, hPut⟩, hGone⟩

omit hNumbered in
/-- Not found is reported where the last read finds the key missing, and only there. -/
theorem notFound_honest_iff :
    (result = .error .notFound → ∀ event ∈ events, ¬ Removes bucket key event) ↔
      NoLateMissing bucket key events := by
  obtain ⟨hAnswers, hHistory⟩ := h
  have hAsks := answers_delete hAnswers
  constructor
  · rintro hHonest before event after rfl hMissing earlier hEarlier
    have hNotFound := hAsks.missing event.exchange (by simp) hMissing
    exact hHonest hNotFound earlier (List.mem_append_left _ hEarlier)
  · intro hLate hNotFound
    obtain ⟨front, last, hLog, hMissing⟩ := hAsks.notFound hNotFound
    obtain ⟨before, rest, rfl, -, hRest⟩ := List.map_eq_append_iff.mp hLog
    obtain ⟨event, rfl, rfl⟩ := List.map_eq_singleton_iff.mp hRest
    refine List.forall_mem_append.mpr ⟨hLate before event [] rfl hMissing, ?_⟩
    rintro _ hEvent
    obtain rfl := List.mem_singleton.mp hEvent
    obtain ⟨-, hCall, -⟩ := hHistory.split
    rintro ⟨hPresent, hGone⟩
    rw [same_of_reads hMissing.reads hCall] at hGone
    exact hGone hPresent

/-- A delete is honest unless, after it has removed the key, it finds it missing. -/
theorem delete_honest_iff :
    Honest bucket key config.retries events result ↔ NoLateMissing bucket key events := by
  have hRounds := (answers_delete h.answers).rounds
  refine ⟨fun hHonest => (notFound_honest_iff h).mp hHonest.notFound, fun hLate => ?_⟩
  exact ⟨fun _ _ _ hSplit hRemoves => removes_only_read hNumbered h hSplit hRemoves, hRounds,
    removed_of_ok hNumbered h, (notFound_honest_iff h).mpr hLate⟩

end Ran

end Kv

end EventFs.Transport.Nats
