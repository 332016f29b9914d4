import EventFs.Transport.Nats.Broker

/-!
# What a stream keeps

The last message of every subject is always retained: eviction and rollups remove older
messages only. So the last retained message of a subject is the last one ever stored.
-/

namespace EventFs.Transport.Nats

open Library Protocol Program

/-! ## Eviction -/

theorem dropOldest_subset {subject : Str} {count : Nat} {messages : List Message}
    {message : Message} (h : message ∈ dropOldest subject count messages) :
    message ∈ messages := by
  induction messages generalizing count with
  | nil => cases count <;> exact h
  | cons head rest ih =>
      cases count with
      | zero => exact h
      | succ count =>
          unfold dropOldest at h
          split at h
          · exact List.mem_cons_of_mem head (ih h)
          · rcases List.mem_cons.mp h with rfl | h
            · exact List.mem_cons_self
            · exact List.mem_cons_of_mem head (ih h)

theorem filter_dropOldest {subject other : Str} (hne : other ≠ subject) (count : Nat)
    (messages : List Message) :
    (dropOldest subject count messages).filter (fun message => message.subject == other) =
      messages.filter fun message => message.subject == other := by
  induction messages generalizing count with
  | nil => cases count <;> rfl
  | cons head rest ih =>
      cases count with
      | zero => rfl
      | succ count =>
          unfold dropOldest
          split
          · next hHead =>
            have hOther : (head.subject == other) = false := by
              rw [hHead, beq_eq_false_iff_ne]
              exact Ne.symm hne
            rw [ih, List.filter_cons_of_neg (by simp [hOther])]
          · rw [List.filter_cons, List.filter_cons, ih]

namespace Stream

theorem keptBefore_subset {stream : Stream} {subject : Str} {headers : Headers}
    {message : Message} (h : message ∈ stream.keptBefore subject headers) :
    message ∈ stream.messages := by
  unfold keptBefore at h
  split at h
  · exact (List.mem_filter.mp h).1
  · split at h
    · exact dropOldest_subset h
    · exact h

theorem filter_keptBefore (stream : Stream) {subject other : Str} (hne : other ≠ subject)
    (headers : Headers) :
    (stream.keptBefore subject headers).filter (fun message => message.subject == other) =
      stream.ofSubject other := by
  unfold keptBefore ofSubject
  split
  · rw [List.filter_filter]
    congr 1
    funext message
    by_cases h : message.subject = other
    · simp [h, hne]
    · simp [h]
  · split
    · exact filter_dropOldest hne _ _
    · rfl

theorem lastMessage_append (stream : Stream) (subject : Str) (headers : Headers)
    (payload : Payload) (other : Str) :
    (stream.append subject headers payload).lastMessage other =
      if other = subject then some ⟨subject, stream.lastSequence + 1, headers, payload⟩
      else stream.lastMessage other := by
  unfold lastMessage ofSubject append
  by_cases h : other = subject
  · subst h
    simp [List.filter_append]
  · have hSubject : (subject == other) = false := by
      rw [beq_eq_false_iff_ne]
      exact Ne.symm h
    rw [if_neg h, List.filter_append, stream.filter_keptBefore h, List.filter_cons_of_neg
      (by simp [hSubject]), List.filter_nil, List.append_nil]
    rfl

/-! ## Well-formed streams -/

/-- Sequences grow, what is retained was stored, and the last message of every subject is
retained. -/
structure WellFormed (stream : Stream) : Prop where
  bounded : ∀ message ∈ stream.log, message.sequence ≤ stream.lastSequence
  sorted : stream.log.Pairwise fun earlier later => earlier.sequence < later.sequence
  stored : ∀ message ∈ stream.messages, message ∈ stream.log
  newest : ∀ subject, stream.lastMessage subject =
    (stream.log.filter fun message => message.subject == subject).getLast?

theorem WellFormed.create (config : StreamConfig) : (Stream.create config).WellFormed := by
  refine ⟨?_, List.Pairwise.nil, ?_, fun _ => rfl⟩
  · intro message hMem
    cases hMem
  · intro message hMem
    cases hMem

theorem WellFormed.append {stream : Stream} (h : stream.WellFormed) (subject : Str)
    (headers : Headers) (payload : Payload) :
    (stream.append subject headers payload).WellFormed where
  bounded := by
    intro message hMem
    rcases List.mem_append.mp hMem with hMem | hMem
    · exact Nat.le_succ_of_le (h.bounded message hMem)
    · rw [List.mem_singleton.mp hMem]
      exact Nat.le_refl _
  sorted := by
    refine List.pairwise_append.mpr ⟨h.sorted, List.pairwise_singleton _ _, ?_⟩
    intro earlier hEarlier later hLater
    rw [List.mem_singleton.mp hLater]
    exact Nat.lt_succ_of_le (h.bounded earlier hEarlier)
  stored := by
    intro message hMem
    rcases List.mem_append.mp hMem with hMem | hMem
    · exact List.mem_append_left _ (h.stored message (keptBefore_subset hMem))
    · exact List.mem_append_right _ hMem
  newest := by
    intro other
    rw [lastMessage_append]
    show _ = ((stream.log ++ [_]).filter _).getLast?
    by_cases hSubject : other = subject
    · subst hSubject
      simp [List.filter_append]
    · have hNot : (subject == other) = false := by
        rw [beq_eq_false_iff_ne]
        exact Ne.symm hSubject
      rw [if_neg hSubject, List.filter_append, List.filter_cons_of_neg (by simp [hNot]),
        List.filter_nil, List.append_nil]
      exact h.newest other

theorem WellFormed.withConfig {stream : Stream} (h : stream.WellFormed) (config : StreamConfig) :
    WellFormed { stream with config } := ⟨h.bounded, h.sorted, h.stored, h.newest⟩

theorem WellFormed.none {stream : Stream} (h : stream.WellFormed) {subject : Str}
    (hNone : stream.lastMessage subject = none) :
    ∀ message ∈ stream.log, message.subject ≠ subject := by
  rw [h.newest, List.getLast?_eq_none_iff, List.filter_eq_nil_iff] at hNone
  intro message hMem hSubject
  exact hNone message hMem (by simp [hSubject])

/-- The last retained message of a subject was stored, and none of the subject is newer. -/
theorem WellFormed.some {stream : Stream} (h : stream.WellFormed) {subject : Str}
    {last : Message} (hSome : stream.lastMessage subject = some last) :
    last ∈ stream.log ∧ last.subject = subject ∧
      ∀ message ∈ stream.log, message.subject = subject → message.sequence ≤ last.sequence := by
  rw [h.newest] at hSome
  obtain ⟨front, hFront⟩ := List.getLast?_eq_some_iff.mp hSome
  have hLast : last ∈ stream.log.filter fun message => message.subject == subject := by
    rw [hFront]
    simp
  have hSorted := h.sorted.filter fun message => message.subject == subject
  rw [hFront] at hSorted
  obtain ⟨-, -, hBefore⟩ := List.pairwise_append.mp hSorted
  refine ⟨(List.mem_filter.mp hLast).1, by simpa using (List.mem_filter.mp hLast).2, ?_⟩
  intro message hMem hSubject
  have hFiltered : message ∈ front ++ [last] := by
    rw [← hFront]
    exact List.mem_filter.mpr ⟨hMem, by simp [hSubject]⟩
  rcases List.mem_append.mp hFiltered with hFirst | hEqual
  · exact Nat.le_of_lt (hBefore message hFirst last (by simp))
  · rw [List.mem_singleton.mp hEqual]

end Stream

/-! ## The broker -/

namespace Broker

/-- Everything a stream has ever stored. -/
def logOf (broker : Broker) (name : Str) : List Message :=
  match broker.streams name with
  | none => []
  | some stream => stream.log

def WellFormed (broker : Broker) : Prop :=
  ∀ name stream, broker.streams name = some stream → stream.WellFormed

theorem setStream_streams (broker : Broker) (name : Str) (stream : Stream) (other : Str) :
    (broker.setStream name stream).streams other =
      if other = name then some stream else broker.streams other := by
  simp [setStream, Function.update_apply]

theorem WellFormed.setStream {broker : Broker} (h : broker.WellFormed) {name : Str}
    {stream : Stream} (hStream : stream.WellFormed) :
    (broker.setStream name stream).WellFormed := by
  intro other found hFound
  rw [setStream_streams] at hFound
  split at hFound
  · cases hFound
    exact hStream
  · exact h other found hFound

theorem logOf_setStream (broker : Broker) (name : Str) (stream : Stream) (other : Str) :
    (broker.setStream name stream).logOf other =
      if other = name then stream.log else broker.logOf other := by
  unfold logOf setStream
  by_cases h : other = name
  · subst h
    simp
  · simp [h]

theorem logOf_of_some {broker : Broker} {name : Str} {stream : Stream}
    (h : broker.streams name = some stream) : broker.logOf name = stream.log := by
  simp [logOf, h]

end Broker

/-- Calls after which every stream has stored what it had stored before. -/
def NatsCall.quiet : NatsCall → Bool
  | .publish .. | .purgeStreamSubject _ _ | .putObject .. => false
  | _ => true

section Handler

variable [Nuid] {broker : Broker}

/-- A call that stores nothing leaves the broker alone, forgets the ids of earlier
publishes, or makes or configures a stream. -/
inductive Quiet (broker : Broker) : Broker → Prop
  | same : Quiet broker broker
  | forget : Quiet broker { broker with recent := [] }
  | create {name : Str} (config : StreamConfig) (hNone : broker.streams name = none) :
      Quiet broker (broker.setStream name (.create config))
  | configure {name : Str} {stream : Stream} (config : StreamConfig)
      (hStream : broker.streams name = some stream) :
      Quiet broker (broker.setStream name { stream with config })

omit [Nuid] in
theorem createStream_quiet (name : Str) (config : StreamConfig) :
    Quiet broker (broker.createStream name config).2 := by
  unfold Broker.createStream
  cases hStream : broker.streams name with
  | some stream => exact .same
  | none => exact .create config hStream

theorem handle_isQuiet {call : NatsCall} (hQuiet : call.quiet = true) :
    Quiet broker (Broker.handle broker call).2 := by
  cases call with
  | keyValue bucket =>
      simp only [Broker.handle]
      split
      · exact .same
      · split <;> exact .same
  | createKeyValue bucket history => exact createStream_quiet _ _
  | objectStore bucket =>
      simp only [Broker.handle]
      split <;> exact .same
  | createObjectStore bucket => exact createStream_quiet _ _
  | streamInfo name =>
      simp only [Broker.handle]
      split <;> exact .same
  | updateStream name config =>
      simp only [Broker.handle]
      split
      · exact .same
      · next stream hStream => exact .configure config hStream
  | addStream name config => exact createStream_quiet _ _
  | getLastMessage name subject =>
      simp only [Broker.handle]
      split <;> exact .same
  | beginPublish => exact .forget
  | subscribe name subject =>
      simp only [Broker.handle]
      split <;> exact .same
  | next name subject after =>
      simp only [Broker.handle]
      split
      · exact .same
      · split <;> exact .same
  | publish => cases hQuiet
  | purgeStreamSubject => cases hQuiet
  | putObject => cases hQuiet

omit [Nuid] in
theorem Quiet.logOf {broker' : Broker} (h : Quiet broker broker') (name : Str) :
    broker'.logOf name = broker.logOf name := by
  cases h with
  | same => rfl
  | forget => rfl
  | create config hNone =>
      rw [Broker.logOf_setStream]
      split
      · next hName =>
        subst hName
        simp [Broker.logOf, hNone, Stream.create]
      · rfl
  | configure config hStream =>
      rw [Broker.logOf_setStream]
      split
      · next hName =>
        subst hName
        rw [Broker.logOf_of_some hStream]
      · rfl

omit [Nuid] in
theorem Quiet.wellFormed {broker' : Broker} (h : Quiet broker broker')
    (hWell : broker.WellFormed) : broker'.WellFormed := by
  cases h with
  | same => exact hWell
  | forget => exact hWell
  | create config hNone => exact hWell.setStream (.create config)
  | configure config hStream => exact hWell.setStream ((hWell _ _ hStream).withConfig config)

theorem handle_quiet {call : NatsCall} (hQuiet : call.quiet = true) (h : broker.WellFormed) :
    (Broker.handle broker call).2.WellFormed ∧
      ∀ name, (Broker.handle broker call).2.logOf name = broker.logOf name :=
  ⟨(handle_isQuiet hQuiet).wellFormed h, (handle_isQuiet hQuiet).logOf⟩

/-- The last message of a subject, as the broker reports it. -/
theorem last_found (h : broker.WellFormed) {name subject : Str} {last : Message}
    (hReply : (Broker.handle broker (.getLastMessage name subject)).1 = .ok last) :
    last ∈ broker.logOf name ∧ last.subject = subject ∧
      ∀ message ∈ broker.logOf name, message.subject = subject →
        message.sequence ≤ last.sequence := by
  simp only [Broker.handle] at hReply
  split at hReply
  · cases hReply
  · next message hMessage =>
    cases hReply
    obtain ⟨stream, hStream, hLast⟩ := Option.bind_eq_some_iff.mp hMessage
    rw [Broker.logOf_of_some hStream]
    exact (h name stream hStream).some hLast

theorem last_missing (h : broker.WellFormed) {name subject : Str} {err : IoError}
    (hReply : (Broker.handle broker (.getLastMessage name subject)).1 = .error err) :
    ∀ message ∈ broker.logOf name, message.subject ≠ subject := by
  simp only [Broker.handle] at hReply
  split at hReply
  · next hMessage =>
    cases hStream : broker.streams name with
    | none =>
        intro message hMem
        simp [Broker.logOf, hStream] at hMem
    | some stream =>
        rw [hStream] at hMessage
        rw [Broker.logOf_of_some hStream]
        exact (h name stream hStream).none hMessage
  · cases hReply

/-- A message delivered by a scan was stored. -/
theorem next_found (h : broker.WellFormed) {name subject : Str} {after : Nat} {found : Message}
    (hReply : (Broker.handle broker (.next name subject after)).1 = .ok found) :
    found ∈ broker.logOf name ∧ found.subject = subject := by
  simp only [Broker.handle] at hReply
  split at hReply
  · cases hReply
  · next stream hStream =>
    split at hReply
    · cases hReply
    · next message hMessage =>
      cases hReply
      have hMem := List.mem_of_find?_eq_some hMessage
      obtain ⟨hRetained, hSubject⟩ := List.mem_filter.mp hMem
      rw [Broker.logOf_of_some hStream]
      exact ⟨(h name stream hStream).stored _ hRetained, by simpa using hSubject⟩

omit [Nuid] in
/-- A publish that is not taken for a duplicate stores its message. -/
theorem publish_cases (broker : Broker) (name subject : Str) (headers : Headers)
    (payload : Payload) (options : PublishOptions) :
    (∃ err, broker.publish name subject headers payload options = (.error err, broker) ∧
        err.isNotFound = false) ∨
      (∃ sequence, broker.duplicateOf name options.id = some sequence ∧
        broker.publish name subject headers payload options = (.ok sequence, broker)) ∨
      ∃ stream, broker.streams name = some stream ∧ broker.duplicateOf name options.id = none ∧
        broker.publish name subject headers payload options =
          (.ok (stream.lastSequence + 1),
            { broker.setStream name (stream.append subject headers payload) with
              recent := match options.id with
                | none => broker.recent
                | some id => (name, id, stream.lastSequence + 1) :: broker.recent }) := by
  cases hStream : broker.streams name with
  | none =>
      refine Or.inl ⟨.other "no responders".toList, ?_, rfl⟩
      simp [Broker.publish, hStream]
  | some stream =>
      cases hDuplicate : broker.duplicateOf name options.id with
      | some sequence =>
          refine Or.inr (Or.inl ⟨sequence, rfl, ?_⟩)
          simp [Broker.publish, hStream, hDuplicate]
      | none =>
          simp only [Broker.publish, hStream, hDuplicate]
          split
          · exact Or.inl ⟨_, rfl, rfl⟩
          · exact Or.inr (Or.inr ⟨stream, rfl, trivial, rfl⟩)

omit [Nuid] in
theorem createStream_error {name : Str} {config : StreamConfig} {err : IoError}
    (hReply : (broker.createStream name config).1 = .error err) : err.isNotFound = false := by
  unfold Broker.createStream at hReply
  split at hReply
  · cases hReply
    rfl
  · cases hReply

/-- The broker has one error for what is not there. -/
theorem handle_error {call : NatsCall} {err : IoError}
    (hReply : (Broker.handle broker call).1 = .error err) :
    err = .notFound ∨ err.isNotFound = false := by
  cases call with
  | keyValue bucket =>
      simp only [Broker.handle] at hReply
      split at hReply
      · cases hReply
        exact Or.inl rfl
      · split at hReply <;> cases hReply
        exact Or.inr rfl
  | createKeyValue bucket history => exact Or.inr (createStream_error hReply)
  | createObjectStore bucket => exact Or.inr (createStream_error hReply)
  | addStream name config => exact Or.inr (createStream_error hReply)
  | objectStore bucket =>
      simp only [Broker.handle] at hReply
      split at hReply <;> cases hReply
      exact Or.inl rfl
  | streamInfo name =>
      simp only [Broker.handle] at hReply
      split at hReply <;> cases hReply
      exact Or.inl rfl
  | updateStream name config =>
      simp only [Broker.handle] at hReply
      split at hReply <;> cases hReply
      exact Or.inl rfl
  | getLastMessage name subject =>
      simp only [Broker.handle] at hReply
      split at hReply <;> cases hReply
      exact Or.inl rfl
  | beginPublish => cases hReply
  | publish name subject headers payload options =>
      right
      rcases publish_cases broker name subject headers payload options with
        ⟨own, hOwn, hNot⟩ | ⟨_, _, hStored⟩ | ⟨_, _, _, hStored⟩
      · simp only [Broker.handle, hOwn] at hReply
        cases hReply
        exact hNot
      all_goals
        simp only [Broker.handle, hStored] at hReply
        cases hReply
  | subscribe name subject =>
      simp only [Broker.handle] at hReply
      split at hReply <;> cases hReply
      exact Or.inl rfl
  | next name subject after =>
      right
      simp only [Broker.handle] at hReply
      split at hReply
      · cases hReply
        rfl
      · split at hReply <;> cases hReply
        rfl
  | purgeStreamSubject name subject =>
      simp only [Broker.handle] at hReply
      split at hReply <;> cases hReply
      exact Or.inl rfl
  | putObject bucket name description bytes =>
      right
      simp only [Broker.handle, Broker.putObject] at hReply
      split at hReply <;> cases hReply
      rfl

theorem handle_notFound {call : NatsCall} {err : IoError}
    (hReply : (Broker.handle broker call).1 = .error err) (hErr : err.isNotFound = true) :
    err = .notFound :=
  (handle_error hReply).resolve_right (by simp [hErr])

end Handler

/-- The replies that report a failure. Finding nothing is an answer, not a failure. -/
def Fails (c : NatsCall) (reply : nats.Reply c) : Prop :=
  c ≠ .beginPublish ∧
    ∃ err : IoError, reply = (.error err : Except IoError c.Value) ∧ err.isNotFound = false

/-- Every call may be refused, or take effect without being acknowledged. -/
abbrev faultyBroker [Nuid] : Behaviour nats Broker := Faulty Broker.handle Fails fun _ => True

end EventFs.Transport.Nats
