import EventFs.Transport.Nats.Kv
import EventFs.Transport.Nats.Assertions

/-!
# The stream of a KV bucket while a put is being made

What holds of the stream and the ledger at every point of an idempotent put, with other
clients storing messages in between (`Inv`), and triples for the calls: those that store
nothing, a publish with its retries, and a note in the ledger.
-/

namespace EventFs.Transport.Nats

open Library Protocol Program

namespace Kv

variable (bucket key idempotencyKey : Str)

/-! ## The stream of the bucket -/

/-- A message of the key that carries the idempotency key. -/
def carries (message : Message) : Bool :=
  message.subject == subject bucket key &&
    headersContainIdempotencyKey message.headers idempotencyKey

def Published (log : List Message) : Prop :=
  ∃ message ∈ log, carries bucket key idempotencyKey message = true

/-- The key has a message newer than a marker of the put. -/
def Advanced (log : List Message) : Prop :=
  ∃ marker ∈ log, marker.subject = writebackMarkerSubject bucket idempotencyKey ∧
    ∃ message ∈ log, message.subject = subject bucket key ∧ marker.sequence < message.sequence

def Evidence (log : List Message) : Prop :=
  Published bucket key idempotencyKey log ∨ Advanced bucket key idempotencyKey log

/-- A message another client may store. -/
def Strange (message : Message) : Prop :=
  message.subject ≠ writebackMarkerSubject bucket idempotencyKey ∧
    message.subject ≠ appliedMarkerSubject bucket idempotencyKey ∧
      carries bucket key idempotencyKey message = false

/-- What other clients do: puts, deletes and purges of the key, and of other keys. -/
inductive Foreign : Broker → Broker → Prop
  | publish {broker : Broker} {stream : Stream} (subject : Str) (headers : Headers)
      (payload : Payload) (hStream : broker.streams (streamName bucket) = some stream)
      (hStrange : Strange bucket key idempotencyKey
        ⟨subject, stream.lastSequence + 1, headers, payload⟩) :
      Foreign broker (broker.setStream (streamName bucket) (stream.append subject headers payload))
  | create {broker : Broker} (config : StreamConfig)
      (hNone : broker.streams (streamName bucket) = none) :
      Foreign broker (broker.setStream (streamName bucket) (.create config))

structure Sound (log : List Message) : Prop where
  once : log.countP (carries bucket key idempotencyKey) ≤ 1
  markers : ∀ marker ∈ log, marker.subject = writebackMarkerSubject bucket idempotencyKey →
    markerMatches marker.payload writebackMarkerOperation key idempotencyKey = true
  marked : Published bucket key idempotencyKey log →
    ∃ marker ∈ log, marker.subject = writebackMarkerSubject bucket idempotencyKey
  before : ∀ marker ∈ log, marker.subject = writebackMarkerSubject bucket idempotencyKey →
    ∀ message ∈ log, carries bucket key idempotencyKey message = true →
      marker.sequence < message.sequence
  applied : ∀ marker ∈ log, marker.subject = appliedMarkerSubject bucket idempotencyKey →
    Published bucket key idempotencyKey log

/-- What holds at every point: the log is sound, and the ledger has noted the put only
with evidence. -/
structure Inv (broker : Broker) : Prop where
  wellFormed : broker.WellFormed
  sound : Sound bucket key idempotencyKey (broker.logOf (streamName bucket))
  ledger : ∀ message ∈ broker.logOf Ledger.stream,
    message.subject = Ledger.ledgerSubject (writebackLedgerKey bucket key idempotencyKey) →
      Evidence bucket key idempotencyKey (broker.logOf (streamName bucket))

/-- A fact about the stream of the bucket that other clients cannot undo. -/
structure Fact where
  holds : List Message → Prop
  kept : ∀ {log : List Message} {message : Message},
    Strange bucket key idempotencyKey message → holds log → holds (log ++ [message])

def At (fact : Fact bucket key idempotencyKey) (broker : Broker) : Prop :=
  Inv bucket key idempotencyKey broker ∧ fact.holds (broker.logOf (streamName bucket))

section Facts

variable {bucket key idempotencyKey}

theorem Published.append {log : List Message} (h : Published bucket key idempotencyKey log)
    (message : Message) : Published bucket key idempotencyKey (log ++ [message]) := by
  obtain ⟨found, hMem, hCarries⟩ := h
  exact ⟨found, List.mem_append_left _ hMem, hCarries⟩

theorem Evidence.append {log : List Message} (h : Evidence bucket key idempotencyKey log)
    (message : Message) : Evidence bucket key idempotencyKey (log ++ [message]) := by
  rcases h with h | ⟨marker, hMarker, hSubject, found, hFound, hKey, hLater⟩
  · exact Or.inl (h.append message)
  · exact Or.inr ⟨marker, List.mem_append_left _ hMarker, hSubject, found,
      List.mem_append_left _ hFound, hKey, hLater⟩

theorem published_of_append {log : List Message} {message : Message}
    (hCarries : carries bucket key idempotencyKey message = false)
    (h : Published bucket key idempotencyKey (log ++ [message])) :
    Published bucket key idempotencyKey log := by
  obtain ⟨found, hMem, hFound⟩ := h
  rcases List.mem_append.mp hMem with hMem | hMem
  · exact ⟨found, hMem, hFound⟩
  · rw [List.mem_singleton.mp hMem, hCarries] at hFound
    cases hFound

/-- Any message that is not the put itself: a marker before the put, an applied marker
after it, or something else. -/
theorem Sound.appendOther {log : List Message} {message : Message}
    (h : Sound bucket key idempotencyKey log)
    (hCarries : carries bucket key idempotencyKey message = false)
    (hMarker : message.subject = writebackMarkerSubject bucket idempotencyKey →
      markerMatches message.payload writebackMarkerOperation key idempotencyKey = true ∧
        ¬ Published bucket key idempotencyKey log)
    (hApplied : message.subject = appliedMarkerSubject bucket idempotencyKey →
      Published bucket key idempotencyKey log) :
    Sound bucket key idempotencyKey (log ++ [message]) where
  once := by
    rw [List.countP_append]
    have hNone : [message].countP (carries bucket key idempotencyKey) = 0 := by simp [hCarries]
    have := h.once
    omega
  markers := by
    intro marker hMem hSubject
    rcases List.mem_append.mp hMem with hMem | hMem
    · exact h.markers marker hMem hSubject
    · rw [List.mem_singleton.mp hMem] at hSubject ⊢
      exact (hMarker hSubject).1
  marked := by
    intro hPublished
    obtain ⟨marker, hMem, hSubject⟩ := h.marked (published_of_append hCarries hPublished)
    exact ⟨marker, List.mem_append_left _ hMem, hSubject⟩
  before := by
    intro marker hMem hSubject found hFound hFoundCarries
    have hOld : found ∈ log := by
      rcases List.mem_append.mp hFound with hFound | hFound
      · exact hFound
      · rw [List.mem_singleton.mp hFound, hCarries] at hFoundCarries
        cases hFoundCarries
    rcases List.mem_append.mp hMem with hMem | hMem
    · exact h.before marker hMem hSubject found hOld hFoundCarries
    · rw [List.mem_singleton.mp hMem] at hSubject
      exact absurd ⟨found, hOld, hFoundCarries⟩ (hMarker hSubject).2
  applied := by
    intro marker hMem hSubject
    rcases List.mem_append.mp hMem with hMem | hMem
    · exact (h.applied marker hMem hSubject).append message
    · rw [List.mem_singleton.mp hMem] at hSubject
      exact (hApplied hSubject).append message

/-- The put itself, stored after its marker and not before. -/
theorem Sound.appendPut {log : List Message} {message : Message}
    (h : Sound bucket key idempotencyKey log)
    (hCarries : carries bucket key idempotencyKey message = true)
    (hMarker : message.subject ≠ writebackMarkerSubject bucket idempotencyKey)
    (hUnpublished : ¬ Published bucket key idempotencyKey log)
    (hMarked : ∃ marker ∈ log, marker.subject = writebackMarkerSubject bucket idempotencyKey)
    (hNewest : ∀ found ∈ log, found.sequence < message.sequence) :
    Sound bucket key idempotencyKey (log ++ [message]) where
  once := by
    have hNone : log.countP (carries bucket key idempotencyKey) = 0 := by
      rw [List.countP_eq_zero]
      intro found hMem hFound
      exact hUnpublished ⟨found, hMem, hFound⟩
    rw [List.countP_append, hNone]
    simp [hCarries]
  markers := by
    intro marker hMem hSubject
    rcases List.mem_append.mp hMem with hMem | hMem
    · exact h.markers marker hMem hSubject
    · rw [List.mem_singleton.mp hMem] at hSubject
      exact absurd hSubject hMarker
  marked := by
    intro _
    obtain ⟨marker, hMem, hSubject⟩ := hMarked
    exact ⟨marker, List.mem_append_left _ hMem, hSubject⟩
  before := by
    intro marker hMem hSubject found hFound hFoundCarries
    have hOld : marker ∈ log := by
      rcases List.mem_append.mp hMem with hMem | hMem
      · exact hMem
      · rw [List.mem_singleton.mp hMem] at hSubject
        exact absurd hSubject hMarker
    rcases List.mem_append.mp hFound with hFound | hFound
    · exact absurd ⟨found, hFound, hFoundCarries⟩ hUnpublished
    · rw [List.mem_singleton.mp hFound]
      exact hNewest marker hOld
  applied := fun _ _ _ => ⟨message, by simp, hCarries⟩

theorem Sound.appendStrange {log : List Message} {message : Message}
    (h : Sound bucket key idempotencyKey log)
    (hStrange : Strange bucket key idempotencyKey message) :
    Sound bucket key idempotencyKey (log ++ [message]) :=
  h.appendOther hStrange.2.2 (fun hSubject => absurd hSubject hStrange.1)
    fun hSubject => absurd hSubject hStrange.2.1

theorem ledger_ne_streamName : Ledger.stream ≠ streamName bucket := by
  intro h
  have hHead : some 'E' = some 'K' := congrArg List.head? h
  exact absurd hHead (by decide)

theorem logOf_foreign {broker broker' : Broker}
    (h : Foreign bucket key idempotencyKey broker broker') :
    broker'.logOf Ledger.stream = broker.logOf Ledger.stream ∧
      broker'.recent = broker.recent ∧
      (broker'.logOf (streamName bucket) = broker.logOf (streamName bucket) ∨
        ∃ message, Strange bucket key idempotencyKey message ∧
          broker'.logOf (streamName bucket) = broker.logOf (streamName bucket) ++ [message]) := by
  cases h with
  | @publish stream subject headers payload hStream hStrange =>
      refine ⟨?_, rfl, Or.inr ⟨_, hStrange, ?_⟩⟩
      · rw [Broker.logOf_setStream, if_neg ledger_ne_streamName]
      · rw [Broker.logOf_setStream, if_pos rfl, Broker.logOf_of_some hStream]
        rfl
  | create config hNone =>
      refine ⟨?_, rfl, Or.inl ?_⟩
      · rw [Broker.logOf_setStream, if_neg ledger_ne_streamName]
      · rw [Broker.logOf_setStream, if_pos rfl, Broker.logOf, hNone]
        rfl

theorem wellFormed_foreign {broker broker' : Broker}
    (h : Foreign bucket key idempotencyKey broker broker') (hWell : broker.WellFormed) :
    broker'.WellFormed := by
  cases h with
  | publish subject headers payload hStream hStrange =>
      exact hWell.setStream ((hWell _ _ hStream).append subject headers payload)
  | create config hNone => exact hWell.setStream (.create config)

theorem stable_at (fact : Fact bucket key idempotencyKey) :
    Stable (Foreign bucket key idempotencyKey) (At bucket key idempotencyKey fact) := by
  rintro broker broker' hForeign ⟨hInv, hFact⟩
  obtain ⟨hLedger, -, hLog⟩ := logOf_foreign hForeign
  have hWell := wellFormed_foreign hForeign hInv.wellFormed
  rcases hLog with hLog | ⟨message, hStrange, hLog⟩
  · refine ⟨⟨hWell, by rw [hLog]; exact hInv.sound, ?_⟩, by rw [hLog]; exact hFact⟩
    rw [hLedger, hLog]
    exact hInv.ledger
  · refine ⟨⟨hWell, by rw [hLog]; exact hInv.sound.appendStrange hStrange, ?_⟩,
      by rw [hLog]; exact fact.kept hStrange hFact⟩
    rw [hLedger, hLog]
    exact fun found hFound hSubject => (hInv.ledger found hFound hSubject).append message

/-! ### The facts that are used -/

def Fact.truth : Fact bucket key idempotencyKey := ⟨fun _ => True, fun _ h => h⟩

def Fact.published : Fact bucket key idempotencyKey :=
  ⟨Published bucket key idempotencyKey, fun _ h => h.append _⟩

def Fact.evidence : Fact bucket key idempotencyKey :=
  ⟨Evidence bucket key idempotencyKey, fun _ h => h.append _⟩

def Fact.unpublished : Fact bucket key idempotencyKey :=
  ⟨fun log => ¬ Published bucket key idempotencyKey log,
    fun hStrange h hPublished => h (published_of_append hStrange.2.2 hPublished)⟩

/-- A marker of the put is stored, under this sequence if one is given. -/
def Fact.marked (sequence : Option Nat) : Fact bucket key idempotencyKey :=
  ⟨fun log => ∃ marker ∈ log, marker.subject = writebackMarkerSubject bucket idempotencyKey ∧
      ∀ s, sequence = some s → marker.sequence = s,
    fun _ ⟨marker, hMem, h⟩ => ⟨marker, List.mem_append_left _ hMem, h⟩⟩

def Fact.and (left right : Fact bucket key idempotencyKey) : Fact bucket key idempotencyKey :=
  ⟨fun log => left.holds log ∧ right.holds log,
    fun hStrange h => ⟨left.kept hStrange h.1, right.kept hStrange h.2⟩⟩

end Facts

/-! ## Triples -/

section Triples

variable {bucket key idempotencyKey}
variable {α β : Type} [Nuid]

/-- From a fact, the program ends in the fact its result stands for, and keeps the
invariant at every point. -/
def Spec (before : Fact bucket key idempotencyKey) (p : NatsM α)
    (after : Except TransportError α → Fact bucket key idempotencyKey) : Prop :=
  Triple faultyBroker (Foreign bucket key idempotencyKey) (At bucket key idempotencyKey before)
    p.run (fun result => At bucket key idempotencyKey (after result))
    (Inv bucket key idempotencyKey)

variable {before : Fact bucket key idempotencyKey}

theorem inv_quiet {call : NatsCall} (hQuiet : call.quiet = true) {broker : Broker}
    (h : At bucket key idempotencyKey before broker) :
    At bucket key idempotencyKey before (Broker.handle broker call).2 := by
  obtain ⟨hWell, hLog⟩ := handle_quiet hQuiet h.1.wellFormed
  refine ⟨⟨hWell, by rw [hLog]; exact h.1.sound, ?_⟩, by rw [hLog]; exact h.2⟩
  rw [hLog, hLog]
  exact h.1.ledger

/-- The facts about the stream of the bucket, as assertions about the broker. -/
abbrev facts (bucket key idempotencyKey : Str) : Assertions (Fact bucket key idempotencyKey) where
  others := Foreign bucket key idempotencyKey
  idle call := call.quiet = true
  Inv := Inv bucket key idempotencyKey
  At := At bucket key idempotencyKey
  inv h := h.1
  stable := stable_at
  kept hQuiet h := inv_quiet hQuiet h

theorem Spec.pure {a : α} {after : Except TransportError α → Fact bucket key idempotencyKey}
    (h : ∀ log, before.holds log → (after (.ok a)).holds log) :
    Spec before (Pure.pure a) after :=
  Assertions.Spec.pure (A := facts bucket key idempotencyKey) fun _ hAt => ⟨hAt.1, h _ hAt.2⟩

theorem Spec.throw {err : TransportError}
    {after : Except TransportError α → Fact bucket key idempotencyKey}
    (h : ∀ log, before.holds log → (after (.error err)).holds log) :
    Spec before (MonadExcept.throw err) after :=
  Assertions.Spec.throw (A := facts bucket key idempotencyKey) fun _ hAt => ⟨hAt.1, h _ hAt.2⟩

theorem Spec.bind {p : NatsM α} {f : α → NatsM β}
    (between : Except TransportError α → Fact bucket key idempotencyKey)
    {after : Except TransportError β → Fact bucket key idempotencyKey}
    (hFirst : Spec before p between)
    (hError : ∀ err log, (between (.error err)).holds log → (after (.error err)).holds log)
    (hSecond : ∀ a, Spec (between (.ok a)) (f a) after) : Spec before (p >>= f) after :=
  Assertions.Spec.bind (A := facts bucket key idempotencyKey) between hFirst
    (fun err _ hAt => ⟨hAt.1, hError err _ hAt.2⟩) hSecond

theorem Spec.weaken {p : NatsM α} {before' : Fact bucket key idempotencyKey}
    {after after' : Except TransportError α → Fact bucket key idempotencyKey}
    (h : Spec before p after) (hBefore : ∀ log, before'.holds log → before.holds log)
    (hAfter : ∀ result log, (after result).holds log → (after' result).holds log) :
    Spec before' p after' :=
  Assertions.Spec.weaken (A := facts bucket key idempotencyKey) h
    (fun _ hAt => ⟨hAt.1, hBefore _ hAt.2⟩) fun result _ hAt => ⟨hAt.1, hAfter result _ hAt.2⟩

/-- A call after which every stream has stored what it had stored before. What its reply
says about the streams may be used. -/
theorem Spec.attempt {call : NatsCall} (hQuiet : call.quiet = true)
    {f : Except IoError call.Value → NatsM β}
    (between : Except IoError call.Value → Fact bucket key idempotencyKey)
    {after : Except TransportError β → Fact bucket key idempotencyKey}
    (hReply : ∀ broker, At bucket key idempotencyKey before broker →
      (between (Broker.handle broker call).1).holds (broker.logOf (streamName bucket)))
    (hFail : ∀ err log, err.isNotFound = false → before.holds log →
      (between (.error err)).holds log)
    (hNext : ∀ reply, Spec (between reply) (f reply) after) :
    Spec before (Nats.attempt call >>= f) after :=
  Assertions.Spec.attempt (A := facts bucket key idempotencyKey) hQuiet between
    (fun broker hAt => ⟨hAt.1, hReply broker hAt⟩)
    (fun err _ hErr hAt => ⟨hAt.1, hFail err _ hErr hAt.2⟩) hNext

theorem Spec.lookup {call : NatsCall} (hQuiet : call.quiet = true)
    (between : Option call.Value → Fact bucket key idempotencyKey)
    (hFound : ∀ broker value, At bucket key idempotencyKey before broker →
      (Broker.handle broker call).1 = .ok value →
        (between (some value)).holds (broker.logOf (streamName bucket)))
    (hMissing : ∀ broker, At bucket key idempotencyKey before broker →
      (Broker.handle broker call).1 = .error .notFound →
        (between none).holds (broker.logOf (streamName bucket))) :
    Spec before (Nats.lookup call) fun
      | .ok found => between found
      | .error _ => .truth :=
  (Assertions.Spec.lookup (A := facts bucket key idempotencyKey) hQuiet between .truth
    (fun broker value hAt hReply => ⟨hAt.1, hFound broker value hAt hReply⟩)
    (fun broker hAt hReply => ⟨hAt.1, hMissing broker hAt hReply⟩)
    fun _ hAt => ⟨hAt.1, trivial⟩)

/-! ### Programs that store nothing -/

/-- Whatever fact held before holds after. -/
def Keeps (bucket key idempotencyKey : Str) (p : NatsM α) : Prop :=
  ∀ fact : Fact bucket key idempotencyKey, Spec fact p fun _ => fact

theorem keeps_of_quiet {p : NatsM α} (h : IsQuiet p) : Keeps bucket key idempotencyKey p :=
  fun fact => Assertions.Spec.of_calls (A := facts bucket key idempotencyKey) h fact

/-- What a program keeps still holds where its specification applies. -/
theorem Spec.frame {p : NatsM α} {after : Except TransportError α → Fact bucket key idempotencyKey}
    (h : Spec before p after) (hKeeps : Keeps bucket key idempotencyKey p)
    (fact : Fact bucket key idempotencyKey) :
    Spec (before.and fact) p fun result => (after result).and fact := by
  rintro broker outcome broker' ⟨hInv, hBefore, hFact⟩ hRun
  have hAfter := h ⟨hInv, hBefore⟩ hRun
  have hKept := hKeeps fact ⟨hInv, hFact⟩ hRun
  cases outcome with
  | none => exact hAfter
  | some result => exact ⟨hAfter.1, hAfter.2, hKept.2⟩

variable (config : NatsStorageConfig)

omit [Nuid] in
theorem quiet_markerSequence (markerSubject operation name markerKey idempotency : Str) :
    IsQuiet (markerSequence markerSubject operation name markerKey idempotency) := by
  refine .bind (.lookup rfl) ?_
  intro found
  cases found with
  | none => exact .pure _
  | some message =>
      by_cases hMatches : markerMatches message.payload operation markerKey idempotency = true
      · simp only [hMatches, if_true]
        exact .pure _
      · simp only [hMatches]
        exact .pure _

omit [Nuid] in
theorem quiet_ensureBucket (name : Str) : IsQuiet (ensureBucket config name) := by
  have hStore : IsQuiet (store name) := by
    refine .bind (.attempt rfl) ?_
    intro reply
    cases reply with
    | ok value => exact .pure _
    | error err => exact .throw _
  refine .inspect hStore ?_
  intro result
  match result with
  | .ok _ => exact .pure _
  | .error .notFound =>
      refine .inspect (.retryIo (.perform rfl) config.retries) ?_
      intro made
      cases made with
      | ok _ => exact .pure _
      | error err => exact .orExisting (.pure _) err
  | .error (.io _) | .error (.json _) | .error (.invalid _) | .error (.protocol _)
  | .error .queueFull | .error (.queueLocked _) => exact .throw _

/-! ### Publishing into the stream of the bucket -/

section Publish

variable {publishSubject id : Str} {headers : Headers} {payload : Payload}

/-- The message being published fits the log and establishes the new fact. -/
def Fits (publishSubject : Str) (headers : Headers) (payload : Payload)
    (before after : Fact bucket key idempotencyKey) : Prop :=
  ∀ log sequence, (∀ message ∈ log, message.sequence < sequence) →
    Sound bucket key idempotencyKey log → before.holds log →
      Sound bucket key idempotencyKey (log ++ [⟨publishSubject, sequence, headers, payload⟩]) ∧
        after.holds (log ++ [⟨publishSubject, sequence, headers, payload⟩])

omit [Nuid] in
/-- What storing a message does to the two logs the facts are about. -/
theorem stores_of_fits {after : Fact bucket key idempotencyKey}
    (hFits : Fits publishSubject headers payload before after) {broker : Broker} {stream : Stream}
    (recent : List (Str × Str × Nat)) (h : At bucket key idempotencyKey before broker)
    (hStream : broker.streams (streamName bucket) = some stream) :
    At bucket key idempotencyKey after { broker.setStream (streamName bucket)
      (stream.append publishSubject headers payload) with recent } := by
  obtain ⟨hInv, hBefore⟩ := h
  have hWell := hInv.wellFormed _ _ hStream
  have hLog : broker.logOf (streamName bucket) = stream.log := Broker.logOf_of_some hStream
  have hSound := hInv.sound
  rw [hLog] at hBefore hSound
  obtain ⟨hSound', hAfter⟩ := hFits stream.log (stream.lastSequence + 1)
    (fun message hMem => Nat.lt_succ_of_le (hWell.bounded message hMem)) hSound hBefore
  have hNew : (broker.setStream (streamName bucket)
      (stream.append publishSubject headers payload)).logOf (streamName bucket) =
        stream.log ++ [⟨publishSubject, stream.lastSequence + 1, headers, payload⟩] := by
    rw [Broker.logOf_setStream, if_pos rfl]
    rfl
  have hLedger : (broker.setStream (streamName bucket)
      (stream.append publishSubject headers payload)).logOf Ledger.stream =
        broker.logOf Ledger.stream := by
    rw [Broker.logOf_setStream, if_neg ledger_ne_streamName]
  refine ⟨⟨?_, hNew.symm ▸ hSound', ?_⟩, hNew.symm ▸ hAfter⟩
  · exact hInv.wellFormed.setStream (hWell.append publishSubject headers payload)
  · intro message hMem hSubject
    have hEvidence := hInv.ledger message (hLedger ▸ hMem) hSubject
    rw [hLog] at hEvidence
    exact hNew.symm ▸ hEvidence.append _

/-- A publish with retries stores its message at most once. -/
theorem Spec.retryPublish {after : Fact bucket key idempotencyKey} (id : Str)
    (hFits : Fits publishSubject headers payload before after) (retries : Nat) :
    Spec before (Nats.retryPublish retries (streamName bucket) publishSubject headers payload
      ⟨some id, none⟩) fun
      | .ok _ => after
      | .error _ => .truth :=
  Assertions.Spec.retryPublish (A := facts bucket key idempotencyKey)
    (fun _ _ hStep => (logOf_foreign hStep).2.1) rfl id
    (fun _ _ recent hAt hStream => stores_of_fits hFits recent hAt hStream)
    (fun _ hAt => ⟨hAt.1, trivial⟩) (fun _ hAt => ⟨hAt.1, trivial⟩) retries

end Publish

/-! ### Publishing into the ledger -/

/-- With evidence at hand the put may be noted in the ledger. -/
theorem spec_publishLedger (hEvidence : ∀ log, before.holds log →
      Evidence bucket key idempotencyKey log)
    (ledgerSubject : Str) (payload : Payload) (options : PublishOptions) :
    Spec before (Nats.perform (.publish Ledger.stream ledgerSubject [] payload options))
      fun _ => before := by
  have hPublish : ∀ broker, At bucket key idempotencyKey before broker →
      At bucket key idempotencyKey before (Broker.handle broker
        (.publish Ledger.stream ledgerSubject [] payload options)).2 := by
    intro broker h
    show At bucket key idempotencyKey before (broker.publish _ _ _ _ _).2
    rcases publish_cases broker Ledger.stream ledgerSubject [] payload options with
      ⟨err, hEq, -⟩ | ⟨sequence, -, hEq⟩ | ⟨stream, hStream, -, hEq⟩
    · rw [hEq]
      exact h
    · rw [hEq]
      exact h
    · rw [hEq]
      have hLog : (broker.setStream Ledger.stream (stream.append ledgerSubject [] payload)).logOf
          (streamName bucket) = broker.logOf (streamName bucket) := by
        rw [Broker.logOf_setStream, if_neg (Ne.symm ledger_ne_streamName)]
      refine ⟨⟨?_, ?_, ?_⟩, ?_⟩
      · exact h.1.wellFormed.setStream ((h.1.wellFormed _ _ hStream).append _ _ _)
      · exact hLog.symm ▸ h.1.sound
      · intro message _ _
        exact hLog.symm ▸ hEvidence _ h.2
      · exact hLog.symm ▸ h.2
  exact Assertions.Spec.perform (A := facts bucket key idempotencyKey) hPublish

theorem spec_recordApplied (hEvidence : ∀ log, before.holds log →
      Evidence bucket key idempotencyKey log) (ledgerKey : Str) :
    Spec before (Ledger.recordApplied config ledgerKey) fun _ => before := by
  refine .bind (fun _ => before) (keeps_of_quiet (.ensureStream config) before) (fun _ _ h => h) ?_
  intro _
  refine .bind (fun _ => before) ?_ (fun _ _ h => h) fun _ => .pure fun _ h => h
  refine .bind (fun _ => before) (keeps_of_quiet (.perform rfl) before) (fun _ _ h => h) ?_
  intro _
  exact Assertions.Spec.retryIo (A := facts bucket key idempotencyKey)
    (spec_publishLedger hEvidence _ _ _) config.retries

end Triples

end Kv

end EventFs.Transport.Nats
