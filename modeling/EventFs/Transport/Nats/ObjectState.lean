import EventFs.Transport.Nats.BrokerFacts
import EventFs.Transport.Nats.LedgerKeys
import EventFs.Transport.Nats.Objects

/-!
# An object, its markers and its notes on the broker

What the purge decisions read: the metadata messages of the object, the write-back markers
of the bucket and the notes in the ledger. `Inv` says which of these are evidence that an
older generation is dead, and one lemma per kind of change says that it keeps `Inv`.
-/

namespace EventFs.Transport.Nats

open Library Protocol

/-! ## Retained messages -/

theorem rollup_get : Headers.get [(natsRollup, rollupSubject)] natsRollup = some rollupSubject := by
  decide

namespace Stream

theorem ofSubject_append (stream : Stream) {subject other : Str} (hne : other ≠ subject)
    (headers : Headers) (payload : Payload) :
    (stream.append subject headers payload).ofSubject other = stream.ofSubject other := by
  have hSubject : (subject == other) = false := by
    rw [beq_eq_false_iff_ne]
    exact Ne.symm hne
  unfold append
  show List.filter _ (stream.keptBefore subject headers ++ [_]) = _
  rw [List.filter_append, stream.filter_keptBefore hne,
    List.filter_cons_of_neg (by simp [hSubject]),
    List.filter_nil, List.append_nil]

theorem ofSubject_append_rollup (stream : Stream) (subject : Str) {headers : Headers}
    (hRollup : headers.get natsRollup = some rollupSubject) (payload : Payload) :
    (stream.append subject headers payload).ofSubject subject =
      [⟨subject, stream.lastSequence + 1, headers, payload⟩] := by
  unfold append ofSubject keptBefore
  simp [hRollup, List.filter_append, List.filter_filter]

theorem mem_ofSubject_append {stream : Stream} {subject : Str} {headers : Headers}
    {payload : Payload} {message : Message}
    (h : message ∈ (stream.append subject headers payload).ofSubject subject) :
    message ∈ stream.ofSubject subject ∨
      message = ⟨subject, stream.lastSequence + 1, headers, payload⟩ := by
  obtain ⟨hMem, hSubject⟩ := List.mem_filter.mp h
  rcases List.mem_append.mp hMem with hMem | hMem
  · exact Or.inl (List.mem_filter.mpr ⟨keptBefore_subset hMem, hSubject⟩)
  · exact Or.inr (List.mem_singleton.mp hMem)

end Stream

namespace Broker

def retained (broker : Broker) (name subject : Str) : List Message :=
  match broker.streams name with
  | none => []
  | some stream => stream.ofSubject subject

theorem retained_of_some {broker : Broker} {name : Str} {stream : Stream}
    (h : broker.streams name = some stream) (subject : Str) :
    broker.retained name subject = stream.ofSubject subject := by
  simp [retained, h]

theorem retained_setStream (broker : Broker) (name : Str) (stream : Stream) (other subject : Str) :
    (broker.setStream name stream).retained other subject =
      if other = name then stream.ofSubject subject else broker.retained other subject := by
  unfold retained
  rw [setStream_streams]
  by_cases h : other = name <;> simp [h]

theorem last_eq [Nuid] (broker : Broker) (name subject : Str) :
    (Broker.handle broker (.getLastMessage name subject)).1 =
      match (broker.retained name subject).getLast? with
      | none => .error .notFound
      | some message => .ok message := by
  unfold retained
  simp only [Broker.handle]
  cases hStream : broker.streams name with
  | none => rfl
  | some stream =>
      show (match stream.lastMessage subject with | none => _ | some message => _ : _ × _).1 = _
      unfold Stream.lastMessage
      cases (stream.ofSubject subject).getLast? <;> rfl

theorem last_ok [Nuid] {broker : Broker} {name subject : Str} {message : Message}
    (h : (Broker.handle broker (.getLastMessage name subject)).1 = .ok message) :
    (broker.retained name subject).getLast? = some message := by
  rw [last_eq] at h
  cases hLast : (broker.retained name subject).getLast? with
  | none => rw [hLast] at h; cases h
  | some found => rw [hLast] at h; cases h; rfl

theorem last_notFound [Nuid] {broker : Broker} {name subject : Str} {err : IoError}
    (h : (Broker.handle broker (.getLastMessage name subject)).1 = .error err) :
    (broker.retained name subject).getLast? = none := by
  rw [last_eq] at h
  cases hLast : (broker.retained name subject).getLast? with
  | none => rfl
  | some found => rw [hLast] at h; cases h

theorem next_ok [Nuid] {broker : Broker} {name subject : Str} {after : Nat} {message : Message}
    (h : (Broker.handle broker (.next name subject after)).1 = .ok message) :
    message ∈ broker.retained name subject := by
  simp only [Broker.handle] at h
  split at h
  · cases h
  · next stream hStream =>
    split at h
    · cases h
    · next found hFound =>
      cases h
      rw [retained_of_some hStream]
      exact List.mem_of_find?_eq_some hFound

end Broker

/-- A message has been stored at the end of a stream. -/
structure Appended (name : Str) (message : Message) (s t : Broker) : Prop where
  streams : ∃ stream, s.streams name = some stream ∧ message.sequence = stream.lastSequence + 1 ∧
    t.streams = (s.setStream name
      (stream.append message.subject message.headers message.payload)).streams
  purges : t.purges = s.purges

namespace Appended

variable {name : Str} {message : Message} {s t : Broker}

theorem of_setStream {s : Broker} {name : Str} {stream : Stream}
    (hStream : s.streams name = some stream) (subject : Str) (headers : Headers)
    (payload : Payload) :
    Appended name ⟨subject, stream.lastSequence + 1, headers, payload⟩ s
      (s.setStream name (stream.append subject headers payload)) :=
  ⟨⟨stream, hStream, rfl, rfl⟩, rfl⟩

theorem retained_congr {s t : Broker} (h : t.streams = s.streams) (name subject : Str) :
    t.retained name subject = s.retained name subject := by
  unfold Broker.retained
  rw [h]

theorem retained_ne (h : Appended name message s t) {other subject : Str}
    (hne : other = name → subject ≠ message.subject) :
    t.retained other subject = s.retained other subject := by
  obtain ⟨stream, hStream, -, hStreams⟩ := h.streams
  rw [retained_congr hStreams, Broker.retained_setStream]
  split
  · next hName =>
    rw [stream.ofSubject_append (hne hName), hName, Broker.retained_of_some hStream]
  · rfl

theorem mem_retained (h : Appended name message s t) {found : Message}
    (hFound : found ∈ t.retained name message.subject) :
    found ∈ s.retained name message.subject ∨ found = message := by
  obtain ⟨stream, hStream, hSequence, hStreams⟩ := h.streams
  rw [retained_congr hStreams, Broker.retained_setStream, if_pos rfl] at hFound
  rw [Broker.retained_of_some hStream]
  rcases Stream.mem_ofSubject_append hFound with hFound | hFound
  · exact Or.inl hFound
  · rw [← hSequence] at hFound
    exact Or.inr hFound

theorem retained_rollup (h : Appended name message s t)
    (hRollup : message.headers.get natsRollup = some rollupSubject) :
    t.retained name message.subject = [message] := by
  obtain ⟨stream, hStream, hSequence, hStreams⟩ := h.streams
  rw [retained_congr hStreams, Broker.retained_setStream, if_pos rfl,
    stream.ofSubject_append_rollup _ hRollup, ← hSequence]

end Appended

/-- The messages of a subject have been removed. -/
def Stream.without (stream : Stream) (subject : Str) : Stream :=
  { stream with messages := stream.messages.filter fun message => message.subject != subject }

theorem Stream.ofSubject_without (stream : Stream) {subject other : Str} (hne : other ≠ subject) :
    (stream.without subject).ofSubject other = stream.ofSubject other := by
  unfold without ofSubject
  rw [List.filter_filter]
  congr 1
  funext message
  by_cases h : message.subject = other
  · simp [h, hne]
  · simp [h]

structure Purged (name subject : Str) (s t : Broker) : Prop where
  streams : ∃ stream, s.streams name = some stream ∧
    t.streams = (s.setStream name (stream.without subject)).streams
  issued : t.issued = s.issued

namespace Purged

variable {name subject : Str} {s t : Broker}

theorem retained_ne (h : Purged name subject s t) {other subject' : Str}
    (hne : other = name → subject' ≠ subject) :
    t.retained other subject' = s.retained other subject' := by
  obtain ⟨stream, hStream, hStreams⟩ := h.streams
  rw [Appended.retained_congr hStreams, Broker.retained_setStream]
  split
  · next hName =>
    rw [stream.ofSubject_without (hne hName), hName, Broker.retained_of_some hStream]
  · rfl

theorem retained_subset (h : Purged name subject s t) {other subject' : Str} {message : Message}
    (hMem : message ∈ t.retained other subject') : message ∈ s.retained other subject' := by
  obtain ⟨stream, hStream, hStreams⟩ := h.streams
  rw [Appended.retained_congr hStreams, Broker.retained_setStream] at hMem
  split at hMem
  · next hName =>
    rw [hName, Broker.retained_of_some hStream]
    obtain ⟨hKept, hSubject⟩ := List.mem_filter.mp hMem
    exact List.mem_filter.mpr ⟨List.mem_of_mem_filter hKept, hSubject⟩
  · exact hMem

end Purged

theorem purge_effect [Nuid] (broker : Broker) (name subject : Str) :
    (Broker.handle broker (.purgeStreamSubject name subject)).2 = broker ∨
      ∃ stream, broker.streams name = some stream ∧
        Purged name subject broker (Broker.handle broker (.purgeStreamSubject name subject)).2 ∧
        (Broker.handle broker (.purgeStreamSubject name subject)).2.purges =
          (name, subject, stream.messages) :: broker.purges := by
  simp only [Broker.handle]
  cases hStream : broker.streams name with
  | none => exact Or.inl rfl
  | some stream => exact Or.inr ⟨stream, rfl, ⟨⟨stream, hStream, rfl⟩, rfl⟩, rfl⟩

/-- What a publish does to the broker, whatever it answers. -/
theorem publish_effect (broker : Broker) (name subject : Str) (headers : Headers)
    (payload : Payload) (options : PublishOptions) :
    (broker.publish name subject headers payload options).2 = broker ∨
      (broker.publish name subject headers payload options).2.issued = broker.issued ∧
        ∃ sequence, Appended name ⟨subject, sequence, headers, payload⟩ broker
          (broker.publish name subject headers payload options).2 := by
  rcases publish_cases broker name subject headers payload options with
    ⟨err, h, -⟩ | ⟨sequence, -, h⟩ | ⟨stream, hStream, -, h⟩
  · exact Or.inl (by rw [h])
  · exact Or.inl (by rw [h])
  · rw [h]
    exact Or.inr ⟨rfl, stream.lastSequence + 1, ⟨stream, hStream, rfl, rfl⟩, rfl⟩

theorem retained_putObject [Nuid] {broker : Broker} {name bucket : Str}
    (hName : name ≠ objectStreamName bucket) (object subject : Str)
    (description : Option ObjectDescription) (bytes : Bytes) :
    (broker.putObject bucket object description bytes).2.retained name subject =
      broker.retained name subject := by
  unfold Broker.putObject
  cases hStream : broker.streams (objectStreamName bucket) with
  | none => rfl
  | some stream =>
      refine (Appended.retained_congr (s := broker.setStream _ _) rfl name subject).trans ?_
      rw [Broker.retained_setStream, if_neg hName]

theorem Quiet.retained {broker broker' : Broker} (h : Quiet broker broker') (name subject : Str) :
    broker'.retained name subject = broker.retained name subject := by
  cases h with
  | same => rfl
  | forget => rfl
  | create config hNone =>
      rw [Broker.retained_setStream]
      split
      · next hName =>
        subst hName
        simp [Broker.retained, hNone, Stream.create, Stream.ofSubject]
      · rfl
  | configure config hStream =>
      rw [Broker.retained_setStream]
      split
      · next hName =>
        subst hName
        rw [Broker.retained_of_some hStream]
        rfl
      · rfl

theorem Quiet.issued {broker broker' : Broker} (h : Quiet broker broker') :
    broker'.issued = broker.issued ∧ broker'.purges = broker.purges := by
  cases h <;> exact ⟨rfl, rfl⟩

namespace Objects

variable (bucket object : Str)

/-! ## Subjects -/

section Subjects

variable {bucket object}

theorem markerSubject_injective {left right : Str}
    (h : objectWritebackMarkerSubject bucket left = objectWritebackMarkerSubject bucket right) :
    left = right :=
  Text.asBytes_injective (hexEncode_injective (List.append_cancel_left h))

theorem chunkSubject_injective {left right : Str}
    (h : objectChunkSubject bucket left = objectChunkSubject bucket right) : left = right :=
  List.append_cancel_left h

theorem chunk_ne_meta (nuid : Str) :
    objectChunkSubject bucket nuid ≠ objectMetaSubject bucket object := by
  intro h
  simp only [objectChunkSubject, objectMetaSubject, List.append_assoc] at h
  have hTail := List.append_cancel_left (List.append_cancel_left h)
  have hChar : some 'C' = some 'M' := congrArg (fun rest => rest[1]?) hTail
  exact absurd hChar (by decide)

theorem chunk_ne_marker (nuid key : Str) :
    objectChunkSubject bucket nuid ≠ objectWritebackMarkerSubject bucket key := by
  intro h
  simp only [objectChunkSubject, objectWritebackMarkerSubject, List.append_assoc] at h
  have hTail := List.append_cancel_left (List.append_cancel_left h)
  have hChar : some 'C' = some 'W' := congrArg (fun rest => rest[1]?) hTail
  exact absurd hChar (by decide)

theorem marker_ne_meta (key : Str) :
    objectWritebackMarkerSubject bucket key ≠ objectMetaSubject bucket object := by
  intro h
  simp only [objectMetaSubject, objectWritebackMarkerSubject, List.append_assoc] at h
  have hTail := List.append_cancel_left (List.append_cancel_left h)
  have hChar : some 'W' = some 'M' := congrArg (fun rest => rest[1]?) hTail
  exact absurd hChar (by decide)

theorem ledger_ne_objectStream : Ledger.stream ≠ objectStreamName bucket := by
  intro h
  have hHead : some 'E' = some 'O' := congrArg List.head? h
  exact absurd hHead (by decide)

theorem ledgerSubject_injective {left right : Str}
    (h : Ledger.ledgerSubject (objectWritebackLedgerKey bucket object left) =
      Ledger.ledgerSubject (objectWritebackLedgerKey bucket object right)) : left = right := by
  have hWrite : (⟨.object, bucket, object, left⟩ : Ledger.Write) =
      ⟨.object, bucket, object, right⟩ :=
    Ledger.Write.ledgerKey_injective (Ledger.ledgerSubject_injective h)
  exact congrArg Ledger.Write.idempotencyKey hWrite

end Subjects

/-! ## What the decisions read -/

/-- The retained metadata messages of the object. -/
def metas (broker : Broker) : List Message :=
  broker.retained (objectStreamName bucket) (objectMetaSubject bucket object)

def markers (key : Str) (broker : Broker) : List Message :=
  broker.retained (objectStreamName bucket) (objectWritebackMarkerSubject bucket key)

/-- The ledger has noted the put under this key. -/
def Recorded (key : Str) (broker : Broker) : Prop :=
  ∃ message, (broker.retained Ledger.stream
      (Ledger.ledgerSubject (objectWritebackLedgerKey bucket object key))).getLast? = some message ∧
    Ledger.ledgerPayloadMatches (objectWritebackLedgerKey bucket object key) message.payload = true

/-- The current metadata of an object that is not deleted. -/
def LiveMeta (messages : List Message) (message : Message) (info : ObjectInfo) : Prop :=
  messages.getLast? = some message ∧ message.payload = .objectInfo info ∧ info.deleted = false

/-- The object is stored under this nuid. -/
def Live (messages : List Message) (nuid : Str) : Prop :=
  ∃ message info, LiveMeta messages message info ∧ info.nuid = nuid

/-- The object will never again be stored under this nuid. -/
def Dead (broker : Broker) (nuid : Str) : Prop :=
  nuid ∈ broker.issued ∧ ¬ Live (metas bucket object broker) nuid

/-- What the put under this key found before it, as its last marker says, is dead. An empty
nuid stands for none. -/
def MarkerDead (key : Str) (broker : Broker) : Prop :=
  ∀ message, (markers bucket key broker).getLast? = some message →
    ∀ identity, message.payload = .objectIdentity identity →
      ∀ nuid, identity.previousNuid = some nuid → nuid ≠ [] → Dead bucket object broker nuid

/-- No retained metadata was stored by the put under this key. -/
def Unstored (key : Str) (broker : Broker) : Prop :=
  ∀ message ∈ metas bucket object broker, ∀ info, message.payload = .objectInfo info →
    info.deleted = false → appliedIdentity info key = none

/-- A purge that leaves the chunks of the object alone: what it removes is not the subject
of the nuid the object is stored under. -/
def Harmless (purge : Str × Str × List Message) : Prop :=
  purge.1 = objectStreamName bucket → ∀ nuid,
    Live (purge.2.2.filter fun message => message.subject == objectMetaSubject bucket object) nuid →
      purge.2.1 ≠ objectChunkSubject bucket nuid

structure Inv (broker : Broker) : Prop where
  issued : ∀ message ∈ metas bucket object broker, ∀ info, message.payload = .objectInfo info →
    info.nuid ∈ broker.issued
  alone : ∀ message ∈ metas bucket object broker, ∀ info, message.payload = .objectInfo info →
    ∀ identity, info.description = some (.identity identity) →
      metas bucket object broker = [message]
  put : ∀ message ∈ metas bucket object broker, ∀ info, message.payload = .objectInfo info →
    info.deleted = false → ∀ identity, info.description = some (.identity identity) →
      (∀ nuid, identity.previousNuid = some nuid → Dead bucket object broker nuid) ∧
        MarkerDead bucket object identity.idempotencyKey broker
  marked : ∀ key, ∀ message ∈ markers bucket key broker, ∀ identity,
    message.payload = .objectIdentity identity → ∀ nuid, identity.previousNuid = some nuid →
      nuid ∈ broker.issued
  recorded : ∀ key, Recorded bucket object key broker → MarkerDead bucket object key broker
  harmless : ∀ purge ∈ broker.purges, Harmless bucket object purge

/-! ## How the state may change -/

/-- What no step undoes. -/
structure Evolves (s t : Broker) : Prop where
  issued : ∀ nuid ∈ s.issued, nuid ∈ t.issued
  dead : ∀ nuid, Dead bucket object s nuid → Dead bucket object t nuid

/-- What only a put under this key changes. -/
structure KeepsKey (key : Str) (s t : Broker) : Prop where
  markers : markers bucket key t = markers bucket key s
  recorded : Recorded bucket object key t → Recorded bucket object key s
  unstored : Unstored bucket object key s → Unstored bucket object key t

/-- A step of a put under `key`, or of a party without a key. -/
structure Moves (key : Option Str) (s t : Broker) : Prop where
  inv : Inv bucket object t
  evolves : Evolves bucket object s t
  keeps : ∀ other, key ≠ some other → KeepsKey bucket object other s t

/-- A step after which metadata, markers and nuids are as before. -/
structure SameReads (s t : Broker) : Prop where
  metas : metas bucket object t = metas bucket object s
  markers : ∀ other, markers bucket other t = markers bucket other s
  issued : t.issued = s.issued

/-- A step that replaces the metadata of the object. -/
structure Replaces (message : Message) (info : ObjectInfo) (s t : Broker) : Prop where
  metas : metas bucket object t = [message]
  payload : message.payload = .objectInfo info
  markers : ∀ other, markers bucket other t = markers bucket other s
  recorded : ∀ other, Recorded bucket object other t → Recorded bucket object other s
  purges : t.purges = s.purges
  issued : ∀ nuid ∈ s.issued, nuid ∈ t.issued

section Changes

variable {bucket object} {key : Option Str} {own : Str} {s t : Broker}

theorem Moves.anyKey (h : Moves bucket object none s t) : Moves bucket object key s t :=
  ⟨h.inv, h.evolves, fun other _ => h.keeps other (by simp)⟩

theorem MarkerDead.evolves (h : MarkerDead bucket object own s)
    (hMarkers : markers bucket own t = markers bucket own s)
    (hDead : ∀ nuid, Dead bucket object s nuid → Dead bucket object t nuid) :
    MarkerDead bucket object own t := by
  intro message hLast identity hPayload nuid hNuid hKnown
  rw [hMarkers] at hLast
  exact hDead nuid (h message hLast identity hPayload nuid hNuid hKnown)

theorem SameReads.dead (h : SameReads bucket object s t) (nuid : Str) :
    Dead bucket object t nuid ↔ Dead bucket object s nuid := by
  unfold Dead
  rw [h.metas, h.issued]

theorem SameReads.evolves (h : SameReads bucket object s t) : Evolves bucket object s t where
  issued := by
    rw [h.issued]
    exact fun _ h => h
  dead nuid := (h.dead nuid).mpr

theorem SameReads.markerDead (h : SameReads bucket object s t)
    (hDead : MarkerDead bucket object own s) : MarkerDead bucket object own t :=
  hDead.evolves (h.markers own) h.evolves.dead

theorem SameReads.unstored (h : SameReads bucket object s t)
    (hUnstored : Unstored bucket object own s) : Unstored bucket object own t := by
  intro message hMem
  rw [h.metas] at hMem
  exact hUnstored message hMem

/-- Steps that note a put in the ledger, purge chunks, or do neither. -/
theorem SameReads.moves (h : SameReads bucket object s t) (hInv : Inv bucket object s)
    (hRecorded : ∀ other, Recorded bucket object other t →
      Recorded bucket object other s ∨ key = some other ∧ MarkerDead bucket object other s)
    (hPurges : ∀ purge ∈ t.purges, purge ∈ s.purges ∨ Harmless bucket object purge) :
    Moves bucket object key s t where
  inv := by
    refine ⟨?_, ?_, ?_, ?_, ?_, ?_⟩
    · rw [h.metas, h.issued]
      exact hInv.issued
    · rw [h.metas]
      exact hInv.alone
    · rw [h.metas]
      intro message hMem info hInfo hLive identity hIdentity
      obtain ⟨hPrevious, hMarker⟩ := hInv.put message hMem info hInfo hLive identity hIdentity
      exact ⟨fun nuid hNuid => (h.dead nuid).mpr (hPrevious nuid hNuid), h.markerDead hMarker⟩
    · intro other
      rw [h.markers, h.issued]
      exact hInv.marked other
    · intro other hOther
      rcases hRecorded other hOther with hOther | ⟨-, hDead⟩
      · exact h.markerDead (hInv.recorded other hOther)
      · exact h.markerDead hDead
    · intro purge hMem
      rcases hPurges purge hMem with hMem | hHarmless
      · exact hInv.harmless purge hMem
      · exact hHarmless
  evolves := h.evolves
  keeps := by
    intro other hOther
    refine ⟨h.markers other, ?_, h.unstored⟩
    intro hRec
    rcases hRecorded other hRec with hRec | ⟨hKey, -⟩
    · exact hRec
    · exact absurd hKey hOther

theorem Replaces.live_info {message found : Message} {info foundInfo : ObjectInfo}
    (h : Replaces bucket object message info s t)
    (hMeta : LiveMeta (Objects.metas bucket object t) found foundInfo) : foundInfo = info := by
  obtain ⟨hLast, hPayload, -⟩ := hMeta
  rw [h.metas] at hLast
  obtain rfl : message = found := by simpa using hLast
  rw [h.payload] at hPayload
  cases hPayload
  rfl

theorem Replaces.dead {message : Message} {info : ObjectInfo}
    (h : Replaces bucket object message info s t)
    (hLive : info.deleted = false → info.nuid ∈ s.issued →
      Live (Objects.metas bucket object s) info.nuid) {nuid : Str}
    (hDead : Dead bucket object s nuid) : Dead bucket object t nuid := by
  obtain ⟨hMem, hNot⟩ := hDead
  refine ⟨h.issued nuid hMem, ?_⟩
  rintro ⟨found, foundInfo, hMeta, rfl⟩
  obtain rfl := h.live_info hMeta
  exact hNot (hLive hMeta.2.2 hMem)

/-- Metadata that is live has a new nuid, or the one that was live before it. -/
theorem Replaces.moves {message : Message} {info : ObjectInfo}
    (h : Replaces bucket object message info s t) (hInv : Inv bucket object s)
    (hIssued : info.nuid ∈ t.issued)
    (hLive : info.deleted = false → info.nuid ∈ s.issued →
      Live (Objects.metas bucket object s) info.nuid)
    (hPut : info.deleted = false → ∀ identity, info.description = some (.identity identity) →
      (∀ nuid, identity.previousNuid = some nuid → Dead bucket object t nuid) ∧
        MarkerDead bucket object identity.idempotencyKey t)
    (hUnstored : info.deleted = false → ∀ other, key ≠ some other →
      Unstored bucket object other s → appliedIdentity info other = none) :
    Moves bucket object key s t := by
  have hOnly : ∀ {found : Message}, found ∈ Objects.metas bucket object t → found = message := by
    intro found hMem
    rw [h.metas] at hMem
    exact List.mem_singleton.mp hMem
  have hInfo : ∀ {found : ObjectInfo}, message.payload = .objectInfo found → found = info := by
    intro found hFound
    rw [h.payload] at hFound
    cases hFound
    rfl
  have hDead : ∀ nuid, Dead bucket object s nuid → Dead bucket object t nuid :=
    fun _ => h.dead hLive
  refine ⟨⟨?_, ?_, ?_, ?_, ?_, ?_⟩, ⟨h.issued, hDead⟩, ?_⟩
  · intro found hMem foundInfo hPayload
    rw [hOnly hMem] at hPayload
    rw [hInfo hPayload]
    exact hIssued
  · intro found hMem _ _ _ _
    rw [hOnly hMem]
    exact h.metas
  · intro found hMem foundInfo hPayload hDeleted identity hIdentity
    rw [hOnly hMem] at hPayload
    obtain rfl := hInfo hPayload
    exact hPut hDeleted identity hIdentity
  · intro other found hMem identity hPayload nuid hNuid
    rw [h.markers] at hMem
    exact h.issued nuid (hInv.marked other found hMem identity hPayload nuid hNuid)
  · intro other hOther
    exact (hInv.recorded other (h.recorded other hOther)).evolves (h.markers other) hDead
  · rw [h.purges]
    exact hInv.harmless
  · intro other hOther
    refine ⟨h.markers other, h.recorded other, ?_⟩
    intro hNone found hMem foundInfo hPayload hDeleted
    rw [hOnly hMem] at hPayload
    obtain rfl := hInfo hPayload
    exact hUnstored hDeleted other hOther hNone

/-- A new marker of a put that has not been stored yet. -/
theorem moves_marker {marker : Message} {identity : ObjectWritebackIdentity}
    (hInv : Inv bucket object s) (hMetas : metas bucket object t = metas bucket object s)
    (hOwn : ∀ message ∈ markers bucket own t, message ∈ markers bucket own s ∨ message = marker)
    (hPayload : marker.payload = .objectIdentity identity)
    (hPrevious : ∀ nuid, identity.previousNuid = some nuid → nuid ∈ s.issued)
    (hOthers : ∀ other ≠ own, markers bucket other t = markers bucket other s)
    (hRecorded : ∀ other, Recorded bucket object other t → Recorded bucket object other s)
    (hIssued : t.issued = s.issued) (hPurges : t.purges = s.purges)
    (hUnstored : Unstored bucket object own s) (hUnrecorded : ¬ Recorded bucket object own s) :
    Moves bucket object (some own) s t := by
  have hDead : ∀ nuid, Dead bucket object t nuid ↔ Dead bucket object s nuid := by
    intro nuid
    unfold Dead
    rw [hMetas, hIssued]
  have hMarkerDead : ∀ other ≠ own, MarkerDead bucket object other s →
      MarkerDead bucket object other t :=
    fun other hOther h => h.evolves (hOthers other hOther) fun nuid => (hDead nuid).mpr
  refine ⟨⟨?_, ?_, ?_, ?_, ?_, ?_⟩, ⟨?_, fun nuid => (hDead nuid).mpr⟩, ?_⟩
  · rw [hMetas, hIssued]
    exact hInv.issued
  · rw [hMetas]
    exact hInv.alone
  · rw [hMetas]
    intro message hMem info hInfo hLive found hFound
    obtain ⟨hPrev, hMarker⟩ := hInv.put message hMem info hInfo hLive found hFound
    refine ⟨fun nuid hNuid => (hDead nuid).mpr (hPrev nuid hNuid), hMarkerDead _ ?_ hMarker⟩
    -- metadata with the identity of this put contradicts that it was not stored
    rintro rfl
    have hNone := hUnstored message hMem info hInfo hLive
    simp [appliedIdentity, hFound, objectWritebackIdentityFromDescription] at hNone
  · intro other message hMem found hFound nuid hNuid
    rw [hIssued]
    by_cases hOther : other = own
    · subst hOther
      rcases hOwn message hMem with hMem | rfl
      · exact hInv.marked other message hMem found hFound nuid hNuid
      · rw [hPayload] at hFound
        cases hFound
        exact hPrevious nuid hNuid
    · rw [hOthers other hOther] at hMem
      exact hInv.marked other message hMem found hFound nuid hNuid
  · intro other hOther
    have hBefore := hRecorded other hOther
    refine hMarkerDead other ?_ (hInv.recorded other hBefore)
    rintro rfl
    exact hUnrecorded hBefore
  · rw [hPurges]
    exact hInv.harmless
  · rw [hIssued]
    exact fun _ h => h
  · intro other hOther
    refine ⟨hOthers other fun h => hOther (by rw [h]), hRecorded other, ?_⟩
    intro hNone message hMem
    rw [hMetas] at hMem
    exact hNone message hMem

/-! ### The calls -/

theorem sameReads_quiet (h : Quiet s t) : SameReads bucket object s t where
  metas := h.retained _ _
  markers _ := h.retained _ _
  issued := h.issued.1

theorem moves_quiet (hInv : Inv bucket object s) (h : Quiet s t) : Moves bucket object key s t := by
  refine (sameReads_quiet h).moves hInv ?_ ?_
  · intro other hRecorded
    unfold Recorded at hRecorded
    rw [h.retained] at hRecorded
    exact Or.inl hRecorded
  · rw [h.issued.2]
    exact fun _ h => Or.inl h

theorem recorded_of_retained {own : Str} (hRetained : ∀ subject,
      t.retained Ledger.stream subject = s.retained Ledger.stream subject)
    (h : Recorded bucket object own t) : Recorded bucket object own s := by
  unfold Recorded at h
  rw [hRetained] at h
  exact h

/-- A message in another stream, or of another subject. -/
theorem moves_elsewhere (hInv : Inv bucket object s) {name : Str} {message : Message}
    (h : Appended name message s t) (hIssued : t.issued = s.issued)
    (hObject : name = objectStreamName bucket → message.subject ≠ objectMetaSubject bucket object ∧
      ∀ own, message.subject ≠ objectWritebackMarkerSubject bucket own)
    (hLedger : name = Ledger.stream → ∀ own, message.subject ≠
      Ledger.ledgerSubject (objectWritebackLedgerKey bucket object own)) :
    Moves bucket object key s t := by
  have hSame : SameReads bucket object s t :=
    ⟨h.retained_ne fun hName => Ne.symm (hObject hName.symm).1,
      fun other => h.retained_ne fun hName => Ne.symm ((hObject hName.symm).2 other),
      hIssued⟩
  refine hSame.moves hInv ?_ ?_
  · intro other hRecorded
    unfold Recorded at hRecorded
    rw [h.retained_ne fun hName => Ne.symm (hLedger hName.symm other)] at hRecorded
    exact Or.inl hRecorded
  · rw [h.purges]
    exact fun _ h => Or.inl h

theorem moves_note (hInv : Inv bucket object s) {message : Message}
    (h : Appended Ledger.stream message s t) (hIssued : t.issued = s.issued)
    (hSubject : message.subject = Ledger.ledgerSubject (objectWritebackLedgerKey bucket object own))
    (hDead : MarkerDead bucket object own s) :
    Moves bucket object (some own) s t ∧ MarkerDead bucket object own t := by
  have hSame : SameReads bucket object s t :=
    ⟨h.retained_ne fun hName => absurd hName.symm ledger_ne_objectStream,
      fun other => h.retained_ne fun hName => absurd hName.symm ledger_ne_objectStream,
      hIssued⟩
  refine ⟨hSame.moves hInv ?_ ?_, hSame.markerDead hDead⟩
  · intro other hRecorded
    by_cases hOther : other = own
    · subst hOther
      exact Or.inr ⟨rfl, hDead⟩
    · unfold Recorded at hRecorded
      rw [h.retained_ne fun _ => ?_] at hRecorded
      · exact Or.inl hRecorded
      · rw [hSubject]
        exact fun hSame => hOther (ledgerSubject_injective hSame)
  · rw [h.purges]
    exact fun _ h => Or.inl h

theorem sameReads_purged {name subject : Str} (h : Purged name subject s t)
    (hObject : name = objectStreamName bucket → subject ≠ objectMetaSubject bucket object ∧
      ∀ own, subject ≠ objectWritebackMarkerSubject bucket own) : SameReads bucket object s t where
  metas := h.retained_ne fun hName => Ne.symm (hObject hName.symm).1
  markers other := h.retained_ne fun hName => Ne.symm ((hObject hName.symm).2 other)
  issued := h.issued

/-- Purging the chunks of a nuid the object is not stored under. -/
theorem moves_purge [Nuid] (hInv : Inv bucket object s) {nuid : Str}
    (hNot : ¬ Live (metas bucket object s) nuid) :
    SameReads bucket object s (Broker.handle s (.purgeStreamSubject (objectStreamName bucket)
        (objectChunkSubject bucket nuid))).2 ∧
      Moves bucket object none s (Broker.handle s (.purgeStreamSubject (objectStreamName bucket)
        (objectChunkSubject bucket nuid))).2 := by
  rcases purge_effect s (objectStreamName bucket) (objectChunkSubject bucket nuid) with
    h | ⟨stream, hStream, hPurged, hPurges⟩
  · rw [h]
    exact ⟨sameReads_quiet .same, moves_quiet hInv .same⟩
  · have hSame : SameReads bucket object s _ :=
      sameReads_purged hPurged fun _ => ⟨chunk_ne_meta nuid, chunk_ne_marker nuid⟩
    refine ⟨hSame, hSame.moves hInv ?_ ?_⟩
    · intro other hRecorded
      exact Or.inl (recorded_of_retained (fun subject =>
        hPurged.retained_ne fun hName => absurd hName ledger_ne_objectStream) hRecorded)
    · rw [hPurges]
      intro purge hMem
      rcases List.mem_cons.mp hMem with rfl | hMem
      · refine Or.inr fun _ other hLive hSubject => hNot ?_
        have hMetas : metas bucket object s = stream.messages.filter
            fun message => message.subject == objectMetaSubject bucket object :=
          Broker.retained_of_some hStream _
        rw [hMetas, chunkSubject_injective hSubject]
        exact hLive
      · exact Or.inl hMem

theorem moves_mark (hInv : Inv bucket object s) {marker : Message}
    {identity : ObjectWritebackIdentity}
    (h : Appended (objectStreamName bucket) marker s t) (hIssued : t.issued = s.issued)
    (hSubject : marker.subject = objectWritebackMarkerSubject bucket own)
    (hPayload : marker.payload = .objectIdentity identity)
    (hPrevious : ∀ nuid, identity.previousNuid = some nuid → nuid ∈ s.issued)
    (hUnstored : Unstored bucket object own s) (hUnrecorded : ¬ Recorded bucket object own s) :
    Moves bucket object (some own) s t ∧ Unstored bucket object own t ∧
      ¬ Recorded bucket object own t := by
  have hMetas : metas bucket object t = metas bucket object s := by
    refine h.retained_ne fun _ => ?_
    rw [hSubject]
    exact Ne.symm (marker_ne_meta own)
  have hRecorded : ∀ other, Recorded bucket object other t → Recorded bucket object other s :=
    fun other => recorded_of_retained fun subject =>
      h.retained_ne fun hName => absurd hName ledger_ne_objectStream
  refine ⟨moves_marker hInv hMetas ?_ hPayload hPrevious ?_ hRecorded hIssued h.purges
    hUnstored hUnrecorded, ?_, fun hRec => hUnrecorded (hRecorded own hRec)⟩
  · unfold markers
    rw [← hSubject]
    exact fun _ hMem => h.mem_retained hMem
  · intro other hOther
    refine h.retained_ne fun _ => ?_
    rw [hSubject]
    exact fun hSame => hOther (markerSubject_injective hSame)
  · intro message hMem
    rw [hMetas] at hMem
    exact hUnstored message hMem

theorem replaces_of_appended {message : Message} {info : ObjectInfo}
    (h : Appended (objectStreamName bucket) message s t)
    (hSubject : message.subject = objectMetaSubject bucket object)
    (hRollup : message.headers.get natsRollup = some rollupSubject)
    (hPayload : message.payload = .objectInfo info)
    (hIssued : ∀ nuid ∈ s.issued, nuid ∈ t.issued) :
    Replaces bucket object message info s t where
  metas := by
    unfold metas
    rw [← hSubject]
    exact h.retained_rollup hRollup
  payload := hPayload
  markers other := by
    refine h.retained_ne fun _ => ?_
    rw [hSubject]
    exact marker_ne_meta other
  recorded other := recorded_of_retained fun subject =>
    h.retained_ne fun hName => absurd hName ledger_ne_objectStream
  purges := h.purges
  issued := hIssued

/-- No nuid is live after a tombstone. -/
theorem Replaces.not_live {message : Message} {info : ObjectInfo}
    (h : Replaces bucket object message info s t) (hDeleted : info.deleted = true) (nuid : Str) :
    ¬ Live (Objects.metas bucket object t) nuid := by
  rintro ⟨found, foundInfo, hMeta, -⟩
  have hLive := hMeta.2.2
  rw [h.live_info hMeta, hDeleted] at hLive
  cases hLive

theorem Replaces.tombstone {message : Message} {info : ObjectInfo}
    (h : Replaces bucket object message info s t) (hInv : Inv bucket object s)
    (hDeleted : info.deleted = true) (hIssued : info.nuid ∈ s.issued) :
    Moves bucket object key s t := by
  have hAbsurd : info.deleted = false → False := by
    intro hLive
    rw [hDeleted] at hLive
    cases hLive
  exact h.moves hInv (h.issued _ hIssued) (fun hLive => (hAbsurd hLive).elim)
    (fun hLive => (hAbsurd hLive).elim) fun hLive => (hAbsurd hLive).elim

/-- After a put, every other nuid is dead. -/
theorem Replaces.dead_of_fresh {message : Message} {info : ObjectInfo}
    (h : Replaces bucket object message info s t) (hFresh : info.nuid ∉ s.issued) {nuid : Str}
    (hMem : nuid ∈ s.issued) : Dead bucket object t nuid := by
  refine ⟨h.issued nuid hMem, ?_⟩
  rintro ⟨found, foundInfo, hMeta, rfl⟩
  rw [h.live_info hMeta] at hMem
  exact hFresh hMem

theorem Replaces.markerDead_of_fresh {message : Message} {info : ObjectInfo}
    (h : Replaces bucket object message info s t) (hInv : Inv bucket object s)
    (hFresh : info.nuid ∉ s.issued) (other : Str) : MarkerDead bucket object other t := by
  intro marker hLast identity hPayload nuid hNuid _
  rw [h.markers] at hLast
  exact h.dead_of_fresh hFresh (hInv.marked other marker (List.mem_of_getLast? hLast) identity
    hPayload nuid hNuid)

theorem appliedIdentity_plain {info : ObjectInfo} (other : Str)
    (h : ∀ identity, info.description = some (.identity identity) →
      identity.idempotencyKey ≠ other) : appliedIdentity info other = none := by
  rcases hInfo : info.description with - | ⟨text⟩ | ⟨identity⟩
  · simp [appliedIdentity, hInfo]
  · simp [appliedIdentity, hInfo, objectWritebackIdentityFromDescription]
  · simp [appliedIdentity, hInfo, objectWritebackIdentityFromDescription, h identity hInfo]

theorem Replaces.fresh {message : Message} {info : ObjectInfo}
    (h : Replaces bucket object message info s t) (hInv : Inv bucket object s)
    (hFresh : info.nuid ∉ s.issued) (hIssued : info.nuid ∈ t.issued)
    (hDescription : ∀ identity, info.description = some (.identity identity) →
      key = some identity.idempotencyKey ∧
        ∀ nuid, identity.previousNuid = some nuid → nuid ∈ s.issued) :
    Moves bucket object key s t := by
  refine h.moves hInv hIssued (fun _ hMem => absurd hMem hFresh) ?_ ?_
  · intro _ identity hIdentity
    refine ⟨?_, h.markerDead_of_fresh hInv hFresh _⟩
    intro nuid hNuid
    exact h.dead_of_fresh hFresh ((hDescription identity hIdentity).2 nuid hNuid)
  · intro _ other hOther _
    refine appliedIdentity_plain other ?_
    rintro identity hIdentity rfl
    exact hOther (hDescription identity hIdentity).1

/-- A metadata-only update keeps the nuid. -/
theorem Replaces.update {message last : Message} {info updated : ObjectInfo}
    (h : Replaces bucket object message updated s t) (hInv : Inv bucket object s)
    (hLast : (Objects.metas bucket object s).getLast? = some last)
    (hInfo : last.payload = .objectInfo info) (hNuid : updated.nuid = info.nuid)
    (hDeleted : updated.deleted = info.deleted)
    (hDescription : updated.description = info.description ∨
      ∀ identity, updated.description ≠ some (.identity identity)) :
    Moves bucket object key s t := by
  have hMem := List.mem_of_getLast? hLast
  have hIssued : updated.nuid ∈ s.issued := by
    rw [hNuid]
    exact hInv.issued last hMem info hInfo
  have hLive : updated.deleted = false → updated.nuid ∈ s.issued →
      Live (Objects.metas bucket object s) updated.nuid := by
    intro hNot _
    rw [hDeleted] at hNot
    exact ⟨last, info, ⟨hLast, hInfo, hNot⟩, hNuid.symm⟩
  refine h.moves hInv (h.issued _ hIssued) hLive ?_ ?_
  · intro hNot identity hIdentity
    rw [hDeleted] at hNot
    rcases hDescription with hSame | hPlain
    · rw [hSame] at hIdentity
      obtain ⟨hPrevious, hMarker⟩ := hInv.put last hMem info hInfo hNot identity hIdentity
      exact ⟨fun nuid hNuid => h.dead hLive (hPrevious nuid hNuid),
        hMarker.evolves (h.markers _) fun _ => h.dead hLive⟩
    · exact absurd hIdentity (hPlain identity)
  · intro hNot other _ hUnstored
    rw [hDeleted] at hNot
    rcases hDescription with hSame | hPlain
    · have hNone := hUnstored last hMem info hInfo hNot
      unfold appliedIdentity at hNone ⊢
      rw [hSame]
      exact hNone
    · exact appliedIdentity_plain other fun identity hIdentity => absurd hIdentity (hPlain identity)

/-- Storing the object under a new nuid. -/
theorem putObject_effect [Nuid] (hFresh : ∀ issued, Nuid.next issued ∉ issued)
    (hInv : Inv bucket object s) (description : Option ObjectDescription) (bytes : Bytes)
    (hDescription : ∀ identity, description = some (.identity identity) →
      key = some identity.idempotencyKey ∧
        ∀ nuid, identity.previousNuid = some nuid → nuid ∈ s.issued) :
    (∃ err, s.putObject bucket object description bytes = (.error err, s)) ∨
      ∃ t, s.putObject bucket object description bytes = (.ok (), t) ∧
        Moves bucket object key s t ∧ (∀ nuid ∈ s.issued, Dead bucket object t nuid) ∧
          ∀ other, MarkerDead bucket object other t := by
  unfold Broker.putObject
  cases hStream : s.streams (objectStreamName bucket) with
  | none => exact Or.inl ⟨_, rfl⟩
  | some stream =>
      refine Or.inr ⟨_, rfl, ?_⟩
      have hAppended : Appended (objectStreamName bucket)
          ⟨objectMetaSubject bucket object, stream.lastSequence + 1,
            [(natsRollup, rollupSubject)], .objectInfo ⟨object, description,
              Nuid.next s.issued, bytes.length, 1, false⟩⟩ s
          { s.setStream (objectStreamName bucket) (stream.append
              (objectMetaSubject bucket object) [(natsRollup, rollupSubject)]
              (.objectInfo ⟨object, description, Nuid.next s.issued, bytes.length, 1, false⟩))
            with issued := Nuid.next s.issued :: s.issued } :=
        ⟨⟨stream, hStream, rfl, rfl⟩, rfl⟩
      have hReplaces := replaces_of_appended hAppended rfl rollup_get rfl
        fun _ => List.mem_cons_of_mem _
      exact ⟨hReplaces.fresh hInv (hFresh s.issued) List.mem_cons_self hDescription,
        fun nuid => hReplaces.dead_of_fresh (hFresh s.issued),
        hReplaces.markerDead_of_fresh hInv (hFresh s.issued)⟩

end Changes

end Objects

end EventFs.Transport.Nats
