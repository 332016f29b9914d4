import EventFs.Library.Pool
import EventFs.Transport.Nats.ObjectState
import EventFs.Transport.Nats.QuietPrograms

/-!
# Purges of the chunks of an object

Puts and conditional deletes of one object run side by side, any of them stopping or being
refused at any call, while other clients put, update and delete the object. A purge is
decided from the sequence of the metadata; the chunks belong to its nuid. The two come
apart when a metadata-only update moves the sequence and keeps the nuid, and as long as no
purge is decided from reading such metadata, no live chunks are purged.
-/

namespace EventFs.Transport.Nats.Objects

open Library Protocol Program

variable (bucket object : Str)

/-! ## Other clients -/

/-- What other clients do. Those that write through the code here are jobs of their own, so
the others store no write-back identity. -/
inductive OtherClient [Nuid] : Broker → Broker → Prop
  | put {broker : Broker} (description : Option ObjectDescription) (bytes : Bytes)
      (hPlain : ∀ identity, description ≠ some (.identity identity)) :
      OtherClient broker (broker.putObject bucket object description bytes).2
  | update {broker : Broker} {stream : Stream} {message : Message} {info : ObjectInfo}
      (updated : ObjectInfo) (hStream : broker.streams (objectStreamName bucket) = some stream)
      (hLast : stream.lastMessage (objectMetaSubject bucket object) = some message)
      (hInfo : message.payload = .objectInfo info) (hNuid : updated.nuid = info.nuid)
      (hDeleted : updated.deleted = info.deleted)
      (hDescription : updated.description = info.description ∨
        ∀ identity, updated.description ≠ some (.identity identity)) :
      OtherClient broker (broker.setStream (objectStreamName bucket)
        (stream.append (objectMetaSubject bucket object) [(natsRollup, rollupSubject)]
          (.objectInfo updated)))
  | delete {broker : Broker} {stream : Stream} {message : Message} {info : ObjectInfo}
      (hStream : broker.streams (objectStreamName bucket) = some stream)
      (hLast : stream.lastMessage (objectMetaSubject bucket object) = some message)
      (hInfo : message.payload = .objectInfo info) :
      OtherClient broker (broker.setStream (objectStreamName bucket)
        (stream.append (objectMetaSubject bucket object) [(natsRollup, rollupSubject)]
          (.objectInfo { info with chunks := 0, size := 0, deleted := true })))
  | publish {broker : Broker} {stream : Stream} (name subject : Str) (headers : Headers)
      (payload : Payload) (hStream : broker.streams name = some stream)
      (hObject : name = objectStreamName bucket → subject ≠ objectMetaSubject bucket object ∧
        ∀ key, subject ≠ objectWritebackMarkerSubject bucket key)
      (hLedger : name = Ledger.stream → ∀ key,
        subject ≠ Ledger.ledgerSubject (objectWritebackLedgerKey bucket object key)) :
      OtherClient broker (broker.setStream name (stream.append subject headers payload))
  | purge {broker : Broker} {stream : Stream} (nuid : Str)
      (hStream : broker.streams (objectStreamName bucket) = some stream) :
      OtherClient broker (broker.setStream (objectStreamName bucket)
        (stream.without (objectChunkSubject bucket nuid)))
  | create {broker : Broker} (name : Str) (config : StreamConfig)
      (hNone : broker.streams name = none) :
      OtherClient broker (broker.setStream name (.create config))

/-! ## Jobs -/

inductive Job
  | putIdempotent (idempotencyKey : Str) (bytes : Bytes)
  | putApplied (idempotencyKey : Str)
  | deleteIfSequence (expectedSequence : Nat) (expectedNuid : Str)
  | deleteIfSequenceApplied (expectedSequence : Nat) (expectedNuid : Str)
deriving DecidableEq

namespace Job

def key : Job → Option Str
  | putIdempotent idempotencyKey _ | putApplied idempotencyKey => some idempotencyKey
  | deleteIfSequence _ _ | deleteIfSequenceApplied _ _ => none

/-- A generation that a delete names was read from the bucket. -/
def Known : Job → Broker → Prop
  | deleteIfSequence _ nuid, broker | deleteIfSequenceApplied _ nuid, broker =>
      nuid = [] ∨ nuid ∈ broker.issued
  | _, _ => True

def ended {α : Type} (p : NatsM α) : Program nats Unit := p.run >>= fun _ => pure ()

def program (config : NatsStorageConfig) : Job → Program nats Unit
  | putIdempotent idempotencyKey bytes =>
      ended (Objects.putIdempotent config bucket object bytes idempotencyKey)
  | putApplied idempotencyKey => ended (Objects.putApplied config bucket object idempotencyKey)
  | deleteIfSequence sequence nuid =>
      ended (Objects.deleteIfSequence config bucket object sequence nuid)
  | deleteIfSequenceApplied sequence nuid =>
      ended (Objects.deleteIfSequenceApplied bucket object sequence nuid)

end Job

/-- The live metadata does not carry this nuid under a sequence newer than the marker of the
put. -/
def PutCalm (key nuid : Str) (broker : Broker) : Prop :=
  ∀ message info, LiveMeta (metas bucket object broker) message info → info.nuid = nuid →
    ∀ marker, (markers bucket key broker).getLast? = some marker →
      message.sequence ≤ marker.sequence

/-- The live metadata does not carry this nuid under another sequence than the expected
one. -/
def DeleteCalm (expectedSequence : Nat) (nuid : Str) (broker : Broker) : Prop :=
  ∀ message info, LiveMeta (metas bucket object broker) message info → info.nuid = nuid →
    message.sequence = expectedSequence

def Job.Calm : Job → Str → Broker → Prop
  | .putIdempotent key _ | .putApplied key => PutCalm bucket object key
  | .deleteIfSequence sequence _ | .deleteIfSequenceApplied sequence _ =>
      DeleteCalm bucket object sequence

/-- A read of the metadata is followed by a purge of a nuid only where `calm` holds of it. -/
def calmReads (calm : Str → Broker → Prop) : Permit nats Broker := fun s c next =>
  c = .getLastMessage (objectStreamName bucket) (objectMetaSubject bucket object) →
    ∀ nuid, next = .purgeStreamSubject (objectStreamName bucket)
      (objectChunkSubject bucket nuid) → calm nuid s

/-- The system: any number of jobs, those under one idempotency key one at a time. -/
def rules [Nuid] (config : NatsStorageConfig) (calm : Job → Str → Broker → Prop) :
    Pool.Rules Job nats Broker where
  program := Job.program bucket object config
  admits := Job.Known
  behaviour := faultyBroker
  permits job := calmReads bucket object (calm job)
  compatible left right := ∀ key, left.key = some key → right.key ≠ some key
  other := OtherClient bucket object

/-! ## Programs that only read -/

section Quiet

variable {bucket object}

theorem quiet_liftResult {α : Type} (result : TransportResult α) : IsQuiet (liftResult result) := by
  cases result with
  | ok a => exact .pure a
  | error err => exact .throw err

theorem quiet_objectStore : IsQuiet (objectStore bucket) := by
  refine .bind (.attempt rfl) ?_
  intro reply
  cases reply with
  | ok value => exact .pure _
  | error err => exact .throw _

theorem quiet_ensureBucket (config : NatsStorageConfig) : IsQuiet (ensureBucket config bucket) := by
  refine .inspect quiet_objectStore ?_
  intro result
  match result with
  | .ok _ => exact .pure _
  | .error .notFound =>
      refine .inspect (.retryIo (.perform rfl) config.retries) ?_
      intro made
      cases made with
      | ok _ => exact .pure _
      | error err => exact .orExisting (.pure _) err
  | .error (.io _) | .error (.json _) | .error (.invalid _) | .error (.protocol _)
  | .error .queueFull | .error (.queueLocked _) => exact .throw _

theorem quiet_objectStoreOrCreate (config : NatsStorageConfig) :
    IsQuiet (objectStoreOrCreate config bucket) := by
  refine .inspect quiet_objectStore ?_
  intro result
  match result with
  | .ok _ => exact .pure _
  | .error .notFound => exact .bind (quiet_ensureBucket config) fun _ => .perform rfl
  | .error (.io _) | .error (.json _) | .error (.invalid _) | .error (.protocol _)
  | .error .queueFull | .error (.queueLocked _) => exact .throw _

theorem quiet_metadataMessage : IsQuiet (metadataMessage bucket object) := by
  refine .bind (.lookup rfl) ?_
  intro found
  cases found with
  | none => exact .pure _
  | some message => exact .bind (quiet_liftResult _) fun _ => .pure _

theorem quiet_applyMarker (key : Str) : IsQuiet (applyMarker bucket key) := by
  refine .bind (.lookup rfl) ?_
  intro found
  cases found with
  | none => exact .pure _
  | some message => exact .bind (quiet_liftResult _) fun _ => .pure _

theorem quiet_hasApplied (ledgerKey : Str) : IsQuiet (Ledger.hasApplied ledgerKey) := by
  refine .bind (.lookup rfl) ?_
  intro found
  cases found with
  | none => exact .pure _
  | some message => exact .pure _

theorem quiet_currentIdentity (key : Str) : IsQuiet (currentIdentity bucket object key) := by
  refine .inspect quiet_objectStore ?_
  intro result
  match result with
  | .error .notFound => exact .pure _
  | .ok _ =>
      refine .bind quiet_metadataMessage ?_
      intro found
      cases found with
      | none => exact .pure _
      | some entry => exact .pure _
  | .error (.io _) | .error (.json _) | .error (.invalid _) | .error (.protocol _)
  | .error .queueFull | .error (.queueLocked _) => exact .throw _

theorem quiet_targetSequenceAfterApplyMarker (key : Str) :
    IsQuiet (targetSequenceAfterApplyMarker bucket object key) := by
  refine .bind (quiet_applyMarker key) ?_
  intro marker
  cases marker with
  | none => exact .pure _
  | some marker =>
      refine .bind (.lookup rfl) ?_
      intro found
      cases found with
      | none => exact .pure _
      | some message =>
          by_cases hLater : marker.sequence < message.sequence
          · simp only [hLater, if_true]
            exact .pure _
          · simp only [hLater]
            exact .pure _

theorem quiet_ensureMarkerSubject : IsQuiet (ensureMarkerSubject bucket) := by
  refine .bind (.streamInfo _) ?_
  intro info
  by_cases hAny : (info.subjects.any fun candidate =>
    subjectMatches candidate (objectWritebackMarkerSubjectFilter bucket)) = true
  · simp only [hAny, if_true]
    exact .pure _
  · simp only [hAny]
    exact .perform rfl

end Quiet

/-! ## Facts a job relies on -/

/-- What the other parties do, as a job under this key sees it. -/
def Rely (own : Option Str) (s t : Broker) : Prop :=
  Inv bucket object s → Inv bucket object t ∧ Evolves bucket object s t ∧
    ∀ key, own = some key → KeepsKey bucket object key s t

/-- A fact the other parties do not undo. -/
structure Fact (own : Option Str) where
  holds : Broker → Prop
  kept : ∀ {s t : Broker}, Evolves bucket object s t →
    (∀ key, own = some key → KeepsKey bucket object key s t) → holds s → holds t

section Facts

variable {bucket object} {own : Option Str} {key : Str}

def At (fact : Fact bucket object own) (broker : Broker) : Prop :=
  Inv bucket object broker ∧ fact.holds broker

theorem stable_at (fact : Fact bucket object own) : Stable (Rely bucket object own) (At fact) := by
  rintro s t hRely ⟨hInv, hFact⟩
  obtain ⟨hInv', hEvolves, hKeeps⟩ := hRely hInv
  exact ⟨hInv', fact.kept hEvolves hKeeps hFact⟩

theorem Fact.moves (fact : Fact bucket object own) {s t : Broker}
    (h : Moves bucket object none s t) (hFact : fact.holds s) : fact.holds t :=
  fact.kept h.evolves (fun other _ => h.keeps other (by simp)) hFact

def Fact.truth : Fact bucket object own := ⟨fun _ => True, fun _ _ h => h⟩

def Fact.never : Fact bucket object own := ⟨fun _ => False, fun _ _ h => h⟩

def Fact.and (left right : Fact bucket object own) : Fact bucket object own :=
  ⟨fun broker => left.holds broker ∧ right.holds broker,
    fun hEvolves hKeeps h => ⟨left.kept hEvolves hKeeps h.1, right.kept hEvolves hKeeps h.2⟩⟩

/-- One fact for a result, another for a failure. -/
def Fact.either {ε α : Type} (done : α → Fact bucket object own) (failed : Fact bucket object own) :
    Except ε α → Fact bucket object own
  | .ok a => done a
  | .error _ => failed

def Fact.optional {α : Type} (found : α → Fact bucket object own)
    (missing : Fact bucket object own) :
    Option α → Fact bucket object own
  | some a => found a
  | none => missing

/-- These nuids are dead. -/
def Fact.dead (nuids : Str → Prop) : Fact bucket object own :=
  ⟨fun broker => ∀ nuid, nuids nuid → Dead bucket object broker nuid,
    fun hEvolves _ h nuid hNuid => hEvolves.dead nuid (h nuid hNuid)⟩

/-- These nuids have been issued. -/
def Fact.issued (nuids : Str → Prop) : Fact bucket object own :=
  ⟨fun broker => ∀ nuid, nuids nuid → nuid ∈ broker.issued,
    fun hEvolves _ h nuid hNuid => hEvolves.issued nuid (h nuid hNuid)⟩

/-- The nuid a delete was given. -/
def Fact.known (nuid : Str) : Fact bucket object own :=
  ⟨fun broker => nuid = [] ∨ nuid ∈ broker.issued,
    fun hEvolves _ h => h.imp id (hEvolves.issued nuid)⟩

def Fact.markerDead (hOwn : own = some key) : Fact bucket object own :=
  ⟨MarkerDead bucket object key,
    fun hEvolves hKeeps h => h.evolves (hKeeps key hOwn).markers hEvolves.dead⟩

def Fact.unstored (hOwn : own = some key) : Fact bucket object own :=
  ⟨Unstored bucket object key, fun _ hKeeps h => (hKeeps key hOwn).unstored h⟩

def Fact.unrecorded (hOwn : own = some key) : Fact bucket object own :=
  ⟨fun broker => ¬ Recorded bucket object key broker,
    fun _ hKeeps h hRecorded => h ((hKeeps key hOwn).recorded hRecorded)⟩

def Fact.lastMarker (hOwn : own = some key) (marker : Message) : Fact bucket object own :=
  ⟨fun broker => (markers bucket key broker).getLast? = some marker,
    fun _ hKeeps h => by rw [(hKeeps key hOwn).markers]; exact h⟩

/-- A marker that has been read is the last one of the key. -/
def Fact.marked (hOwn : own = some key) (marker : Option ObjectApplyMarker) :
    Fact bucket object own :=
  ⟨fun broker => ∀ found, marker = some found → ∃ message,
      (markers bucket key broker).getLast? = some message ∧
        message.payload = .objectIdentity found.identity ∧ message.sequence = found.sequence,
    fun _ hKeeps h => by rw [(hKeeps key hOwn).markers]; exact h⟩

/-- The put is stored under this identity: what it found before it is dead. -/
def Fact.applied (hOwn : own = some key) (identity : ObjectWritebackIdentity) :
    Fact bucket object own :=
  .and (.dead fun nuid => identity.previousNuid = some nuid) (.markerDead hOwn)

end Facts

/-! ## Specifications -/

section Specs

variable {bucket object} {α β : Type} [Nuid] {own : Option Str} {calm : Str → Broker → Prop}

/-- From a fact, the program ends in the fact its result stands for, and every call of it
is a step the other parties can live with. -/
def Spec (calm : Str → Broker → Prop) (before : Fact bucket object own) (p : NatsM α)
    (after : Except TransportError α → Fact bucket object own) : Prop :=
  ∀ s, At before s → Safe faultyBroker (calmReads bucket object calm) (Rely bucket object own)
    (Moves bucket object own) p.run (fun result => At (after result)) s

variable {before : Fact bucket object own}

theorem Spec.pure {a : α} {after : Except TransportError α → Fact bucket object own}
    (h : ∀ s, At before s → (after (.ok a)).holds s) : Spec calm before (Pure.pure a) after :=
  fun s hAt => ⟨hAt.1, h s hAt⟩

theorem Spec.throw {err : TransportError}
    {after : Except TransportError α → Fact bucket object own}
    (h : ∀ s, At before s → (after (.error err)).holds s) :
    Spec calm before (MonadExcept.throw err) after :=
  fun s hAt => ⟨hAt.1, h s hAt⟩

theorem Spec.inspect {p : NatsM α} {f : Except TransportError α → NatsM β}
    (between : Except TransportError α → Fact bucket object own)
    {after : Except TransportError β → Fact bucket object own}
    (hFirst : Spec calm before p between)
    (hSecond : ∀ result, Spec calm (between result) (f result) after) :
    Spec calm before (ExceptT.lift p.run >>= f) after := by
  intro s hAt
  rw [ExceptT.run_bind_lift]
  exact (hFirst s hAt).bind fun result t hResult => hSecond result t hResult

theorem Spec.bind {p : NatsM α} {f : α → NatsM β}
    (between : Except TransportError α → Fact bucket object own)
    {after : Except TransportError β → Fact bucket object own}
    (hFirst : Spec calm before p between)
    (hError : ∀ err s, At (between (.error err)) s → (after (.error err)).holds s)
    (hSecond : ∀ a, Spec calm (between (.ok a)) (f a) after) :
    Spec calm before (p >>= f) after := by
  intro s hAt
  refine (hFirst s hAt).bind ?_
  intro result t hResult
  cases result with
  | ok a => exact hSecond a t hResult
  | error err => exact ⟨hResult.1, hError err t hResult⟩

theorem Spec.weaken {p : NatsM α} {before' : Fact bucket object own}
    {after after' : Except TransportError α → Fact bucket object own}
    (h : Spec calm before p after) (hBefore : ∀ s, At before' s → before.holds s)
    (hAfter : ∀ result s, At (after result) s → (after' result).holds s) :
    Spec calm before' p after' := by
  intro s hAt
  exact (h s ⟨hAt.1, hBefore s hAt⟩).weaken fun result t hResult =>
    ⟨hResult.1, hAfter result t hResult⟩

/-- The state permits the call to be followed by the next call of this program. -/
def Permitted (bucket object : Str) (calm : Str → Broker → Prop) (call : NatsCall) (p : NatsM β)
    (s : Broker) : Prop :=
  ∀ next, p.run.first = some next → calmReads bucket object calm s call next

/-- One call and what is made of its reply. -/
theorem Spec.attempt_bind {call : NatsCall} {f : Except IoError call.Value → NatsM β}
    (between : Except IoError call.Value → Fact bucket object own)
    {after : Except TransportError β → Fact bucket object own}
    (hCall : ∀ s r t, At before s → faultyBroker s call r t →
      Permitted bucket object calm call (f r) s → Moves bucket object own s t ∧ (between r).holds t)
    (hRest : ∀ r, Spec calm (between r) (f r) after) :
    Spec calm before (Nats.attempt call >>= f) after := by
  intro s hAt
  show Safe _ _ _ _ (Program.call (I := nats) call fun reply => (f reply).run) _ s
  intro t hStar r u hStep hPermits
  have hAt' := (stable_at before).star hStar hAt
  obtain ⟨hMoves, hAfter⟩ := hCall t r u hAt' hStep hPermits
  exact ⟨hMoves, hRest r u ⟨hMoves.inv, hAfter⟩⟩

theorem Spec.attempt {call : NatsCall}
    {between : Except IoError call.Value → Fact bucket object own}
    (hCall : ∀ s r t, At before s → faultyBroker s call r t →
      Moves bucket object own s t ∧ (between r).holds t) :
    Spec calm before (Nats.attempt call) (.either between .never) := by
  rw [← bind_pure (Nats.attempt call)]
  exact .attempt_bind between (fun s r t hAt hStep _ => hCall s r t hAt hStep) fun r =>
    .pure fun _ h => h.2

/-- A call that stores nothing. What its reply says about the broker may be used. -/
theorem Spec.quietly_bind {call : NatsCall} (hQuiet : call.quiet = true)
    {f : Except IoError call.Value → NatsM β}
    (between : Except IoError call.Value → Fact bucket object own)
    {after : Except TransportError β → Fact bucket object own}
    (hReply : ∀ s, At before s →
      Permitted bucket object calm call (f (Broker.handle s call).1) s →
        (between (Broker.handle s call).1).holds s)
    (hFail : ∀ err s, err.isNotFound = false → At before s → (between (.error err)).holds s)
    (hRest : ∀ r, Spec calm (between r) (f r) after) :
    Spec calm before (Nats.attempt call >>= f) after := by
  refine .attempt_bind between ?_ hRest
  intro s r t hAt hCall hPermitted
  have hQuietly : Quiet s (Broker.handle s call).2 := handle_isQuiet hQuiet
  have hMoves : Moves bucket object none s (Broker.handle s call).2 := moves_quiet hAt.1 hQuietly
  rcases hCall.inv with ⟨rfl, rfl⟩ | ⟨⟨-, err, rfl, hErr⟩, rfl | ⟨-, rfl⟩⟩
  · exact ⟨moves_quiet hAt.1 hQuietly, Fact.moves _ hMoves (hReply s hAt hPermitted)⟩
  · exact ⟨moves_quiet hAt.1 .same, hFail err t hErr hAt⟩
  · exact ⟨moves_quiet hAt.1 hQuietly, Fact.moves _ hMoves (hFail err s hErr hAt)⟩

theorem Spec.quietly {call : NatsCall} (hQuiet : call.quiet = true)
    (between : Except IoError call.Value → Fact bucket object own)
    (hReply : ∀ s, At before s → (between (Broker.handle s call).1).holds s)
    (hFail : ∀ err s, err.isNotFound = false → At before s → (between (.error err)).holds s) :
    Spec calm before (Nats.attempt call) (.either between .never) := by
  rw [← bind_pure (Nats.attempt call)]
  exact .quietly_bind hQuiet between (fun s hAt _ => hReply s hAt) hFail fun r =>
    .pure fun _ h => h.2

/-- A call of which "not found" is an answer. -/
theorem Spec.lookup_bind {call : NatsCall} (hQuiet : call.quiet = true)
    {f : Option call.Value → NatsM β} (between : Option call.Value → Fact bucket object own)
    {after : Except TransportError β → Fact bucket object own}
    (hFound : ∀ s value, At before s → Permitted bucket object calm call (f (some value)) s →
      (Broker.handle s call).1 = .ok value → (between (some value)).holds s)
    (hMissing : ∀ s, At before s → (Broker.handle s call).1 = .error .notFound →
      (between none).holds s)
    (hError : ∀ err s, (after (.error err)).holds s)
    (hRest : ∀ found, Spec calm (between found) (f found) after) :
    Spec calm before (Nats.lookup call >>= f) after := by
  rw [Nats.lookup, LawfulMonad.bind_assoc]
  refine .quietly_bind hQuiet (byOutcome (fun value => between (some value))
    fun err => if err.isNotFound then between none else .truth) ?_ ?_ ?_
  · intro s hAt hPermitted
    cases hReply : (Broker.handle s call).1 with
    | ok value =>
        rw [hReply] at hPermitted
        exact hFound s value hAt hPermitted hReply
    | error err =>
        by_cases hErr : err.isNotFound = true
        · obtain rfl := handle_notFound hReply hErr
          exact hMissing s hAt hReply
        · simp only [byOutcome, hErr]
          trivial
  · intro err s hErr _
    simp only [byOutcome, hErr]
    trivial
  · intro reply
    cases reply with
    | ok value => exact hRest (some value)
    | error err =>
        by_cases hErr : err.isNotFound = true
        · simp only [byOutcome, hErr, if_true]
          exact hRest none
        · simp only [byOutcome, hErr]
          exact .throw fun s _ => hError _ s

theorem Spec.lookup {call : NatsCall} (hQuiet : call.quiet = true)
    (between : Option call.Value → Fact bucket object own)
    (hFound : ∀ s value, At before s → (Broker.handle s call).1 = .ok value →
      (between (some value)).holds s)
    (hMissing : ∀ s, At before s → (Broker.handle s call).1 = .error .notFound →
      (between none).holds s) :
    Spec calm before (Nats.lookup call) (.either between .truth) := by
  rw [← bind_pure (Nats.lookup call)]
  exact .lookup_bind hQuiet between (fun s value hAt _ => hFound s value hAt) hMissing
    (fun _ _ => trivial) fun _ => .pure fun _ h => h.2

theorem spec_of_quiet {p : NatsM α} (h : IsQuiet p) (fact : Fact bucket object own) :
    Spec calm fact p fun _ => fact := by
  intro s hAt
  refine Safe.calls h (stable_at fact) hAt ?_
  intro call t reply u hQuiet hAt' hStep
  have hQuietly : Quiet t (Broker.handle t call).2 := handle_isQuiet hQuiet
  have hMoves : Moves bucket object none t (Broker.handle t call).2 := moves_quiet hAt'.1 hQuietly
  rcases hStep.inv with ⟨-, rfl⟩ | ⟨-, rfl | ⟨-, rfl⟩⟩
  · exact ⟨moves_quiet hAt'.1 hQuietly, hMoves.inv, fact.moves hMoves hAt'.2⟩
  · exact ⟨moves_quiet hAt'.1 .same, hAt'⟩
  · exact ⟨moves_quiet hAt'.1 hQuietly, hMoves.inv, fact.moves hMoves hAt'.2⟩

/-- What a quiet program keeps still holds where its specification applies. -/
theorem Spec.frame {p : NatsM α} {after : Except TransportError α → Fact bucket object own}
    (h : Spec calm before p after) (hQuiet : IsQuiet p) (fact : Fact bucket object own) :
    Spec calm (before.and fact) p fun result => (after result).and fact := by
  rintro s ⟨hInv, hBefore, hFact⟩
  refine ((h s ⟨hInv, hBefore⟩).both (spec_of_quiet hQuiet fact s ⟨hInv, hFact⟩)).weaken ?_
  rintro result t ⟨hAfter, hKept⟩
  exact ⟨hAfter.1, hAfter.2, hKept.2⟩

/-! ### Purges and notes -/

theorem spec_purgeChunks {nuid : Str}
    (hDead : ∀ s, At before s → Dead bucket object s nuid) :
    Spec calm before (purgeChunks bucket nuid) fun _ => before := by
  have hCall : ∀ s, At before s → Moves bucket object none s (Broker.handle s
      (.purgeStreamSubject (objectStreamName bucket) (objectChunkSubject bucket nuid))).2 :=
    fun s hAt => (moves_purge hAt.1 (hDead s hAt).2).2
  refine .bind (fun _ => before) ?_ (fun _ _ h => h.2) fun _ => .pure fun _ h => h.2
  refine .bind (.either (fun _ => before) .never) (Spec.attempt ?_) (fun _ _ h => h.2.elim) ?_
  · intro s r t hAt hStep
    rcases hStep.inv with ⟨-, rfl⟩ | ⟨-, rfl | ⟨-, rfl⟩⟩
    · exact ⟨(hCall s hAt).anyKey, before.moves (hCall s hAt) hAt.2⟩
    · exact ⟨moves_quiet hAt.1 .same, hAt.2⟩
    · exact ⟨(hCall s hAt).anyKey, before.moves (hCall s hAt) hAt.2⟩
  · intro reply
    cases reply with
    | ok value => exact .pure fun _ h => h.2
    | error err =>
        by_cases hErr : err.isNotFound = true
        · simp only [hErr, if_true]
          exact .pure fun _ h => h.2
        · simp only [hErr]
          exact .throw fun _ h => h.2

theorem spec_purgeChunksIfKnown {nuid : Str}
    (hDead : ∀ s, At before s → nuid ≠ [] → Dead bucket object s nuid) :
    Spec calm before (purgeChunksIfKnown bucket nuid) fun _ => before := by
  unfold purgeChunksIfKnown
  by_cases hEmpty : nuid = []
  · simp only [hEmpty, List.isEmpty_nil, if_true]
    exact .pure fun _ h => h.2
  · have hNot : nuid.isEmpty = false := by simpa using hEmpty
    simp only [hNot]
    exact spec_purgeChunks fun s hAt => hDead s hAt hEmpty

/-- An operation, attempted again while it fails. -/
theorem Spec.retryIo {p : NatsM α} {done : α → Fact bucket object own}
    (h : Spec calm before p (.either done before)) (retries : Nat) :
    Spec calm before (Nats.retryIo p retries) (.either done before) := by
  induction retries with
  | zero => exact h
  | succ retries ih =>
      refine .inspect _ h ?_
      intro result
      cases result with
      | ok a => exact .pure fun _ h => h.2
      | error err => exact ih

theorem Spec.perform {call : NatsCall} {done : call.Value → Fact bucket object own}
    (hCall : ∀ s r t, At before s → faultyBroker s call r t → Moves bucket object own s t ∧
      (Fact.either done before r).holds t) :
    Spec calm before (Nats.perform call) (.either done before) := by
  refine .bind (.either (.either done before) .never)
    (Spec.attempt hCall) (fun _ _ h => h.2.elim) ?_
  intro reply
  cases reply with
  | ok value => exact .pure fun _ h => h.2
  | error err => exact .throw fun _ h => h.2

/-- A publish and its retries. An attempt may have been stored without being acknowledged, so
what held before the publish still has to hold after it. -/
theorem Spec.retryPublish {stream subject : Str} {headers : Headers} {payload : Payload}
    {options : PublishOptions} (done : Fact bucket object own)
    (hStored : ∀ s t sequence, At before s → t.issued = s.issued →
      Appended stream ⟨subject, sequence, headers, payload⟩ s t →
        Moves bucket object own s t ∧ before.holds t ∧ done.holds t)
    (hDuplicate : options.id = none ∨ ∀ s, At before s → done.holds s) (retries : Nat) :
    Spec calm before (Nats.retryPublish retries stream subject headers payload options)
      (.either (fun _ => done) before) := by
  refine .bind (fun _ => before) (spec_of_quiet (.perform rfl) before) (fun _ _ h => h.2) fun _ =>
    .retryIo (.perform ?_) retries
  intro s r t hAt hStep
  have hEffect : Moves bucket object own s (s.publish stream subject headers payload options).2 ∧
      before.holds (s.publish stream subject headers payload options).2 := by
    rcases publish_effect s stream subject headers payload options with
      hSame | ⟨hIssued, sequence, hAppended⟩
    · rw [hSame]
      exact ⟨moves_quiet hAt.1 .same, hAt.2⟩
    · obtain ⟨hMoves, hBefore, -⟩ := hStored _ _ sequence hAt hIssued hAppended
      exact ⟨hMoves, hBefore⟩
  rcases hStep.inv with ⟨rfl, rfl⟩ | ⟨⟨-, err, rfl, -⟩, rfl | ⟨-, rfl⟩⟩
  · refine ⟨hEffect.1, ?_⟩
    show (Fact.either (fun _ => done) before
      (s.publish stream subject headers payload options).1).holds
      (s.publish stream subject headers payload options).2
    rcases publish_cases s stream subject headers payload options with
      ⟨err, h, -⟩ | ⟨sequence, hFound, h⟩ | ⟨found, hStream, -, h⟩
    · rw [h]
      exact hAt.2
    · rw [h]
      rcases hDuplicate with hNone | hDone
      · rw [hNone] at hFound
        cases hFound
      · exact hDone s hAt
    · rw [h]
      refine (hStored s _ (found.lastSequence + 1) hAt ?_ ?_).2.2
      · rfl
      · exact ⟨⟨found, hStream, rfl, rfl⟩, rfl⟩
  · exact ⟨moves_quiet hAt.1 .same, hAt.2⟩
  · exact hEffect

theorem spec_recordApplied (config : NatsStorageConfig) {key : Str} (hOwn : own = some key) :
    Spec calm (.markerDead hOwn : Fact bucket object own)
      (Ledger.recordApplied config (objectWritebackLedgerKey bucket object key))
      fun _ => .markerDead hOwn := by
  refine .bind (fun _ => .markerDead hOwn) (spec_of_quiet (.ensureStream config) _)
    (fun _ _ h => h.2) fun _ => ?_
  refine .bind (.either (fun _ => .markerDead hOwn) (.markerDead hOwn)) ?_ (fun _ _ h => h.2)
    fun _ => .pure fun _ h => h.2
  refine Spec.retryPublish _ ?_ (Or.inr fun _ h => h.2) config.retries
  intro s t sequence hAt hIssued hAppended
  obtain ⟨hMoves, hDead⟩ := moves_note hAt.1 hAppended hIssued rfl hAt.2
  exact ⟨hOwn ▸ hMoves, hDead, hDead⟩

/-! ### Reading metadata and markers -/

variable {key : Str}

theorem spec_liftResult {result : TransportResult α} (done : α → Fact bucket object own)
    (h : ∀ s a, At before s → result = .ok a → (done a).holds s) :
    Spec calm before (liftResult result) (.either done .truth) := by
  cases result with
  | ok a => exact .pure fun s hAt => h s a hAt rfl
  | error err => exact .throw fun _ _ => trivial

omit [Nuid] in
theorem identityFromMarker_ok {payload : Payload} {identity : ObjectWritebackIdentity}
    (h : objectWritebackIdentityFromMarker payload key = .ok identity) :
    payload = .objectIdentity identity := by
  unfold objectWritebackIdentityFromMarker at h
  split at h
  · split at h
    · cases h
      rfl
    · cases h
  · cases h

omit [Nuid] in
theorem infoFromPayload_ok {payload : Payload} {info : ObjectInfo}
    (h : objectInfoFromPayload payload = .ok info) : payload = .objectInfo info := by
  unfold objectInfoFromPayload at h
  split at h
  · cases h
    rfl
  · cases h

theorem spec_applyMarker (hOwn : own = some key) :
    Spec calm .truth (applyMarker bucket key)
      (.either (.marked hOwn) .truth : _ → Fact bucket object own) := by
  refine .bind _ (Spec.lookup rfl (fun
    | some message => .lastMarker hOwn message
    | none => .truth) ?_ (fun _ _ _ => trivial)) (fun _ _ _ => trivial) ?_
  · intro s message _ hFound
    exact Broker.last_ok hFound
  · intro found
    cases found with
    | none => exact .pure fun _ _ _ hNone => by cases hNone
    | some message =>
        refine .bind _ (spec_liftResult (fun identity =>
          .marked hOwn (some ⟨message.sequence, identity⟩)) ?_) (fun _ _ _ => trivial)
          fun _ => .pure fun _ h => h.2
        rintro s identity ⟨-, hLast⟩ hIdentity found hSome
        cases hSome
        exact ⟨message, hLast, identityFromMarker_ok hIdentity, rfl⟩

theorem spec_hasApplied (hOwn : own = some key) :
    Spec calm .truth (Ledger.hasApplied (objectWritebackLedgerKey bucket object key))
      (.either (fun applied => if applied then .markerDead hOwn else .unrecorded hOwn) .truth :
        _ → Fact bucket object own) := by
  refine .bind _ (Spec.lookup rfl (fun
    | some message =>
        if Ledger.ledgerPayloadMatches (objectWritebackLedgerKey bucket object key)
          message.payload then .markerDead hOwn else .unrecorded hOwn
    | none => .unrecorded hOwn) ?_ ?_) (fun _ _ _ => trivial) ?_
  · intro s message hAt hFound
    have hLast := Broker.last_ok hFound
    by_cases hMatches : Ledger.ledgerPayloadMatches (objectWritebackLedgerKey bucket object key)
      message.payload = true
    · simp only [hMatches, if_true]
      exact hAt.1.recorded key ⟨message, hLast, hMatches⟩
    · simp only [hMatches]
      rintro ⟨found, hFound', hMatches'⟩
      rw [hLast] at hFound'
      cases hFound'
      exact hMatches hMatches'
  · intro s _ hMissing
    rintro ⟨found, hFound, -⟩
    rw [Broker.last_notFound hMissing] at hFound
    cases hFound
  · intro found
    cases found with
    | none => exact .pure fun _ h => h.2
    | some message => exact .pure fun _ h => h.2

/-- An assertion for the payloads that hold the metadata of an object. -/
def byInfo {φ : Type} (info : ObjectInfo → φ) (other : φ) : Payload → φ
  | .objectInfo found => info found
  | _ => other

theorem spec_metadata_bind {f : Option (ObjectInfo × Nat) → NatsM β}
    (between : Option (ObjectInfo × Nat) → Fact bucket object own)
    {after : Except TransportError β → Fact bucket object own}
    (hFound : ∀ s message info, At before s →
      Permitted bucket object calm (.getLastMessage (objectStreamName bucket)
        (objectMetaSubject bucket object)) (f (some (info, message.sequence))) s →
      (metas bucket object s).getLast? = some message → message.payload = .objectInfo info →
        (between (some (info, message.sequence))).holds s)
    (hMissing : ∀ s, At before s → (metas bucket object s).getLast? = none →
      (between none).holds s)
    (hError : ∀ err s, (after (.error err)).holds s)
    (hRest : ∀ found, Spec calm (between found) (f found) after) :
    Spec calm before (metadataMessage bucket object >>= f) after := by
  rw [metadataMessage, LawfulMonad.bind_assoc]
  refine .lookup_bind rfl (byAnswer (fun message : Message =>
    byInfo (fun info => between (some (info, message.sequence))) .truth message.payload)
    (between none)) ?_ ?_ hError ?_
  · intro s message hAt hPermitted hReply
    have hLast := Broker.last_ok hReply
    simp only [byAnswer]
    cases hPayload : message.payload with
    | objectInfo info =>
        simp only [hPayload, objectInfoFromPayload, liftResult] at hPermitted
        exact hFound s message info hAt hPermitted hLast hPayload
    | bytes _ => trivial
    | kvMarker _ => trivial
    | objectIdentity _ => trivial
  · intro s hAt hReply
    exact hMissing s hAt (Broker.last_notFound hReply)
  · intro found
    cases found with
    | none => exact hRest none
    | some message =>
        cases hInfo : objectInfoFromPayload message.payload with
        | error err =>
            simp only [hInfo, liftResult]
            exact .throw fun s _ => hError err s
        | ok info =>
            simp only [byAnswer, infoFromPayload_ok hInfo, byInfo]
            exact hRest (some (info, message.sequence))

theorem spec_metadataMessage (between : Option (ObjectInfo × Nat) → Fact bucket object own)
    (hFound : ∀ s message info, At before s →
      (metas bucket object s).getLast? = some message → message.payload = .objectInfo info →
        (between (some (info, message.sequence))).holds s)
    (hMissing : ∀ s, At before s → (metas bucket object s).getLast? = none →
      (between none).holds s) :
    Spec calm before (metadataMessage bucket object) (.either between .truth) := by
  rw [← bind_pure (metadataMessage bucket object)]
  exact spec_metadata_bind between (fun s message info hAt _ => hFound s message info hAt)
    hMissing (fun _ _ => trivial) fun _ => .pure fun _ h => h.2

omit [Nuid] in
/-- Metadata that a put stored is the only one retained, so the last one decides. -/
theorem unstored_of_last {s : Broker} (hInv : Inv bucket object s)
    (hLast : ∀ message info, (metas bucket object s).getLast? = some message →
      message.payload = .objectInfo info → info.deleted = false →
        appliedIdentity info key = none) : Unstored bucket object key s := by
  intro message hMem info hPayload hLive
  by_contra hSome
  obtain ⟨identity, hIdentity⟩ := Option.ne_none_iff_exists'.mp hSome
  have hDescription : info.description = some (.identity identity) := by
    obtain ⟨hBind, -⟩ := Option.filter_eq_some_iff.mp hIdentity
    obtain ⟨description, hDescription, hFrom⟩ := Option.bind_eq_some_iff.mp hBind
    cases description with
    | text text => cases hFrom
    | identity found =>
        cases hFrom
        exact hDescription
  have hOnly := hInv.alone message hMem info hPayload identity hDescription
  have hNone := hLast message info (by rw [hOnly]; rfl) hPayload hLive
  rw [hNone] at hIdentity
  cases hIdentity

omit [Nuid] in
theorem applied_of_mem (hOwn : own = some key) {s : Broker} (hInv : Inv bucket object s)
    {message : Message} {info : ObjectInfo} {identity : ObjectWritebackIdentity}
    (hMem : message ∈ metas bucket object s) (hPayload : message.payload = .objectInfo info)
    (hLive : info.deleted = false) (hIdentity : appliedIdentity info key = some identity) :
    (Fact.applied hOwn identity : Fact bucket object own).holds s := by
  obtain ⟨hBind, hKey⟩ := Option.filter_eq_some_iff.mp hIdentity
  obtain ⟨description, hDescription, hFrom⟩ := Option.bind_eq_some_iff.mp hBind
  cases description with
  | text text => cases hFrom
  | identity found =>
      cases hFrom
      obtain ⟨hPrevious, hMarker⟩ := hInv.put message hMem info hPayload hLive identity hDescription
      obtain rfl : identity.idempotencyKey = key := by simpa using hKey
      exact ⟨hPrevious, hMarker⟩

theorem spec_objectStore (hOwn : own = some key) :
    Spec calm .truth (objectStore bucket) (fun
      | .error .notFound => .unstored hOwn
      | _ => .truth : _ → Fact bucket object own) := by
  refine .bind _ (Spec.quietly rfl (fun
    | .error err => if err.isNotFound then .unstored hOwn else .truth
    | .ok _ => .truth) ?_ ?_) (fun _ _ h => h.2.elim) ?_
  · intro s _
    simp only [Broker.handle]
    cases hStream : s.streams (objectStreamName bucket) with
    | some stream => trivial
    | none =>
        show Unstored bucket object key s
        intro message hMem
        simp [metas, Broker.retained, hStream] at hMem
  · intro err s hErr _
    simp only [hErr]
    trivial
  · intro reply
    cases reply with
    | ok _ => exact .pure fun _ _ => trivial
    | error err =>
        refine .throw fun s h => ?_
        by_cases hErr : err.isNotFound = true
        · simpa only [lookupError, hErr, if_true, Fact.either] using h.2
        · simp only [lookupError, hErr]
          trivial

theorem spec_currentIdentity (hOwn : own = some key) :
    Spec calm .truth (currentIdentity bucket object key)
      (.either (.optional (.applied hOwn) (.unstored hOwn)) .truth : _ →
        Fact bucket object own) := by
  refine .inspect (fun
    | .error .notFound => .unstored hOwn
    | _ => .truth) ?_ ?_
  · exact spec_objectStore hOwn
  · intro result
    rcases result with err | _
    · cases err with
      | notFound => exact .pure fun _ h => h.2
      | _ => exact .throw fun _ _ => trivial
    · refine .bind _ (spec_metadataMessage (byAnswer (fun found : ObjectInfo × Nat =>
        .optional (.applied hOwn) (.unstored hOwn)
          (if found.1.deleted then none else appliedIdentity found.1 key)) (.unstored hOwn)) ?_ ?_)
        (fun _ _ _ => trivial) ?_
      · intro s message info hAt hLast hPayload
        by_cases hDeleted : info.deleted = true
        · simp only [byAnswer, hDeleted, if_true]
          refine unstored_of_last hAt.1 ?_
          intro found foundInfo hFound hFoundPayload hLive
          rw [hLast] at hFound
          cases hFound
          rw [hPayload] at hFoundPayload
          cases hFoundPayload
          rw [hDeleted] at hLive
          cases hLive
        · simp only [byAnswer, hDeleted]
          cases hIdentity : appliedIdentity info key with
          | some identity =>
              exact applied_of_mem hOwn hAt.1 (List.mem_of_getLast? hLast) hPayload
                (by simpa using hDeleted) hIdentity
          | none =>
              refine unstored_of_last hAt.1 ?_
              intro found foundInfo hFound hFoundPayload _
              rw [hLast] at hFound
              cases hFound
              rw [hPayload] at hFoundPayload
              cases hFoundPayload
              exact hIdentity
      · intro s hAt hNone
        refine unstored_of_last hAt.1 ?_
        intro found _ hFound
        rw [hNone] at hFound
        cases hFound
      · intro found
        cases found with
        | none => exact .pure fun _ h => h.2
        | some entry => exact .pure fun _ h => h.2

theorem spec_scanFrom {stream subject : Str} {onMessage : Message → TransportResult (Option α)}
    (done : α → Fact bucket object own)
    (hDone : ∀ s message a, Inv bucket object s → message ∈ s.retained stream subject →
      onMessage message = .ok (some a) → (done a).holds s) (lastSequence fuel after : Nat) :
    Spec calm .truth (scanFrom stream subject onMessage lastSequence fuel after)
      (.either (.optional done .truth) .truth) := by
  induction fuel generalizing after with
  | zero => exact .throw fun _ _ => trivial
  | succ fuel ih =>
      refine .bind _ (Spec.quietly rfl (byOutcome (fun message =>
        .either (.optional done .truth) .truth (onMessage message)) fun _ => .truth) ?_
        (fun _ _ _ _ => trivial)) (fun _ _ h => h.2.elim) ?_
      · intro s hAt
        cases hReply : (Broker.handle s (.next stream subject after)).1 with
        | error err => trivial
        | ok message =>
            simp only [byOutcome]
            rcases hMessage : onMessage message with err | found | a
            · trivial
            · trivial
            · exact hDone s message a hAt.1 (Broker.next_ok hReply) hMessage
      · intro reply
        cases reply with
        | error err =>
            by_cases hTimeout : err.isTimeout = true
            · simp only [hTimeout, if_true]
              exact .throw fun _ _ => trivial
            · simp only [hTimeout]
              exact .throw fun _ _ => trivial
        | ok message =>
            rcases hMessage : onMessage message with err | found | a
            · simp only [hMessage]
              exact .throw fun _ _ => trivial
            · simp only [hMessage]
              by_cases hLast : lastSequence ≤ message.sequence
              · simp only [hLast, if_true]
                exact .pure fun _ _ => trivial
              · simp only [hLast]
                exact (ih message.sequence).weaken (fun _ _ => trivial) fun _ _ h => h.2
            · simp only [hMessage]
              refine .pure fun _ h => ?_
              simpa only [Fact.either, Fact.optional, byOutcome, hMessage] using h.2

theorem spec_historyAppliedIdentity (hOwn : own = some key) :
    Spec calm .truth (historyAppliedIdentity bucket object key)
      (.either (.optional (.applied hOwn) .truth) .truth : _ → Fact bucket object own) := by
  refine .bind (fun _ => .truth) (spec_of_quiet (.bind (.lookup rfl) fun _ => .pure _) _)
    (fun _ _ _ => trivial) ?_
  intro last
  cases last with
  | none => exact .pure fun _ _ => trivial
  | some lastSequence =>
      refine .bind (fun _ => .truth) (spec_of_quiet (.lookup rfl) _) (fun _ _ _ => trivial) ?_
      intro found
      cases found with
      | none => exact .pure fun _ _ => trivial
      | some _ =>
          refine spec_scanFrom (.applied hOwn) ?_ _ _ _
          intro s message identity hInv hMem hMessage
          cases hInfo : objectInfoFromPayload message.payload with
          | error err =>
              rw [hInfo] at hMessage
              cases hMessage
          | ok info =>
              rw [hInfo] at hMessage
              have hIdentity : (if info.deleted then none else appliedIdentity info key) =
                some identity := Except.ok.inj hMessage
              by_cases hDeleted : info.deleted = true
              · simp [hDeleted] at hIdentity
              · exact applied_of_mem hOwn hInv hMem (infoFromPayload_ok hInfo)
                  (by simpa using hDeleted) (by simpa [hDeleted] using hIdentity)

omit [Nuid] in
theorem objectPutPreviousNuid_marker {marker : ObjectApplyMarker} {nuid : Str}
    (hNuid : marker.identity.previousNuid = some nuid) (hKnown : nuid ≠ []) :
    objectPutPreviousNuid none (some marker) = some nuid := by
  simp [objectPutPreviousNuid, hNuid, hKnown]

/-- A marker that metadata has overtaken, where what it names is purged next: this cannot be
live, or the live metadata would carry it under a newer sequence. -/
theorem spec_target_bind (hOwn : own = some key) {f : Option ObjectApplyMarker → NatsM β}
    {after : Except TransportError β → Fact bucket object own}
    (hPurges : ∀ marker nuid, objectPutPreviousNuid none (some marker) = some nuid →
      (f (some marker)).run.first = some (.purgeStreamSubject (objectStreamName bucket)
        (objectChunkSubject bucket nuid)))
    (hCalm : ∀ nuid s, calm nuid s → PutCalm bucket object key nuid s)
    (hError : ∀ err s, (after (.error err)).holds s)
    (hRest : ∀ found, Spec calm (.and (.optional (fun marker =>
      .and (.marked hOwn (some marker)) (.markerDead hOwn)) .truth found) before) (f found) after) :
    Spec calm before (targetSequenceAfterApplyMarker bucket object key >>= f) after := by
  rw [targetSequenceAfterApplyMarker, LawfulMonad.bind_assoc]
  refine .bind _ ((spec_applyMarker hOwn).frame (quiet_applyMarker key) before |>.weaken
    (fun _ h => ⟨trivial, h.2⟩) fun _ _ h => h.2) (fun err s _ => hError err s) ?_
  intro marker
  cases marker with
  | none => exact (hRest none).weaken (fun _ h => ⟨trivial, h.2.2⟩) fun _ _ h => h.2
  | some marker =>
      simp only [LawfulMonad.bind_assoc]
      refine .lookup_bind rfl (fun found : Option Message => .and (.optional (fun message =>
        if marker.sequence < message.sequence then
          .and (.marked hOwn (some marker)) (.markerDead hOwn) else .truth) .truth found) before)
        ?_ ?_ hError ?_
      · rintro s message ⟨hInv, hMarked, hBefore⟩ hPermitted hReply
        refine ⟨?_, hBefore⟩
        by_cases hLater : marker.sequence < message.sequence
        · simp only [Fact.optional, hLater, if_true] at hPermitted ⊢
          refine ⟨hMarked, ?_⟩
          obtain ⟨stored, hStored, hPayload, hSequence⟩ := hMarked marker rfl
          intro last hLast identity hIdentity nuid hNuid hKnown
          obtain rfl : last = stored := Option.some.inj (hLast.symm.trans hStored)
          obtain rfl : marker.identity = identity := by
            rw [hPayload] at hIdentity
            exact Payload.objectIdentity.inj hIdentity
          refine ⟨hInv.marked key last (List.mem_of_getLast? hLast) _ hPayload nuid hNuid, ?_⟩
          rintro ⟨live, info, hLive, rfl⟩
          have hCurrent : live = message := by
            have hMessage := Broker.last_ok hReply
            have hSame := hLive.1
            unfold metas at hSame
            rw [hMessage] at hSame
            exact (Option.some.inj hSame).symm
          have hPurge := hPurges marker info.nuid (objectPutPreviousNuid_marker hNuid hKnown)
          have hBound := hCalm info.nuid s (hPermitted _ hPurge rfl info.nuid rfl) live info hLive
            rfl last hLast
          rw [hCurrent, hSequence] at hBound
          omega
        · simp only [Fact.optional, hLater]
          trivial
      · exact fun _ hAt _ => ⟨trivial, hAt.2.2⟩
      · intro found
        cases found with
        | none => exact hRest none
        | some message =>
            by_cases hLater : marker.sequence < message.sequence
            · simp only [Fact.optional, hLater, if_true]
              exact hRest (some marker)
            · simp only [Fact.optional, hLater]
              exact hRest none

/-! ### Puts -/

variable (config : NatsStorageConfig)

theorem spec_settle (hOwn : own = some key) {identity : Option ObjectWritebackIdentity}
    {marker : Option ObjectApplyMarker}
    (hPrevious : ∀ s, At before s → ∀ nuid, objectPutPreviousNuid identity marker = some nuid →
      Dead bucket object s nuid)
    (hMarker : ∀ s, At before s → MarkerDead bucket object key s)
    (unapplied : Fact bucket object own) :
    Spec calm before
      (settle config bucket (objectWritebackLedgerKey bucket object key) identity marker)
      (.either (fun applied => if applied then .markerDead hOwn else unapplied) .truth) := by
  refine .bind (fun _ => before) (spec_purgeChunksIfKnown ?_) (fun _ _ _ => trivial) fun _ => ?_
  · intro s hAt hKnown
    cases hNuid : objectPutPreviousNuid identity marker with
    | none => exact absurd (by rw [hNuid]; rfl) hKnown
    | some nuid => exact hPrevious s hAt nuid hNuid
  · refine .bind (fun _ => .markerDead hOwn) ?_ (fun _ _ _ => trivial) fun _ => .pure fun _ h => h.2
    exact (spec_recordApplied config hOwn).weaken hMarker fun _ _ h => h.2

omit [Nuid] in
theorem first_purgeChunksIfKnown {nuid : Str} (hKnown : nuid ≠ []) :
    (purgeChunksIfKnown bucket nuid).run.first = some (.purgeStreamSubject
      (objectStreamName bucket) (objectChunkSubject bucket nuid)) := by
  have hNot : nuid.isEmpty = false := by simpa using hKnown
  rw [purgeChunksIfKnown, hNot]
  rfl

omit [Nuid] in
theorem first_settle {identity : Option ObjectWritebackIdentity} {marker : Option ObjectApplyMarker}
    {nuid : Str} (ledgerKey : Str) (hNuid : objectPutPreviousNuid identity marker = some nuid) :
    (settle config bucket ledgerKey identity marker).run.first = some (.purgeStreamSubject
      (objectStreamName bucket) (objectChunkSubject bucket nuid)) := by
  have hKnown : nuid ≠ [] := by simpa using (Option.filter_eq_some_iff.mp hNuid).2
  rw [settle, hNuid]
  exact first_bind _ (first_purgeChunksIfKnown hKnown)

omit [Nuid] in
/-- The nuid to purge comes from the identity or from the marker. -/
theorem previousNuid_cases {identity : Option ObjectWritebackIdentity}
    {marker : Option ObjectApplyMarker} {nuid : Str}
    (h : objectPutPreviousNuid identity marker = some nuid) :
    nuid ≠ [] ∧ ((∃ found, identity = some found ∧ found.previousNuid = some nuid) ∨
      ∃ found, marker = some found ∧ found.identity.previousNuid = some nuid) := by
  obtain ⟨hOr, hKnown⟩ := Option.filter_eq_some_iff.mp h
  refine ⟨by simpa using hKnown, ?_⟩
  rcases Option.or_eq_some_iff.mp hOr with hIdentity | ⟨-, hMarker⟩
  · exact Or.inl (Option.bind_eq_some_iff.mp hIdentity)
  · exact Or.inr (Option.bind_eq_some_iff.mp hMarker)

omit [Nuid] in
theorem dead_of_marked (hOwn : own = some key) {marker : Option ObjectApplyMarker} {s : Broker}
    (hMarked : (Fact.marked hOwn marker : Fact bucket object own).holds s)
    (hDead : MarkerDead bucket object key s) {found : ObjectApplyMarker} {nuid : Str}
    (hFound : marker = some found) (hNuid : found.identity.previousNuid = some nuid)
    (hKnown : nuid ≠ []) : Dead bucket object s nuid := by
  obtain ⟨message, hLast, hPayload, -⟩ := hMarked found hFound
  exact hDead message hLast found.identity hPayload nuid hNuid hKnown

theorem spec_putApplied (hOwn : own = some key)
    (hCalm : ∀ nuid s, calm nuid s → PutCalm bucket object key nuid s) :
    Spec calm .truth (putApplied config bucket object key)
      (.either (fun applied => if applied then .markerDead hOwn
        else .and (.unstored hOwn) (.unrecorded hOwn)) .truth : _ → Fact bucket object own) := by
  refine .bind _ (spec_applyMarker hOwn) (fun _ _ _ => trivial) ?_
  intro marker
  refine .bind _ ((spec_hasApplied hOwn).frame (quiet_hasApplied _) (.marked hOwn marker) |>.weaken
    (fun _ h => ⟨trivial, h.2⟩) fun _ _ h => h.2) (fun _ _ _ => trivial) ?_
  intro applied
  cases applied with
  | true =>
      refine .bind (fun _ => .markerDead hOwn) ?_ (fun _ _ _ => trivial) fun _ => .pure
        fun _ h => h.2
      refine (spec_purgeChunksIfKnown ?_).weaken (fun _ h => h.2) fun _ _ h => h.2.1
      rintro s ⟨-, hDead, hMarked⟩ hKnown
      cases hNuid : objectPutPreviousNuid none marker with
      | none => exact absurd (by rw [hNuid]; rfl) hKnown
      | some nuid =>
          obtain ⟨hKnown, ⟨_, hNone, -⟩ | ⟨found, hFound, hPrevious⟩⟩ := previousNuid_cases hNuid
          · cases hNone
          · exact dead_of_marked hOwn hMarked hDead hFound hPrevious hKnown
  | false =>
      have hSettle : ∀ identity, Spec calm (.and (.applied hOwn identity)
            (.and (.unrecorded hOwn) (.marked hOwn marker)) : Fact bucket object own)
          (settle config bucket (objectWritebackLedgerKey bucket object key) (some identity) marker)
          (.either (fun applied => if applied then .markerDead hOwn
            else .and (.unstored hOwn) (.unrecorded hOwn)) .truth) := by
        intro identity
        refine spec_settle config hOwn ?_ ?_ _
        · rintro s ⟨-, ⟨hPrev, hDead⟩, -, hMarked⟩ nuid hNuid
          obtain ⟨hKnown, ⟨_, hSome, hPrevious⟩ | ⟨found, hFound, hPrevious⟩⟩ :=
            previousNuid_cases hNuid
          · cases hSome
            exact hPrev nuid hPrevious
          · exact dead_of_marked hOwn hMarked hDead hFound hPrevious hKnown
        · exact fun s h => h.2.1.2
      refine .bind _ ((spec_currentIdentity hOwn).frame (quiet_currentIdentity _)
        (.and (.unrecorded hOwn) (.marked hOwn marker)) |>.weaken (fun _ h => ⟨trivial, h.2⟩)
        fun _ _ h => h.2) (fun _ _ _ => trivial) ?_
      intro current
      cases current with
      | some identity =>
          exact hSettle identity
      | none =>
          refine .bind _ ((spec_historyAppliedIdentity hOwn).frame
            (.scanSubjectHistoryUntil _ _ _) (.and (.unstored hOwn)
              (.and (.unrecorded hOwn) (.marked hOwn marker))) |>.weaken
            (fun _ h => ⟨trivial, h.2⟩) fun _ _ h => h.2) (fun _ _ _ => trivial) ?_
          intro history
          cases history with
          | some identity =>
              exact (hSettle identity).weaken (fun s h => ⟨h.2.1, h.2.2.2⟩) fun _ _ h => h.2
          | none =>
              refine Spec.weaken (?_ : Spec calm (.and (.unstored hOwn) (.unrecorded hOwn)) _ _)
                (fun _ h => ⟨h.2.2.1, h.2.2.2.1⟩) fun _ _ h => h.2
              refine spec_target_bind hOwn ?_ hCalm (fun _ _ => trivial) ?_
              · intro overtaken nuid hNuid
                exact first_settle config _ hNuid
              · intro target
                cases target with
                | some overtaken =>
                    refine spec_settle config hOwn ?_ ?_ _
                    · rintro s ⟨-, ⟨hMarked, hDead⟩, -⟩ nuid hNuid
                      obtain ⟨hKnown, ⟨_, hNone, -⟩ | ⟨found, hFound, hPrevious⟩⟩ :=
                        previousNuid_cases hNuid
                      · cases hNone
                      · exact dead_of_marked hOwn hMarked hDead hFound hPrevious hKnown
                    · exact fun s h => h.2.1.2
                | none => exact .pure fun _ h => h.2.2

theorem spec_ensureApplyMarker (hOwn : own = some key) {previousNuid : Option Str} :
    Spec calm (.and (.and (.unstored hOwn) (.unrecorded hOwn))
        (.issued fun nuid => previousNuid = some nuid) : Fact bucket object own)
      (ensureApplyMarker config bucket key previousNuid)
      fun _ => .issued fun nuid => previousNuid = some nuid := by
  have hLast : ∀ (result : Except TransportError Nat) (s : Broker),
      At (.either (fun _ => .issued fun nuid => previousNuid = some nuid)
        (.and (.and (.unstored hOwn) (.unrecorded hOwn))
          (.issued fun nuid => previousNuid = some nuid)) result : Fact bucket object own) s →
      (Fact.issued fun nuid => previousNuid = some nuid : Fact bucket object own).holds s := by
    intro result s h
    cases result with
    | ok _ => exact h.2
    | error _ => exact h.2.2
  refine .bind (fun _ => _) (spec_of_quiet (quiet_applyMarker key) _) (fun _ _ h => h.2.2) ?_
  intro marker
  cases marker with
  | some marker => exact .pure fun _ h => h.2.2
  | none =>
      refine .bind (fun _ => _) (spec_of_quiet (quiet_ensureBucket config) _)
        (fun _ _ h => h.2.2) fun _ => ?_
      refine .bind (fun _ => _) (spec_of_quiet (.ensureDuplicateWindow config _) _)
        (fun _ _ h => h.2.2) fun _ => ?_
      refine .bind (fun _ => _) (spec_of_quiet quiet_ensureMarkerSubject _)
        (fun _ _ h => h.2.2) fun _ => ?_
      refine (Spec.retryPublish (.issued fun nuid => previousNuid = some nuid) ?_ ?_
        config.retries).weaken (fun _ h => h.2) hLast
      · rintro s t sequence ⟨hInv, ⟨hUnstored, hUnrecorded⟩, hPrevious⟩ hIssued hAppended
        have hIssued' : ∀ nuid, previousNuid = some nuid → nuid ∈ t.issued := by
          rw [hIssued]
          exact hPrevious
        obtain ⟨hMoves, hUnapplied⟩ := moves_mark hInv hAppended hIssued rfl rfl
          (fun nuid hNuid => hPrevious nuid (Option.filter_eq_some_iff.mp hNuid).1)
          hUnstored hUnrecorded
        exact ⟨hOwn ▸ hMoves, ⟨hUnapplied, hIssued'⟩, hIssued'⟩
      · exact Or.inr fun _ h => h.2.2

theorem spec_putObject (hFresh : ∀ issued, Nuid.next issued ∉ issued) (hOwn : own = some key)
    (bytes : Bytes) (previousNuid : Option Str) :
    Spec calm (.issued fun nuid => previousNuid = some nuid : Fact bucket object own)
      (Nats.perform (.putObject bucket object
        (some (objectIdempotencyDescription key previousNuid)) bytes))
      (.either (fun _ => .and (.dead fun nuid => previousNuid = some nuid) (.markerDead hOwn))
        (.issued fun nuid => previousNuid = some nuid)) := by
  refine Spec.perform ?_
  rintro s r t ⟨hInv, hPrevious⟩ hStep
  have hDescription : ∀ identity, some (objectIdempotencyDescription key previousNuid) =
      some (.identity identity) → own = some identity.idempotencyKey ∧
        ∀ nuid, identity.previousNuid = some nuid → nuid ∈ s.issued := by
    intro identity hIdentity
    cases hIdentity
    exact ⟨hOwn, fun nuid hNuid => hPrevious nuid (Option.filter_eq_some_iff.mp hNuid).1⟩
  have hRefused : Moves bucket object own s s ∧
      (Fact.issued fun nuid => previousNuid = some nuid : Fact bucket object own).holds s :=
    ⟨moves_quiet hInv .same, hPrevious⟩
  rcases putObject_effect hFresh hInv _ bytes hDescription with
    ⟨err, hPut⟩ | ⟨stored, hPut, hMoves, hDead, hMarker⟩
  · have hHandle : Broker.handle s (.putObject bucket object
        (some (objectIdempotencyDescription key previousNuid)) bytes) = (.error err, s) := hPut
    rcases hStep.inv with ⟨rfl, rfl⟩ | ⟨⟨-, err, rfl, -⟩, rfl | ⟨-, rfl⟩⟩
    · rw [hHandle]
      exact hRefused
    · exact hRefused
    · rw [hHandle]
      exact hRefused
  · have hHandle : Broker.handle s (.putObject bucket object
        (some (objectIdempotencyDescription key previousNuid)) bytes) = (.ok (), stored) := hPut
    rcases hStep.inv with ⟨rfl, rfl⟩ | ⟨⟨-, err, rfl, -⟩, rfl | ⟨-, rfl⟩⟩
    · rw [hHandle]
      exact ⟨hMoves, fun nuid hNuid => hDead nuid (hPrevious nuid hNuid), hMarker key⟩
    · exact hRefused
    · rw [hHandle]
      exact ⟨hMoves, fun nuid hNuid => hMoves.evolves.issued nuid (hPrevious nuid hNuid)⟩

theorem spec_putIdempotent (hFresh : ∀ issued, Nuid.next issued ∉ issued) (hOwn : own = some key)
    (hCalm : ∀ nuid s, calm nuid s → PutCalm bucket object key nuid s) (bytes : Bytes) :
    Spec calm .truth (putIdempotent config bucket object bytes key)
      (fun _ => .truth : _ → Fact bucket object own) := by
  refine .bind _ (spec_putApplied config hOwn hCalm) (fun _ _ _ => trivial) ?_
  intro applied
  cases applied with
  | true =>
      exact .bind _ (spec_recordApplied config hOwn) (fun _ _ _ => trivial) fun _ =>
        .pure fun _ _ => trivial
  | false =>
      have hRead : Spec calm .truth (metadataMessage bucket object) (.either (byAnswer (fun found =>
          .issued fun nuid => (if found.1.deleted then none else some found.1.nuid) = some nuid)
          .truth) .truth : _ → Fact bucket object own) := by
        refine spec_metadataMessage _ ?_ fun _ _ _ => trivial
        intro s message info hAt hLast hPayload nuid hNuid
        split at hNuid
        · cases hNuid
        · cases hNuid
          exact hAt.1.issued message (List.mem_of_getLast? hLast) info hPayload
      refine .bind _ (hRead.frame quiet_metadataMessage (.and (.unstored hOwn) (.unrecorded hOwn))
        |>.weaken (fun _ h => ⟨trivial, h.2⟩) fun _ _ h => h.2) (fun _ _ _ => trivial) ?_
      intro found
      have hRest : ∀ previousNuid : Option Str,
          Spec calm (.and (.and (.unstored hOwn) (.unrecorded hOwn))
              (.issued fun nuid => previousNuid = some nuid) : Fact bucket object own) (do
            let _ ← ensureApplyMarker config bucket key previousNuid
            objectStoreOrCreate config bucket
            Nats.retryIo (Nats.perform (.putObject bucket object
              (some (objectIdempotencyDescription key previousNuid)) bytes)) config.retries
            purgeChunksIfKnown bucket (previousNuid.getD [])
            Ledger.recordApplied config (objectWritebackLedgerKey bucket object key))
            fun _ => .truth := by
        intro previousNuid
        refine .bind _ (spec_ensureApplyMarker config hOwn) (fun _ _ _ => trivial) fun _ => ?_
        refine .bind _ (spec_of_quiet (quiet_objectStoreOrCreate config) _)
          (fun _ _ _ => trivial) fun _ => ?_
        refine .bind _ (.retryIo (spec_putObject hFresh hOwn bytes previousNuid) config.retries)
          (fun _ _ _ => trivial) fun _ => ?_
        refine .bind _ (spec_purgeChunksIfKnown ?_) (fun _ _ _ => trivial) fun _ => ?_
        · rintro s ⟨-, hDead, -⟩ hKnown
          cases previousNuid with
          | none => exact absurd rfl hKnown
          | some nuid => exact hDead nuid rfl
        · exact (spec_recordApplied config hOwn).weaken (fun _ h => h.2.2) fun _ _ _ => trivial
      cases found with
      | none =>
          refine (hRest none).weaken (fun _ h => ⟨h.2.2, ?_⟩) fun _ _ h => h.2
          intro nuid hNone
          cases hNone
      | some entry => exact (hRest _).weaken (fun _ h => ⟨h.2.2, h.2.1⟩) fun _ _ h => h.2

/-! ### Deletes -/

/-- What a delete learns from the metadata: what it is about to purge is dead, or the
metadata is the generation it was given. -/
def Fact.read (expectedSequence : Nat) (expectedNuid : Str) :
    Option (ObjectInfo × Nat) → Fact bucket object own
  | none => .dead fun nuid => nuid = expectedNuid ∧ expectedNuid ≠ []
  | some (info, sequence) =>
      if info.deleted then .dead fun nuid => nuid = if expectedNuid.isEmpty then info.nuid
        else expectedNuid
      else if sequence ≠ expectedSequence ∨
        (!expectedNuid.isEmpty && info.nuid != expectedNuid) then
        .dead fun nuid => nuid = expectedNuid ∧ expectedNuid ≠ []
      else .issued fun nuid => nuid = info.nuid

variable {expectedSequence : Nat} {expectedNuid : Str}

theorem spec_generation_bind {f : Option (ObjectInfo × Nat) → NatsM β}
    {after : Except TransportError β → Fact bucket object own}
    (hKnown : ∀ s, At before s → expectedNuid = [] ∨ expectedNuid ∈ s.issued)
    (hPurges : ∀ info sequence, info.deleted = false → sequence ≠ expectedSequence →
      expectedNuid ≠ [] → (f (some (info, sequence))).run.first = some (.purgeStreamSubject
        (objectStreamName bucket) (objectChunkSubject bucket expectedNuid)))
    (hCalm : ∀ s, calm expectedNuid s → DeleteCalm bucket object expectedSequence expectedNuid s)
    (hError : ∀ err s, (after (.error err)).holds s)
    (hRest : ∀ found, Spec calm (.read expectedSequence expectedNuid found) (f found) after) :
    Spec calm before (metadataMessage bucket object >>= f) after := by
  have hIssued : ∀ s, At before s → expectedNuid ≠ [] → expectedNuid ∈ s.issued := by
    intro s hAt hNot
    rcases hKnown s hAt with hEmpty | hMem
    · exact absurd hEmpty hNot
    · exact hMem
  refine spec_metadata_bind _ ?_ ?_ hError hRest
  · intro s message info hAt hPermitted hLast hPayload
    have hMem := List.mem_of_getLast? hLast
    have hCurrent : ∀ found foundInfo, LiveMeta (metas bucket object s) found foundInfo →
        found = message ∧ foundInfo = info := by
      rintro found foundInfo ⟨hFound, hFoundPayload, -⟩
      rw [hLast] at hFound
      cases hFound
      rw [hPayload] at hFoundPayload
      cases hFoundPayload
      exact ⟨rfl, rfl⟩
    by_cases hDeleted : info.deleted = true
    · have hNone : ∀ nuid, ¬ Live (metas bucket object s) nuid := by
        rintro nuid ⟨found, foundInfo, hLive, -⟩
        have hFalse := hLive.2.2
        rw [(hCurrent found foundInfo hLive).2, hDeleted] at hFalse
        cases hFalse
      simp only [Fact.read, hDeleted, if_true]
      rintro nuid rfl
      refine ⟨?_, hNone _⟩
      by_cases hEmpty : expectedNuid = []
      · simp only [hEmpty, List.isEmpty_nil, if_true]
        exact hAt.1.issued message hMem info hPayload
      · have hNot : expectedNuid.isEmpty = false := by simpa using hEmpty
        simp only [hNot]
        exact hIssued s hAt hEmpty
    · by_cases hOther : message.sequence ≠ expectedSequence ∨
          (!expectedNuid.isEmpty && info.nuid != expectedNuid) = true
      · simp only [Fact.read, hDeleted, hOther, if_true]
        rintro nuid ⟨rfl, hNot⟩
        refine ⟨hIssued s hAt hNot, ?_⟩
        rintro ⟨found, foundInfo, hLive, hNuid⟩
        obtain ⟨rfl, rfl⟩ := hCurrent found foundInfo hLive
        rcases hOther with hSequence | hNuid'
        · have hPurge := hPurges foundInfo found.sequence hLive.2.2 hSequence hNot
          exact hSequence (hCalm s (hPermitted _ hPurge rfl _ rfl) found foundInfo hLive hNuid)
        · simp [hNuid] at hNuid'
      · simp only [Fact.read, hDeleted, hOther]
        rintro nuid rfl
        exact hAt.1.issued message hMem info hPayload
  · intro s hAt hNone
    rintro nuid ⟨rfl, hNot⟩
    refine ⟨hIssued s hAt hNot, ?_⟩
    rintro ⟨found, foundInfo, hLive, -⟩
    have hLast := hLive.1
    rw [hNone] at hLast
    cases hLast

theorem spec_purgeMissing :
    Spec calm (.read expectedSequence expectedNuid none : Fact bucket object own)
      (purgeChunksIfKnown bucket expectedNuid) fun _ => .truth := by
  refine (spec_purgeChunksIfKnown ?_).weaken (fun _ h => h.2) fun _ _ _ => trivial
  exact fun s h hNot => h.2 expectedNuid ⟨rfl, hNot⟩

theorem spec_purgeDeleted {info : ObjectInfo} {sequence : Nat} (hDeleted : info.deleted = true) :
    Spec calm (.read expectedSequence expectedNuid (some (info, sequence)) : Fact bucket object own)
      (purgeChunks bucket (if expectedNuid.isEmpty then info.nuid else expectedNuid))
      fun _ => .truth := by
  refine (spec_purgeChunks ?_).weaken (fun _ h => h.2) fun _ _ _ => trivial
  intro s h
  have hDead := h.2
  simp only [Fact.read, hDeleted, if_true] at hDead
  exact hDead _ rfl

theorem spec_purgeReplaced {info : ObjectInfo} {sequence : Nat} (hLive : ¬ info.deleted = true)
    (hOther : sequence ≠ expectedSequence ∨
      (!expectedNuid.isEmpty && info.nuid != expectedNuid) = true) :
    Spec calm (.read expectedSequence expectedNuid (some (info, sequence)) : Fact bucket object own)
      (purgeChunksIfKnown bucket expectedNuid) fun _ => .truth := by
  refine (spec_purgeChunksIfKnown ?_).weaken (fun _ h => h.2) fun _ _ _ => trivial
  intro s h hNot
  have hDead := h.2
  simp only [Fact.read, hLive, hOther, if_true] at hDead
  exact hDead _ ⟨rfl, hNot⟩

theorem spec_deleteSuperseded
    (hKnown : ∀ s, At before s → expectedNuid = [] ∨ expectedNuid ∈ s.issued)
    (hCalm : ∀ s, calm expectedNuid s → DeleteCalm bucket object expectedSequence expectedNuid s) :
    Spec calm before (deleteSuperseded bucket object expectedSequence expectedNuid)
      fun _ => .truth := by
  refine spec_generation_bind hKnown ?_ hCalm (fun _ _ => trivial) ?_
  · intro info sequence hLive hOther hNot
    simp only [hLive, hOther, ne_eq, not_false_eq_true, true_or, if_true]
    exact first_bind _ (first_purgeChunksIfKnown hNot)
  intro found
  match found with
  | none =>
      exact .bind _ spec_purgeMissing (fun _ _ _ => trivial) fun _ => .pure fun _ _ => trivial
  | some (info, sequence) =>
      by_cases hDeleted : info.deleted = true
      · simp only [hDeleted, if_true]
        exact .bind _ (spec_purgeDeleted hDeleted) (fun _ _ _ => trivial) fun _ =>
          .pure fun _ _ => trivial
      · by_cases hOther : sequence ≠ expectedSequence ∨
            (!expectedNuid.isEmpty && info.nuid != expectedNuid) = true
        · simp only [hDeleted, hOther, if_true]
          exact .bind _ (spec_purgeReplaced hDeleted hOther) (fun _ _ _ => trivial) fun _ =>
            .pure fun _ _ => trivial
        · simp only [hDeleted, hOther]
          exact .pure fun _ _ => trivial

theorem spec_deleteIfSequence
    (hKnown : ∀ s, At before s → expectedNuid = [] ∨ expectedNuid ∈ s.issued)
    (hCalm : ∀ nuid s, calm nuid s → DeleteCalm bucket object expectedSequence nuid s) :
    Spec calm before (deleteIfSequence config bucket object expectedSequence expectedNuid)
      fun _ => .truth := by
  refine spec_generation_bind hKnown ?_ (hCalm expectedNuid) (fun _ _ => trivial) ?_
  · intro info sequence hLive hOther hNot
    simp only [hLive, hOther, ne_eq, not_false_eq_true, true_or, if_true]
    exact first_purgeChunksIfKnown hNot
  intro found
  match found with
  | none =>
      exact spec_purgeMissing
  | some (info, sequence) =>
      by_cases hDeleted : info.deleted = true
      · simp only [hDeleted, if_true]
        exact spec_purgeDeleted hDeleted
      · by_cases hOther : sequence ≠ expectedSequence ∨
            (!expectedNuid.isEmpty && info.nuid != expectedNuid) = true
        · simp only [hDeleted, hOther, if_true]
          exact spec_purgeReplaced hDeleted hOther
        · simp only [Fact.read, hDeleted, hOther]
          refine .inspect (.either (fun _ => .dead fun nuid => nuid = info.nuid)
            (.issued fun nuid => nuid = info.nuid))
            (.retryPublish _ ?_ (Or.inl rfl) config.retries) ?_
          · rintro s t stored ⟨hInv, hIssued⟩ hSame hAppended
            have hReplaces := replaces_of_appended hAppended rfl rollup_get rfl fun nuid hMem => by
              rw [hSame]
              exact hMem
            have hMoves : Moves bucket object own s t :=
              hReplaces.tombstone hInv rfl (hIssued info.nuid rfl)
            have hKept : ∀ nuid, nuid = info.nuid → nuid ∈ t.issued :=
              fun nuid hNuid => hMoves.evolves.issued nuid (hIssued nuid hNuid)
            refine ⟨hMoves, hKept, ?_⟩
            exact fun nuid hNuid => ⟨hKept nuid hNuid, hReplaces.not_live rfl nuid⟩
          · intro result
            cases result with
            | ok _ =>
                refine (spec_purgeChunks ?_).weaken (fun _ h => h.2) fun _ _ _ => trivial
                exact fun s h => h.2 info.nuid rfl
            | error err =>
                refine .bind (fun _ => .truth) (spec_deleteSuperseded ?_ (hCalm info.nuid))
                  (fun _ _ _ => trivial) ?_
                · exact fun s h => Or.inr (h.2 info.nuid rfl)
                · intro superseded
                  cases superseded with
                  | true => exact .pure fun _ _ => trivial
                  | false => exact .throw fun _ _ => trivial

end Specs

/-! ## Runs -/

section Runs

variable {bucket object} [Nuid] {key : Option Str} {s t : Broker}

theorem OtherClient.moves (hFresh : ∀ issued, Nuid.next issued ∉ issued)
    (hInv : Inv bucket object s) (h : OtherClient bucket object s t) :
    Moves bucket object none s t := by
  cases h with
  | put description bytes hPlain =>
      rcases putObject_effect hFresh hInv description bytes
        fun identity hIdentity => absurd hIdentity (hPlain identity) with
        ⟨err, hPut⟩ | ⟨stored, hPut, hMoves, -⟩
      · rw [hPut]
        exact moves_quiet hInv .same
      · rw [hPut]
        exact hMoves
  | @update stream message info updated hStream hLast hInfo hNuid hDeleted hDescription =>
      have hReplaces := replaces_of_appended (Appended.of_setStream hStream
        (objectMetaSubject bucket object) [(natsRollup, rollupSubject)] (.objectInfo updated))
        rfl rollup_get rfl fun _ h => h
      have hCurrent : (metas bucket object s).getLast? = some message := by
        unfold metas
        rw [Broker.retained_of_some hStream]
        exact hLast
      exact hReplaces.update hInv hCurrent hInfo hNuid hDeleted hDescription
  | @delete stream message info hStream hLast hInfo =>
      have hReplaces := replaces_of_appended (Appended.of_setStream hStream
        (objectMetaSubject bucket object) [(natsRollup, rollupSubject)]
        (.objectInfo { info with chunks := 0, size := 0, deleted := true }))
        rfl rollup_get rfl fun _ h => h
      have hMem : message ∈ metas bucket object s := by
        unfold metas
        rw [Broker.retained_of_some hStream]
        exact List.mem_of_getLast? hLast
      exact hReplaces.tombstone hInv rfl (hInv.issued message hMem info hInfo)
  | @publish stream name subject headers payload hStream hObject hLedger =>
      exact moves_elsewhere hInv (Appended.of_setStream hStream subject headers payload) rfl
        hObject hLedger
  | @purge stream nuid hStream =>
      have hPurged : Purged (objectStreamName bucket) (objectChunkSubject bucket nuid) s
          (s.setStream (objectStreamName bucket)
            (stream.without (objectChunkSubject bucket nuid))) :=
        ⟨⟨stream, hStream, rfl⟩, rfl⟩
      refine (sameReads_purged hPurged fun _ => ⟨chunk_ne_meta nuid, chunk_ne_marker nuid⟩).moves
        hInv ?_ fun _ h => Or.inl h
      exact fun other hRecorded => Or.inl (recorded_of_retained (fun subject =>
        hPurged.retained_ne fun hName => absurd hName ledger_ne_objectStream) hRecorded)
  | create name config hNone => exact moves_quiet hInv (.create config hNone)

/-- The rely and guarantee of every job, and the invariant they keep. -/
def discipline (hFresh : ∀ issued, Nuid.next issued ∉ issued) (config : NatsStorageConfig) :
    Pool.Discipline (rules bucket object config (Job.Calm bucket object)) where
  inv := Inv bucket object
  rely job := Rely bucket object job.key
  guar job := Moves bucket object job.key
  symm := by
    intro left right h key hRight hLeft
    exact h key hLeft hRight
  other_rely := by
    intro s t hOther hInv
    have hMoves := hOther.moves hFresh hInv
    exact ⟨hMoves.inv, fun job _ => ⟨hMoves.inv, hMoves.evolves, fun key _ =>
      hMoves.keeps key (by simp)⟩⟩
  guar_rely := by
    intro job s t hMoves _
    refine ⟨hMoves.inv, fun other hCompatible _ => ⟨hMoves.inv, hMoves.evolves, ?_⟩⟩
    intro key hOther
    exact hMoves.keeps key fun hKey => hCompatible key hKey hOther
  safe := by
    intro job s hInv hAdmits
    have hEnded : ∀ {α : Type} {p : NatsM α} (before : Fact bucket object job.key),
        Spec (Job.Calm bucket object job) before p (fun _ => .truth) → before.holds s →
          Safe faultyBroker (calmReads bucket object (Job.Calm bucket object job))
            (Rely bucket object job.key) (Moves bucket object job.key) (Job.ended p)
            (fun _ _ => True) s :=
      fun _ hSpec hBefore => (hSpec s ⟨hInv, hBefore⟩).bind fun _ _ _ => trivial
    cases job with
    | putIdempotent key bytes =>
        exact hEnded .truth (spec_putIdempotent config hFresh rfl (fun _ _ h => h) bytes) trivial
    | putApplied key =>
        refine hEnded .truth ((spec_putApplied config rfl fun _ _ h => h).weaken (fun _ h => h.2)
          fun _ _ _ => trivial) trivial
    | deleteIfSequence sequence nuid =>
        exact hEnded (.known nuid)
          (spec_deleteIfSequence config (fun _ h => h.2) fun _ _ h => h) hAdmits
    | deleteIfSequenceApplied sequence nuid =>
        exact hEnded (.known nuid) (spec_deleteSuperseded (fun _ h => h.2) fun _ h => h) hAdmits

/-- A bucket in which no write-back has been made: any objects, but no marker, no note and no
identity in the metadata. -/
structure Untouched (bucket object : Str) (broker : Broker) : Prop where
  metas : ∀ message ∈ metas bucket object broker, ∀ info, message.payload = .objectInfo info →
    info.nuid ∈ broker.issued ∧ ∀ identity, info.description ≠ some (.identity identity)
  markers : ∀ key, markers bucket key broker = []
  notes : ∀ key, ¬ Recorded bucket object key broker
  purges : broker.purges = []

omit [Nuid] in
theorem Untouched.inv (h : Untouched bucket object s) : Inv bucket object s where
  issued message hMem info hInfo := (h.metas message hMem info hInfo).1
  alone message hMem info hInfo identity hIdentity :=
    absurd hIdentity ((h.metas message hMem info hInfo).2 identity)
  put message hMem info hInfo _ identity hIdentity :=
    absurd hIdentity ((h.metas message hMem info hInfo).2 identity)
  marked key message hMem := by
    rw [h.markers] at hMem
    cases hMem
  recorded key hRecorded := absurd hRecorded (h.notes key)
  harmless purge hMem := by
    rw [h.purges] at hMem
    cases hMem

/-- As long as no job decides a purge from a read of metadata that carries the nuid to be
purged under a newer sequence, no call purges the chunks the object is stored in. -/
theorem live_chunks_not_purged (hFresh : ∀ issued, Nuid.next issued ∉ issued)
    (config : NatsStorageConfig) {broker : Broker} (hStart : Untouched bucket object broker)
    {pool : Pool Job nats Broker}
    (hReaches : Pool.Reaches (rules bucket object config (Job.Calm bucket object)) broker pool) :
    ∀ purge ∈ pool.state.purges, Harmless bucket object purge :=
  ((discipline hFresh config).inv_reaches hStart.inv hReaches).harmless

end Runs

/-! An object whose metadata has been replaced, or only updated, since a delete read it. -/

/-- A nuid longer than every other. -/
@[reducible] def longestNuid : Nuid :=
  ⟨fun issued => List.replicate (issued.foldr (fun nuid n => max nuid.length n) 0 + 1) 'n'⟩

theorem longestNuid_fresh (issued : List Str) : longestNuid.next issued ∉ issued := by
  have hBound : ∀ nuid ∈ issued,
      nuid.length ≤ issued.foldr (fun nuid n => max nuid.length n) 0 := by
    induction issued with
    | nil => simp
    | cons first rest ih =>
        intro nuid hMem
        rw [List.foldr_cons]
        rcases List.mem_cons.mp hMem with rfl | hMem
        · exact le_max_left _ _
        · exact le_trans (ih nuid hMem) (le_max_right _ _)
  intro hMem
  have hLength := hBound _ hMem
  rw [show longestNuid.next issued = List.replicate _ 'n' from rfl, List.length_replicate]
    at hLength
  omega

def storedInfo (nuid : Str) : ObjectInfo := ⟨['o'], none, nuid, 1, 1, false⟩

def storedMessage (sequence : Nat) (nuid : Str) : Message :=
  ⟨objectMetaSubject ['b'] ['o'], sequence, [(natsRollup, rollupSubject)],
    .objectInfo (storedInfo nuid)⟩

/-- The object is stored under this nuid, at this sequence. -/
def storedBroker (sequence : Nat) (nuid : Str) : Broker :=
  { streams := fun name => if name = objectStreamName ['b'] then
      some ⟨⟨[], 0, 0⟩, [storedMessage sequence nuid], sequence, [storedMessage sequence nuid]⟩
      else none
    recent := []
    issued := [['x'], ['y']]
    purges := [] }

theorem storedBroker_stream (sequence : Nat) (nuid : Str) :
    (storedBroker sequence nuid).streams (objectStreamName ['b']) =
      some ⟨⟨[], 0, 0⟩, [storedMessage sequence nuid], sequence,
        [storedMessage sequence nuid]⟩ := by
  simp [storedBroker]

theorem storedBroker_untouched (sequence : Nat) {nuid : Str} (hNuid : nuid ∈ [['x'], ['y']]) :
    Untouched ['b'] ['o'] (storedBroker sequence nuid) where
  metas message hMem info hInfo := by
    unfold metas at hMem
    rw [Broker.retained_of_some (storedBroker_stream sequence nuid)] at hMem
    have hMessage : message ∈ [storedMessage sequence nuid] := List.mem_of_mem_filter hMem
    rw [List.mem_singleton.mp hMessage] at hInfo
    cases hInfo
    exact ⟨hNuid, fun identity hIdentity => by cases hIdentity⟩
  markers key := by
    unfold markers
    rw [Broker.retained_of_some (storedBroker_stream sequence nuid)]
    simpa [Stream.ofSubject, storedMessage] using Ne.symm (marker_ne_meta key)
  notes key := by
    rintro ⟨message, hLast, -⟩
    cases hLast
  purges := rfl

/-- A delete of the replaced generation purges its chunks, and nothing that is live. -/
theorem replaced_chunks_purged :
    let _ := longestNuid
    ∃ pool, Pool.Reaches (rules ['b'] ['o'] ⟨0, 1, 0⟩ (Job.Calm ['b'] ['o']))
        (storedBroker 2 ['y']) pool ∧ pool.state.purges.length = 1 ∧
      ∀ purge ∈ pool.state.purges, Harmless ['b'] ['o'] purge := by
  intro _
  have hAllowed : Pool.Allowed faultyBroker
      (calmReads ['b'] ['o'] (DeleteCalm ['b'] ['o'] 1)) Broker.handle
      (Job.program ['b'] ['o'] ⟨0, 1, 0⟩ (.deleteIfSequenceApplied 1 ['x']))
      (storedBroker 2 ['y']) := by
    refine ⟨.done _ _, ?_, .done _ _, fun _ _ hRead => (by cases hRead), trivial⟩
    -- the read is followed by the purge of `x`, which the metadata does not carry
    rintro next hNext - nuid rfl message info ⟨hLast, hInfo, -⟩ rfl
    have hPurge : some (NatsCall.purgeStreamSubject (objectStreamName ['b'])
        (objectChunkSubject ['b'] ['x'])) = _ := hNext
    have hMetas : metas ['b'] ['o'] (storedBroker 2 ['y']) = [storedMessage 2 ['y']] := by decide
    rw [hMetas] at hLast
    obtain rfl : storedMessage 2 ['y'] = message := by simpa using hLast
    cases hInfo
    obtain ⟨-, hSubject⟩ := NatsCall.purgeStreamSubject.inj (Option.some.inj hPurge)
    exact absurd hSubject (by decide)
  have hKnown : Job.Known (.deleteIfSequenceApplied 1 ['x']) (storedBroker 2 ['y']) :=
    Or.inr (by decide)
  have hReaches : Pool.Reaches (rules ['b'] ['o'] ⟨0, 1, 0⟩ (Job.Calm ['b'] ['o']))
      (storedBroker 2 ['y']) _ :=
    Pool.reaches_eval _ (Job.deleteIfSequenceApplied 1 ['x']) hKnown hAllowed
  exact ⟨_, hReaches, by decide, live_chunks_not_purged longestNuid_fresh _
    (storedBroker_untouched 2 (by decide)) hReaches⟩

/-- The metadata after an update that keeps the nuid. -/
def updatedMessage : Message :=
  ⟨objectMetaSubject ['b'] ['o'], 2, [(natsRollup, rollupSubject)],
    .objectInfo { storedInfo ['x'] with description := some (.text ['d']) }⟩

def updatedBroker : Broker :=
  (storedBroker 1 ['x']).setStream (objectStreamName ['b'])
    (Stream.append ⟨⟨[], 0, 0⟩, [storedMessage 1 ['x']], 1, [storedMessage 1 ['x']]⟩
      (objectMetaSubject ['b'] ['o']) updatedMessage.headers updatedMessage.payload)

/-- Only the metadata has been updated since the delete read it at sequence 1: the object is
still stored under the nuid whose chunks are purged. -/
theorem updated_object_chunks_purged :
    let _ := longestNuid
    ¬ ∀ pool, Pool.Reaches (rules ['b'] ['o'] ⟨0, 1, 0⟩ fun _ _ _ => True)
      (storedBroker 1 ['x']) pool →
      ∀ purge ∈ pool.state.purges, Harmless ['b'] ['o'] purge := by
  intro _ hAll
  have hUpdate : OtherClient ['b'] ['o'] (storedBroker 1 ['x']) updatedBroker := by
    have hLast :
      Stream.lastMessage ⟨⟨[], 0, 0⟩, [storedMessage 1 ['x']], 1, [storedMessage 1 ['x']]⟩
        (objectMetaSubject ['b'] ['o']) = some (storedMessage 1 ['x']) := by decide
    have hInfo : (storedMessage 1 ['x']).payload = .objectInfo (storedInfo ['x']) := rfl
    refine .update _ (storedBroker_stream 1 ['x']) hLast hInfo rfl rfl (Or.inr ?_)
    intro identity hIdentity
    cases hIdentity
  have hKnown : Job.Known (.deleteIfSequenceApplied 1 ['x']) updatedBroker := Or.inr (by decide)
  have hAllowed : Pool.Allowed faultyBroker (calmReads ['b'] ['o'] fun _ _ => True) Broker.handle
      (Job.program ['b'] ['o'] ⟨0, 1, 0⟩ (.deleteIfSequenceApplied 1 ['x'])) updatedBroker :=
    ⟨.done _ _, fun _ _ _ _ _ => trivial, .done _ _, fun _ _ _ _ _ => trivial, trivial⟩
  have hReaches := Pool.reaches_eval (rules ['b'] ['o'] ⟨0, 1, 0⟩ fun _ _ _ => True)
    (Job.deleteIfSequenceApplied 1 ['x']) hKnown hAllowed
  have hHarmless := hAll _ (.head (.other hUpdate) hReaches)
    (objectStreamName ['b'], objectChunkSubject ['b'] ['x'], [updatedMessage]) (by decide)
  exact hHarmless rfl ['x'] ⟨updatedMessage, _, ⟨by decide, rfl, rfl⟩, rfl⟩ rfl

end EventFs.Transport.Nats.Objects
