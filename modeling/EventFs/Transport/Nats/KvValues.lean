import EventFs.Transport.Nats.KvOnce
import EventFs.Transport.Nats.KvDeleteRuns
import EventFs.Transport.Nats.LedgerCalls

/-!
# What the keys of the broker hold

A reader sees the last message of a key, and a put that is tried again is looked for among
all messages of the key. Of the calls of a put or a delete only one changes this: markers
and notes in the ledger are stored beside the keys. Nobody else acts on the broker here.
-/

namespace EventFs.Transport.Nats.Kv

open Library Protocol Program

variable {α : Type} {bucket key idempotencyKey : Str}

/-! ## What can be seen -/

/-- What the keys hold, and which puts have been stored. Reserved keys hold markers. -/
@[ext] structure Seen where
  value : Str → Str → Option Payload
  applied : Str → Str → Str → Prop

namespace Seen

def put (before : Seen) (bucket key : Str) (bytes : Bytes) (idempotencyKey : Str) : Seen where
  value b k := if b = bucket ∧ k = key then some (.bytes bytes) else before.value b k
  applied b k i := before.applied b k i ∨ (b = bucket ∧ k = key) ∧ i = idempotencyKey

def delete (before : Seen) (bucket key : Str) : Seen where
  value b k := if b = bucket ∧ k = key then none else before.value b k
  applied := before.applied

theorem value_delete (before : Seen) : (before.delete bucket key).value bucket key = none :=
  if_pos ⟨rfl, rfl⟩

theorem delete_delete (before : Seen) :
    (before.delete bucket key).delete bucket key = before.delete bucket key := by
  refine Seen.ext ?_ rfl
  funext b k
  simp only [delete]
  split <;> rfl

end Seen

def seen (broker : Broker) : Seen where
  value bucket key :=
    if isReservedKvKey key then none
    else ((current bucket key broker).filter fun message => messageIsPut message.headers).map
      (·.payload)
  applied bucket key idempotencyKey :=
    isReservedKvKey key = false ∧
      Published bucket key idempotencyKey (broker.logOf (streamName bucket))

section Seeing

variable {broker broker' : Broker} {stream : Stream} {name storeSubject : Str} {headers : Headers}
  {payload : Payload}

theorem seen_value (hKey : isReservedKvKey key = false) (broker : Broker) :
    (seen broker).value bucket key =
      ((current bucket key broker).filter fun message => messageIsPut message.headers).map
        (·.payload) :=
  if_neg (by simp [hKey])

theorem seen_applied (hKey : isReservedKvKey key = false) (broker : Broker) :
    (seen broker).applied bucket key idempotencyKey ↔
      Published bucket key idempotencyKey (broker.logOf (streamName bucket)) :=
  and_iff_right hKey

theorem current_quiet (h : Quiet broker broker') (bucket key : Str) :
    current bucket key broker' = current bucket key broker := by
  cases h with
  | same => rfl
  | forget => rfl
  | @create name config hNone =>
      simp only [current, Broker.setStream_streams]
      split
      · next hName =>
        subst hName
        rw [hNone]
        rfl
      · rfl
  | @configure name stream config hStream =>
      simp only [current, Broker.setStream_streams]
      split
      · next hName =>
        subst hName
        rw [hStream]
        rfl
      · rfl

theorem seen_quiet (h : Quiet broker broker') : seen broker' = seen broker := by
  refine Seen.ext ?_ ?_
  · funext bucket key
    simp only [seen, current_quiet h]
  · funext bucket key idempotencyKey
    simp only [seen, h.logOf]

/-! ### Storing a message -/

theorem current_store (hStream : broker.streams name = some stream)
    (recent : List (Str × Str × Nat)) (bucket key : Str) :
    current bucket key { broker.setStream name (stream.append storeSubject headers payload)
        with recent } =
      if streamName bucket = name ∧ subject bucket key = storeSubject then
        some ⟨storeSubject, stream.lastSequence + 1, headers, payload⟩
      else current bucket key broker := by
  show ((broker.setStream name _).streams (streamName bucket)).bind _ = _
  rw [Broker.setStream_streams]
  by_cases hName : streamName bucket = name
  · subst hName
    rw [if_pos rfl, Option.bind_some, Stream.lastMessage_append, current, hStream]
    simp
  · rw [if_neg hName, if_neg fun h => hName h.1]
    rfl

theorem published_store (hStream : broker.streams name = some stream)
    (recent : List (Str × Str × Nat)) (bucket key idempotencyKey : Str) :
    Published bucket key idempotencyKey (Broker.logOf
        { broker.setStream name (stream.append storeSubject headers payload) with recent }
        (streamName bucket)) ↔
      Published bucket key idempotencyKey (broker.logOf (streamName bucket)) ∨
        (streamName bucket = name ∧ subject bucket key = storeSubject) ∧
          headersContainIdempotencyKey headers idempotencyKey = true := by
  show Published _ _ _ ((broker.setStream name _).logOf (streamName bucket)) ↔ _
  rw [Broker.logOf_setStream]
  by_cases hName : streamName bucket = name
  · subst hName
    rw [if_pos rfl, Broker.logOf_of_some hStream]
    simp only [Published, Stream.append, List.mem_append, List.mem_singleton, or_and_right,
      exists_or, exists_eq_left, carries, Bool.and_eq_true, beq_iff_eq, true_and]
    rw [eq_comm (a := storeSubject)]
  · rw [if_neg hName]
    simp [hName]

/-- The subject of this stream is none of a key that can be named. -/
def Aside (name storeSubject : Str) : Prop :=
  ∀ bucket key, isReservedKvKey key = false → streamName bucket = name →
    subject bucket key ≠ storeSubject

theorem seen_store_aside (hStream : broker.streams name = some stream)
    (recent : List (Str × Str × Nat)) (hAside : Aside name storeSubject) :
    seen { broker.setStream name (stream.append storeSubject headers payload) with recent } =
      seen broker := by
  have hNot {bucket key : Str} (hKey : isReservedKvKey key = false) :
      ¬ (streamName bucket = name ∧ subject bucket key = storeSubject) :=
    fun h => hAside bucket key hKey h.1 h.2
  refine Seen.ext ?_ ?_
  · funext bucket key
    by_cases hKey : isReservedKvKey key = true
    · simp only [seen, hKey, if_true]
    · rw [Bool.not_eq_true] at hKey
      rw [seen_value hKey, seen_value hKey, current_store hStream, if_neg (hNot hKey)]
  · funext bucket key idempotencyKey
    refine propext (and_congr_right fun hKey => ?_)
    rw [published_store hStream]
    simp [hNot hKey]

theorem streamName_injective {bucket other : Str} (h : streamName bucket = streamName other) :
    bucket = other := List.append_cancel_left h

theorem subject_of_key (bucket key other otherKey : Str) :
    (streamName other = streamName bucket ∧ subject other otherKey = subject bucket key) ↔
      other = bucket ∧ otherKey = key := by
  constructor
  · rintro ⟨hName, hSubject⟩
    obtain rfl := streamName_injective hName
    exact ⟨rfl, subject_injective hSubject⟩
  · rintro ⟨rfl, rfl⟩
    exact ⟨rfl, rfl⟩

theorem headers_put (idempotencyKey i : Str) : headersContainIdempotencyKey
    [(writebackIdempotencyHeader, idempotencyKey)] i = true ↔ i = idempotencyKey := by
  rw [headersContainIdempotencyKey, Headers.get, List.find?_cons_of_pos (by rw [beq_self_eq_true]),
    Option.map_some, beq_iff_eq, Option.some.injEq]
  exact eq_comm

theorem messageIsPut_put (idempotencyKey : Str) :
    messageIsPut [(writebackIdempotencyHeader, idempotencyKey)] = true := by
  have hOther : (writebackIdempotencyHeader == operationHeader) = false := by decide
  have hNone : Headers.get [(writebackIdempotencyHeader, idempotencyKey)] operationHeader =
      none := by
    rw [Headers.get, List.find?_cons_of_neg (by rw [hOther]; exact Bool.false_ne_true)]
    rfl
  rw [messageIsPut, hNone]
  rfl

theorem headers_delete (i : Str) :
    headersContainIdempotencyKey [(operationHeader, operationDelete)] i = false := by
  have hOther : (operationHeader == writebackIdempotencyHeader) = false := by decide
  simp [headersContainIdempotencyKey, Headers.get, hOther]

theorem not_key_of_reserved {k : Str} (hKey : isReservedKvKey key = false)
    (hReserved : isReservedKvKey k = true) (b : Str) : ¬ (b = bucket ∧ k = key) := by
  rintro ⟨-, rfl⟩
  rw [hKey] at hReserved
  cases hReserved

theorem seen_store_put (hKey : isReservedKvKey key = false) (bytes : Bytes)
    (hStream : broker.streams (streamName bucket) = some stream) (recent : List (Str × Str × Nat)) :
    seen { broker.setStream (streamName bucket) (stream.append (subject bucket key)
        [(writebackIdempotencyHeader, idempotencyKey)] (.bytes bytes)) with recent } =
      (seen broker).put bucket key bytes idempotencyKey := by
  refine Seen.ext ?_ ?_
  · funext b k
    by_cases hReserved : isReservedKvKey k = true
    · simp only [seen, Seen.put, hReserved, if_true, if_neg (not_key_of_reserved hKey hReserved b)]
    · rw [Bool.not_eq_true] at hReserved
      rw [seen_value hReserved, current_store hStream, Seen.put]
      simp only [subject_of_key]
      split
      · simp [Option.filter, messageIsPut_put]
      · exact (seen_value hReserved broker).symm
  · funext b k i
    refine propext ?_
    by_cases hReserved : isReservedKvKey k = true
    · simp [seen, Seen.put, hReserved, not_key_of_reserved hKey hReserved b]
    · rw [Bool.not_eq_true] at hReserved
      rw [seen_applied hReserved, published_store hStream, subject_of_key,
        headers_put]
      exact or_congr_left (seen_applied hReserved broker).symm

theorem seen_store_delete
    (hStream : broker.streams (streamName bucket) = some stream) (recent : List (Str × Str × Nat)) :
    seen { broker.setStream (streamName bucket) (stream.append (subject bucket key)
        [(operationHeader, operationDelete)] (.bytes [])) with recent } =
      (seen broker).delete bucket key := by
  refine Seen.ext ?_ ?_
  · funext b k
    by_cases hReserved : isReservedKvKey k = true
    · simp only [seen, Seen.delete, hReserved, if_true, ite_self]
    · rw [Bool.not_eq_true] at hReserved
      rw [seen_value hReserved, current_store hStream, Seen.delete]
      simp only [subject_of_key]
      split
      · simp [Option.filter, messageIsPut_delete]
      · exact (seen_value hReserved broker).symm
  · funext b k i
    refine propext (and_congr_right fun hReserved => ?_)
    rw [published_store hStream, headers_delete]
    simp

end Seeing

/-! ## Calls beside the keys -/

section Sideways

/-- A call that stores nothing under a key that can be named. -/
inductive Sideways : NatsCall → Prop
  | quiet {call : NatsCall} (hQuiet : call.quiet = true) : Sideways call
  | aside {name storeSubject : Str} (hAside : Aside name storeSubject) (headers : Headers)
      (payload : Payload) (options : PublishOptions) :
      Sideways (.publish name storeSubject headers payload options)

theorem seen_sideways [Nuid] {call : NatsCall} (h : Sideways call) (broker : Broker) :
    seen (Broker.handle broker call).2 = seen broker := by
  cases h with
  | quiet hQuiet => exact seen_quiet (handle_isQuiet hQuiet)
  | @aside name storeSubject hAside headers payload options =>
      show seen (broker.publish name storeSubject headers payload options).2 = seen broker
      rcases publish_cases broker name storeSubject headers payload options
        with ⟨err, hEq, -⟩ | ⟨sequence, -, hEq⟩ | ⟨stream, hStream, -, hEq⟩
      · rw [hEq]
      · rw [hEq]
      · rw [hEq]
        exact seen_store_aside hStream _ hAside

/-- What looking for evidence issues: calls that store nothing, and notes in the ledger. -/
inductive NoteCall (ledgerKey : Str) : NatsCall → Prop
  | quiet {call : NatsCall} (hQuiet : call.quiet = true) : NoteCall ledgerKey call
  | note (payload : Payload) (options : PublishOptions) :
      NoteCall ledgerKey
        (.publish Ledger.stream (Ledger.ledgerSubject ledgerKey) [] payload options)

/-- What a put issues besides its message. -/
inductive SideCall (bucket key idempotencyKey : Str) : NatsCall → Prop
  | noting {call : NatsCall}
      (hNoting : NoteCall (writebackLedgerKey bucket key idempotencyKey) call) :
      SideCall bucket key idempotencyKey call
  | applyMarker (options : PublishOptions) : SideCall bucket key idempotencyKey
      (.publish (streamName bucket) (writebackMarkerSubject bucket idempotencyKey) []
        (markerPayload writebackMarkerOperation key idempotencyKey) options)
  | appliedMarker (options : PublishOptions) : SideCall bucket key idempotencyKey
      (.publish (streamName bucket) (appliedMarkerSubject bucket idempotencyKey) []
        (markerPayload appliedMarkerOperation key idempotencyKey) options)

theorem NoteCall.sideways {call : NatsCall} {ledgerKey : Str} (h : NoteCall ledgerKey call) :
    Sideways call := by
  cases h with
  | quiet hQuiet => exact .quiet hQuiet
  | note payload options =>
      exact .aside (fun other _ _ hName => absurd hName.symm ledger_ne_streamName) _ _ _

theorem SideCall.sideways {call : NatsCall} (h : SideCall bucket key idempotencyKey call) :
    Sideways call := by
  cases h with
  | noting hNoting => exact hNoting.sideways
  | applyMarker options =>
      refine .aside (fun other otherKey hKey hName => ?_) _ _ _
      obtain rfl := streamName_injective hName
      exact (writebackMarkerSubject_ne_subject hKey).symm
  | appliedMarker options =>
      refine .aside (fun other otherKey hKey hName => ?_) _ _ _
      obtain rfl := streamName_injective hName
      exact (appliedMarkerSubject_ne_subject hKey).symm

variable (config : NatsStorageConfig)

theorem notes_recordApplied (ledgerKey : Str) :
    Issues (NoteCall ledgerKey) (Ledger.recordApplied config ledgerKey) :=
  .bind ((IsQuiet.ensureStream config).issues fun _ => .quiet) fun _ =>
    .bind (.retryPublish (.quiet rfl) (.note _ _)) fun _ => .pure ()

theorem notes_noting {evidence : NatsM (Option Nat)} (hQuiet : IsQuiet evidence) (ledgerKey : Str) :
    Issues (NoteCall ledgerKey) (noting config ledgerKey evidence) := by
  refine .bind (hQuiet.issues fun _ => .quiet) ?_
  intro found
  cases found with
  | none => exact .pure _
  | some sequence => exact .bind (notes_recordApplied config ledgerKey) fun _ => .pure _

/-- Looking for one kind of evidence after another. -/
theorem notes_anyAppliedRevision :
    Issues (NoteCall (writebackLedgerKey bucket key idempotencyKey))
      (anyAppliedRevision config bucket key idempotencyKey) := by
  refine .bind ((Objects.quiet_hasApplied _).issues fun _ => .quiet) ?_
  intro applied
  cases applied with
  | true => exact .pure _
  | false =>
      refine .bind (notes_noting config (quiet_markerSequence _ _ _ _ _) _) ?_
      intro byMarker
      cases byMarker with
      | some sequence => exact .pure _
      | none =>
          refine .bind (notes_noting config Ledger.quiet_latestAppliedRevision _) ?_
          intro byLatest
          cases byLatest with
          | some revision => exact .pure _
          | none =>
              refine .bind (notes_noting config Ledger.quiet_targetSequence _) ?_
              intro byTarget
              cases byTarget with
              | some sequence => exact .pure _
              | none => exact notes_noting config (.scanSubjectHistoryUntil _ _ _) _

theorem side_quiet {p : NatsM α} (h : IsQuiet p) : Issues (SideCall bucket key idempotencyKey) p :=
  h.issues fun _ hQuiet => .noting (.quiet hQuiet)

theorem side_recordApplied : Issues (SideCall bucket key idempotencyKey)
    (Ledger.recordApplied config (writebackLedgerKey bucket key idempotencyKey)) :=
  (notes_recordApplied config _).weaken fun _ => .noting

theorem side_ensureMarker {found : NatsM (Option Nat)} {markerSubject operation publishId : Str}
    (hQuiet : IsQuiet found) (hMarker : SideCall bucket key idempotencyKey
      (.publish (streamName bucket) markerSubject [] (markerPayload operation key idempotencyKey)
        ⟨some publishId, none⟩)) :
    Issues (SideCall bucket key idempotencyKey)
      (ensureMarker config found markerSubject operation publishId bucket key idempotencyKey) := by
  refine .bind (side_quiet hQuiet) ?_
  intro sequence
  cases sequence with
  | some sequence => exact .pure _
  | none =>
      exact .bind (side_quiet (quiet_ensureBucket config bucket)) fun _ =>
        .bind (side_quiet (.ensureDuplicateWindow config _)) fun _ =>
          .retryPublish (.noting (.quiet rfl)) hMarker

theorem side_ensureApplyMarker : Issues (SideCall bucket key idempotencyKey)
    (ensureApplyMarker config bucket key idempotencyKey) :=
  side_ensureMarker config (quiet_markerSequence _ _ _ _ _) (.applyMarker _)

theorem side_recordAppliedMarker : Issues (SideCall bucket key idempotencyKey)
    (recordAppliedMarker config bucket key idempotencyKey) :=
  side_ensureMarker config (quiet_markerSequence _ _ _ _ _) (.appliedMarker _)

end Sideways

/-! ## Assertions about what is seen -/

section Specs

variable [Nuid] {before after : Seen} {fact : Seen → Prop}

/-- What is seen is one of these two at every point, and this can be asserted of it. -/
def sees (before after : Seen) : Assertions (Seen → Prop) where
  others := Alone
  idle := Sideways
  Inv broker := seen broker = before ∨ seen broker = after
  At fact broker := (seen broker = before ∨ seen broker = after) ∧ fact (seen broker)
  inv h := h.1
  stable _ := stable_alone _
  kept hIdle h := by
    rw [seen_sideways hIdle]
    exact h

theorem sees_of_side {p : NatsM α} (h : Issues (SideCall bucket key idempotencyKey) p) :
    (sees before after).Spec fact p fun _ => fact :=
  .of_calls (h.weaken fun _ => SideCall.sideways) fact

theorem sees_of_quiet {p : NatsM α} (h : IsQuiet p) :
    (sees before after).Spec fact p fun _ => fact :=
  .of_calls (h.issues fun _ => Sideways.quiet) fact

variable (config : NatsStorageConfig)

/-! ### Reading -/

theorem spec_store (hKey : isReservedKvKey key = false) :
    (sees before after).Spec fact (store bucket) fun
      | .error .notFound => fun s => fact s ∧ s.value bucket key = none
      | _ => fact := by
  refine .attempt (Sideways.quiet rfl) (byOutcome (fun _ => fact) fun err =>
    if err.isNotFound then fun s => fact s ∧ s.value bucket key = none else fact) ?_ ?_ ?_
  · rintro broker ⟨hOne, hFact⟩
    refine ⟨hOne, ?_⟩
    simp only [Broker.handle]
    cases hStream : broker.streams (streamName bucket) with
    | none =>
        refine ⟨hFact, ?_⟩
        rw [seen_value hKey, current, hStream]
        rfl
    | some stream =>
        simp only
        split <;> exact hFact
  · rintro err broker hErr ⟨hOne, hFact⟩
    simp only [byOutcome, hErr]
    exact ⟨hOne, hFact⟩
  · intro reply
    cases reply with
    | ok _ => exact .pure fun _ h => h
    | error err =>
        refine .throw fun broker h => ?_
        by_cases hErr : err.isNotFound = true
        · simpa only [lookupError, byOutcome, hErr, if_true] using h
        · simp only [byOutcome, hErr] at h
          simp only [lookupError, hErr]
          exact h

/-- A read that succeeds tells what is seen of the key. -/
theorem spec_get (hKey : isReservedKvKey key = false) :
    (sees before after).Spec fact (get bucket key) fun
      | .ok found => fun s => fact s ∧ s.value bucket key = found.map (·.value)
      | .error _ => fact := by
  refine .inspect _ (spec_store hKey) ?_
  intro result
  match result with
  | .ok _ =>
      refine .bind _ (.lookup (Sideways.quiet rfl) (fun (found : Option Message) s =>
        fact s ∧ s.value bucket key =
          (found.filter fun message => messageIsPut message.headers).map (·.payload)) fact ?_ ?_
        fun _ h => h) (fun _ _ h => h) ?_
      · rintro broker message ⟨hOne, hFact⟩ hReply
        have hCurrent : current bucket key broker = some message := by
          simp only [Broker.handle] at hReply
          split at hReply
          · cases hReply
          · next found hFound =>
            cases hReply
            exact hFound
        exact ⟨hOne, hFact, by rw [seen_value hKey, hCurrent]⟩
      · rintro broker ⟨hOne, hFact⟩ hReply
        have hCurrent : current bucket key broker = none := by
          simp only [Broker.handle] at hReply
          split at hReply
          · next hFound => exact hFound
          · cases hReply
        exact ⟨hOne, hFact, by rw [seen_value hKey, hCurrent]⟩
      · intro found
        cases found with
        | none => exact .pure fun _ h => h
        | some message =>
            by_cases hPut : messageIsPut message.headers = true
            · simp only [hPut, if_true]
              exact .pure fun _ h => ⟨h.1, h.2.1, by simpa [Option.filter, hPut] using h.2.2⟩
            · simp only [hPut]
              exact .pure fun _ h => ⟨h.1, h.2.1, by simpa [Option.filter, hPut] using h.2.2⟩
  | .error .notFound => exact .pure fun _ h => h
  | .error (.io _) | .error (.json _) | .error (.invalid _) | .error (.protocol _)
  | .error .queueFull | .error (.queueLocked _) => exact .throw fun _ h => h

/-! ### Putting -/

/-- What a put does where it is not known to have been applied. -/
def putNew (bucket key : Str) (bytes : Bytes) (idempotencyKey : Str) : NatsM Nat := do
  ensureBucket config bucket
  ensureDuplicateWindow config (streamName bucket)
  let _ ← ensureApplyMarker config bucket key idempotencyKey
  let sequence ← retryPublish config.retries (streamName bucket) (subject bucket key)
    [(writebackIdempotencyHeader, idempotencyKey)] (.bytes bytes) ⟨some idempotencyKey, none⟩
  let _ ← recordAppliedMarker config bucket key idempotencyKey
  Ledger.recordApplied config (writebackLedgerKey bucket key idempotencyKey)
  return sequence

omit [Nuid] in
theorem putIdempotent_eq (bytes : Bytes) :
    putIdempotent config bucket key bytes idempotencyKey =
      (do
        match ← anyAppliedRevision config bucket key idempotencyKey with
        | some revision => return revision
        | none => putNew config bucket key bytes idempotencyKey) := by
  unfold putIdempotent
  dsimp only
  congr 1
  funext found
  cases found <;> rfl

/-- A new put that succeeds can be seen, and one that fails may be. -/
theorem spec_putNew (hKey : isReservedKvKey key = false) (bytes : Bytes) :
    (sees before (before.put bucket key bytes idempotencyKey)).Spec (fun s => s = before)
      (putNew config bucket key bytes idempotencyKey) fun
      | .ok _ => fun s => s = before.put bucket key bytes idempotencyKey
      | .error _ => fun _ => True := by
  refine .bind _ (sees_of_quiet (quiet_ensureBucket config bucket)) (fun _ _ h => ⟨h.1, trivial⟩) ?_
  intro _
  refine .bind _ (sees_of_quiet (.ensureDuplicateWindow config _)) (fun _ _ h => ⟨h.1, trivial⟩) ?_
  intro _
  refine .bind _ (sees_of_side (side_ensureApplyMarker config)) (fun _ _ h => ⟨h.1, trivial⟩) ?_
  intro _
  let A : Assertions (Seen → Prop) := sees before (before.put bucket key bytes idempotencyKey)
  have hStores : A.Stores (streamName bucket) (subject bucket key)
      [(writebackIdempotencyHeader, idempotencyKey)] (.bytes bytes) (fun s => s = before)
      (fun s => s = before.put bucket key bytes idempotencyKey) := by
    rintro broker stream recent ⟨-, rfl⟩ hStream
    have hPut := @seen_store_put _ _ idempotencyKey _ _ hKey bytes hStream recent
    exact ⟨Or.inr hPut, hPut⟩
  have hAlone : ∀ ⦃broker broker' : Broker⦄, A.others broker broker' →
      broker'.recent = broker.recent := fun _ _ h => h.elim
  have hBefore : ∀ broker, A.At (fun s => s = before) broker → A.At (fun _ => True) broker :=
    fun _ h => ⟨h.1, trivial⟩
  have hAfter : ∀ broker, A.At (fun s => s = before.put bucket key bytes idempotencyKey) broker →
      A.At (fun _ => True) broker := fun _ h => ⟨h.1, trivial⟩
  have hPublish : A.Spec (fun s => s = before) (retryPublish config.retries (streamName bucket)
      (subject bucket key) [(writebackIdempotencyHeader, idempotencyKey)] (.bytes bytes)
      ⟨some idempotencyKey, none⟩) fun
      | .ok _ => fun s => s = before.put bucket key bytes idempotencyKey
      | .error _ => fun _ => True :=
    .retryPublish hAlone (Sideways.quiet rfl) idempotencyKey hStores hBefore hAfter config.retries
  refine .bind _ hPublish (fun _ _ h => h) ?_
  intro sequence
  refine .bind _ (sees_of_side (side_recordAppliedMarker config)) (fun _ _ h => ⟨h.1, trivial⟩) ?_
  intro _
  refine .bind _ (sees_of_side (side_recordApplied config)) (fun _ _ h => ⟨h.1, trivial⟩) ?_
  exact fun _ => .pure fun _ h => h

/-! ### Deleting -/

omit [Nuid] in
/-- Another look at a key that is being deleted. -/
theorem delete_of_either {s : Seen} (h : s = before ∨ s = before.delete bucket key) :
    s.delete bucket key = before.delete bucket key := by
  rcases h with rfl | rfl
  · rfl
  · exact Seen.delete_delete before

theorem spec_publishDelete (revision : Nat) :
    (sees before (before.delete bucket key)).Spec (fun _ => True)
      (perform (.publish (streamName bucket) (subject bucket key)
        [(operationHeader, operationDelete)] (.bytes []) ⟨none, some revision⟩))
      (byOutcome (fun _ s => s = before.delete bucket key) fun _ _ => True) := by
  have hStored {broker : Broker} {stream : Stream}
      (hOne : seen broker = before ∨ seen broker = before.delete bucket key)
      (hStream : broker.streams (streamName bucket) = some stream) :
      seen { broker.setStream (streamName bucket) (stream.append (subject bucket key)
        [(operationHeader, operationDelete)] (.bytes [])) with recent := broker.recent } =
          before.delete bucket key :=
    (seen_store_delete hStream broker.recent).trans (delete_of_either hOne)
  refine .performTo ?_ ?_
  · rintro broker sequence ⟨hOne, -⟩ hReply
    simp only [Broker.handle] at hReply ⊢
    rcases publish_cases broker (streamName bucket) (subject bucket key)
      [(operationHeader, operationDelete)] (.bytes []) ⟨none, some revision⟩
      with ⟨err, hEq, -⟩ | ⟨_, hDuplicate, -⟩ | ⟨stream, hStream, -, hEq⟩
    · rw [hEq] at hReply
      cases hReply
    · cases hDuplicate
    · rw [hEq]
      exact ⟨Or.inr (hStored hOne hStream), hStored hOne hStream⟩
  · rintro broker ⟨hOne, -⟩
    refine ⟨⟨hOne, trivial⟩, ?_, trivial⟩
    simp only [Broker.handle]
    rcases publish_cases broker (streamName bucket) (subject bucket key)
      [(operationHeader, operationDelete)] (.bytes []) ⟨none, some revision⟩
      with ⟨err, hEq, -⟩ | ⟨_, hDuplicate, -⟩ | ⟨stream, hStream, -, hEq⟩
    · rw [hEq]
      exact hOne
    · cases hDuplicate
    · rw [hEq]
      exact Or.inr (hStored hOne hStream)

theorem spec_deleteRevisionOnce (revision : Nat) :
    (sees before (before.delete bucket key)).Spec (fun _ => True)
      (deleteRevisionOnce config bucket key revision) fun
      | .ok .deleted => fun s => s = before.delete bucket key
      | _ => fun _ => True := by
  refine .inspect _ (.retryIoTo (spec_publishDelete revision) config.retries) ?_
  intro result
  cases result with
  | ok _ => exact .pure fun _ h => h
  | error err =>
      refine .bind _ (sees_of_quiet Ledger.quiet_get) (fun _ _ h => h) ?_
      intro entry
      cases entry with
      | none => exact .pure fun _ h => h
      | some entry =>
          dsimp only
          split
          · exact .pure fun _ h => h
          · exact .throw fun _ h => h

/-- A delete that succeeds has deleted a key that was there. -/
theorem spec_delete (hKey : isReservedKvKey key = false) :
    (sees before (before.delete bucket key)).Spec (fun _ => True) (delete config bucket key) fun
      | .ok _ => fun s => s = before.delete bucket key ∧ before.value bucket key ≠ none
      | .error _ => fun _ => True := by
  unfold delete retryPlainKvDelete
  generalize min (config.retries + 1) (2 ^ 64 - 1) = attempts
  suffices hRounds : ∀ left, (sees before (before.delete bucket key)).Spec (fun _ => True)
      (plainKvDeleteRounds (do return (← get bucket key).map (·.revision))
        (deleteRevisionOnce config bucket key) attempts left) fun
      | .ok _ => fun s => s = before.delete bucket key ∧ before.value bucket key ≠ none
      | .error _ => fun _ => True from hRounds attempts
  intro left
  induction left with
  | zero => exact .throw fun _ h => h
  | succ left ih =>
      refine .bind (byOutcome (fun found s => s.value bucket key = none ↔ found = none)
        fun _ _ => True) (.bind _ (spec_get hKey) (fun _ _ h => h) ?_) (fun _ _ h => h) ?_
      · intro found
        refine .pure fun broker h => ⟨h.1, ?_⟩
        show (seen broker).value bucket key = none ↔ found.map (·.revision) = none
        rw [h.2.2]
        cases found <;> simp
      intro current
      cases current with
      | none => exact .throw fun _ h => ⟨h.1, trivial⟩
      | some revision =>
          refine .assume (ψ := before.value bucket key ≠ none) ?_ ?_
          · rintro broker ⟨hSeen | hSeen, hFound⟩ hNone
            · rw [hSeen] at hFound
              exact Option.some_ne_none _ (hFound.mp hNone)
            · rw [hSeen] at hFound
              exact Option.some_ne_none _ (hFound.mp (Seen.value_delete before))
          intro hPresent
          refine .bind _ ((spec_deleteRevisionOnce config revision).weaken
            (fun _ h => ⟨h.1, trivial⟩) fun _ _ h => h) (fun _ _ h => h) ?_
          intro outcome
          cases outcome with
          | deleted => exact .pure fun _ h => ⟨h.1, h.2, hPresent⟩
          | missing => exact .throw fun _ h => h
          | revisionChanged =>
              by_cases hLast : left = 0
              · simp only [hLast, if_true]
                exact .throw fun _ h => h
              · simp only [hLast, if_false]
                exact ih

end Specs

end EventFs.Transport.Nats.Kv
