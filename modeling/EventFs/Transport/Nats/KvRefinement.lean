import EventFs.Library.Refinement
import EventFs.Transport.MemoryRuns
import EventFs.Transport.PendingValue
import EventFs.Transport.Nats.KvValues
import EventFs.Transport.Nats.LedgerKeys

/-!
# KV buckets on the broker behave like those in memory

A mount reads, puts and deletes keys through one interface, whatever keeps them. On the
broker a request is many calls, each of which may be refused or go unacknowledged, and it
may be cut off between any two of them. What can be seen of the keys afterwards is what
the storage in memory may hold after one call of the same name that may fail.
-/

namespace EventFs.Transport.Nats.Kv

open Library Protocol Program

/-! ## Requests -/

/-- What a mount asks of the keys. -/
inductive Request
  | get (bucket key : Str)
  | put (bucket key : Str) (bytes : Bytes) (idempotencyKey : Str)
  | putApplied (bucket key idempotencyKey : Str)
  | delete (bucket key : Str)
deriving DecidableEq, Repr

/-- Revisions are numbered differently and left out. -/
inductive Answer
  | value (found : Option Payload)
  | applied (applied : Bool)
  | done
deriving DecidableEq, Repr

/-- A request, and its answer if it got one. -/
structure Asked where
  request : Request
  outcome : Option (TransportResult Answer)

namespace Request

def key : Request → Str
  | .get _ key | .put _ key _ _ | .putApplied _ key _ | .delete _ key => key

/-- On the broker. -/
def onBroker (config : NatsStorageConfig) : Request → NatsM Answer
  | .get bucket key => do return .value ((← Kv.get bucket key).map (·.value))
  | .put bucket key bytes idempotencyKey => do
      let _ ← putIdempotent config bucket key bytes idempotencyKey
      return .done
  | .putApplied bucket key idempotencyKey => do
      return .applied (← Kv.putApplied config bucket key idempotencyKey)
  | .delete bucket key => do
      Kv.delete config bucket key
      return .done

def call : Request → StorageCall
  | .get bucket key => .kvGet bucket key
  | .put bucket key bytes idempotencyKey => .kvPutIdempotent bucket key bytes idempotencyKey
  | .putApplied bucket key idempotencyKey => .kvPutApplied bucket key idempotencyKey
  | .delete bucket key => .kvDelete bucket key

def answer : (request : Request) → request.call.Value → Answer
  | .get _ _, (found : Option KeyRevision) => .value (found.map fun entry => .bytes entry.bytes)
  | .put .., _ => .done
  | .putApplied .., (applied : Bool) => .applied applied
  | .delete .., _ => .done

/-- In memory. -/
def inMemory (request : Request) : Program storage (TransportResult Answer) := do
  let reply ← Program.perform (I := storage) request.call
  return Except.map request.answer reply

/-- A put is made under an idempotency key of its own, and again, or checked, only where the key
has not moved on without it. -/
def Orderly (target : Str → Str × Str) (broker : Broker) : Request → Prop
  | .get _ _ | .delete _ _ => True
  | .put bucket key _ idempotencyKey | .putApplied bucket key idempotencyKey =>
      target idempotencyKey = (bucket, key) ∧
        (Advanced bucket key idempotencyKey (broker.logOf (streamName bucket)) →
          Published bucket key idempotencyKey (broker.logOf (streamName bucket)))

/-! ## What a request does -/

open Classical in
/-- What a request makes of what is seen. -/
noncomputable def effect : Request → Seen → Seen
  | .put bucket key bytes idempotencyKey, before =>
      if before.applied bucket key idempotencyKey then before
      else before.put bucket key bytes idempotencyKey
  | .delete bucket key, before => before.delete bucket key
  | .get _ _, before | .putApplied _ _ _, before => before

/-- The request may be answered so. -/
def Answers (before : Seen) : Request → Answer → Prop
  | .get bucket key, reply => reply = .value (before.value bucket key)
  | .put .., reply => reply = .done
  | .putApplied bucket key idempotencyKey, reply =>
      ∃ applied : Bool, reply = .applied applied ∧
        (applied = true ↔ before.applied bucket key idempotencyKey)
  | .delete bucket key, reply => reply = .done ∧ before.value bucket key ≠ none

/-- A request that is acknowledged has taken effect, and any other may have. -/
def Does (request : Request) (before : Seen) : Option (TransportResult Answer) → Seen → Prop
  | some (.ok reply), after => after = request.effect before ∧ request.Answers before reply
  | _, after => after = before ∨ after = request.effect before

end Request

variable {bucket key idempotencyKey : Str}

/-! ## In memory -/

section Memory

variable [Serde] {store : MemoryStorage}

abbrev flakyMemory : Behaviour storage MemoryStorage :=
  Faulty MemoryStorage.handle (fun _ reply => ∃ err, reply = .error err) fun _ => True

/-- What can be seen of the keys in memory. -/
def shown (store : MemoryStorage) : Seen where
  value bucket key :=
    if isReservedKvKey key then none else (store.value (.kv bucket key)).map .bytes
  applied bucket key idempotencyKey :=
    isReservedKvKey key = false ∧ store.applied (.kv bucket key idempotencyKey) = true

omit [Serde] in
theorem shown_value (hKey : isReservedKvKey key = false) (store : MemoryStorage) :
    (shown store).value bucket key = (store.value (.kv bucket key)).map .bytes :=
  if_neg (by simp [hKey])

omit [Serde] in
theorem shown_applied (hKey : isReservedKvKey key = false) (store : MemoryStorage) :
    (shown store).applied bucket key idempotencyKey ↔
      store.applied (.kv bucket key idempotencyKey) = true :=
  and_iff_right hKey

omit [Serde] in
theorem shown_put (hKey : isReservedKvKey key = false) (bytes : Bytes) :
    shown (store.putKvRecorded bucket key bytes idempotencyKey) =
      (shown store).put bucket key bytes idempotencyKey := by
  refine Seen.ext ?_ ?_
  · funext b k
    by_cases hReserved : isReservedKvKey k = true
    · simp only [shown, Seen.put, hReserved, if_true, if_neg (not_key_of_reserved hKey hReserved b)]
    · rw [Bool.not_eq_true] at hReserved
      simp only [Seen.put]
      rw [shown_value hReserved, value_putKvRecorded, shown_value hReserved]
      by_cases hSame : b = bucket ∧ k = key
      · obtain ⟨rfl, rfl⟩ := hSame
        simp
      · have hOther : ¬ StorageFact.kv bucket key = .kv b k := by
          rintro ⟨⟩
          exact hSame ⟨rfl, rfl⟩
        rw [if_neg hSame, if_neg hOther]
  · funext b k i
    refine propext ?_
    by_cases hReserved : isReservedKvKey k = true
    · simp [shown, Seen.put, hReserved, not_key_of_reserved hKey hReserved b]
    · rw [Bool.not_eq_true] at hReserved
      simp only [Seen.put]
      rw [shown_applied hReserved, shown_applied hReserved]
      show (store.putKvRecorded bucket key bytes idempotencyKey).kvApplied.contains
          (b, k, i) = true ↔ store.kvApplied.contains (b, k, i) = true ∨ _
      simp only [MemoryStorage.putKvRecorded, MemoryStorage.putKv, Std.ExtTreeMap.contains_insert,
        Bool.or_eq_true, beq_iff_eq, Std.compare_eq_iff_eq, Prod.mk.injEq]
      constructor
      · rintro (⟨rfl, rfl, rfl⟩ | hOld)
        · exact Or.inr ⟨⟨rfl, rfl⟩, rfl⟩
        · exact Or.inl hOld
      · rintro (hOld | ⟨⟨rfl, rfl⟩, rfl⟩)
        · exact Or.inr hOld
        · exact Or.inl ⟨rfl, rfl, rfl⟩

omit [Serde] in
theorem shown_delete (hKey : isReservedKvKey key = false) :
    shown { store with kv := store.kv.erase (bucket, key) } = (shown store).delete bucket key := by
  refine Seen.ext ?_ rfl
  funext b k
  by_cases hReserved : isReservedKvKey k = true
  · simp only [shown, Seen.delete, hReserved, if_true, ite_self]
  · rw [Bool.not_eq_true] at hReserved
    simp only [Seen.delete]
    rw [shown_value hReserved, shown_value hReserved]
    by_cases hSame : b = bucket ∧ k = key
    · obtain ⟨rfl, rfl⟩ := hSame
      simp [MemoryStorage.value]
    · have hOther : compare (bucket, key) (b, k) ≠ .eq := by
        rw [ne_eq, Std.compare_eq_iff_eq, Prod.mk.injEq]
        rintro ⟨rfl, rfl⟩
        exact hSame ⟨rfl, rfl⟩
      rw [if_neg hSame]
      simp [MemoryStorage.value, Std.ExtTreeMap.getElem?_erase, hOther]

omit [Serde] in
theorem delete_of_missing (hKey : isReservedKvKey key = false)
    (hMissing : store.kv.contains (bucket, key) = false) :
    (shown store).delete bucket key = shown store := by
  refine Seen.ext ?_ rfl
  funext b k
  simp only [Seen.delete]
  by_cases hSame : b = bucket ∧ k = key
  · obtain ⟨rfl, rfl⟩ := hSame
    rw [if_pos ⟨rfl, rfl⟩, shown_value hKey, MemoryStorage.value]
    rw [Std.ExtTreeMap.contains_eq_isSome_getElem?, Option.isSome_eq_false_iff,
      Option.isNone_iff_eq_none] at hMissing
    rw [hMissing]
    rfl
  · rw [if_neg hSame]

/-- One call in memory does what the request does. -/
theorem shown_handle (request : Request) (hKey : isReservedKvKey request.key = false) :
    shown (MemoryStorage.handle store request.call).2 = request.effect (shown store) := by
  cases request with
  | get bucket key => rfl
  | putApplied bucket key idempotencyKey => rfl
  | put bucket key bytes idempotencyKey =>
      change isReservedKvKey key = false at hKey
      show shown (store.kvPutIdempotent bucket key bytes idempotencyKey).2 = _
      rw [MemoryStorage.kvPutIdempotent_state, Request.effect]
      simp only [shown_applied hKey]
      by_cases hApplied : store.applied (.kv bucket key idempotencyKey) = true
      · rw [if_pos hApplied]
        exact congrArg shown (if_pos hApplied)
      · rw [if_neg hApplied, ← shown_put hKey]
        exact congrArg shown (if_neg hApplied)
  | delete bucket key =>
      change isReservedKvKey key = false at hKey
      show shown (store.kvDelete bucket key).2 = (shown store).delete bucket key
      rw [MemoryStorage.kvDelete]
      by_cases hFound : store.kv.contains (bucket, key) = true
      · rw [if_pos hFound]
        exact shown_delete hKey
      · rw [if_neg hFound]
        exact (delete_of_missing hKey (by rwa [Bool.not_eq_true] at hFound)).symm

/-- It is answered as the request may be. -/
theorem handle_answers {request : Request} (hKey : isReservedKvKey request.key = false)
    {reply : Answer} (h : request.Answers (shown store) reply) :
    Except.map request.answer (MemoryStorage.handle store request.call).1 = .ok reply := by
  cases request with
  | get bucket key =>
      change isReservedKvKey key = false at hKey
      obtain rfl := h
      rw [shown_value hKey]
      show Except.ok (Answer.value _) = _
      simp [MemoryStorage.value, Function.comp_def]
  | putApplied bucket key idempotencyKey =>
      change isReservedKvKey key = false at hKey
      obtain ⟨applied, rfl, hApplied⟩ := h
      rw [shown_applied hKey] at hApplied
      have hSame : store.kvApplied.contains (bucket, key, idempotencyKey) = applied :=
        Bool.eq_iff_iff.mpr hApplied.symm
      show Except.ok (Answer.applied (store.kvApplied.contains (bucket, key, idempotencyKey))) = _
      rw [hSame]
  | put bucket key bytes idempotencyKey =>
      obtain rfl := h
      show Except.map _ (store.kvPutIdempotent bucket key bytes idempotencyKey).1 = _
      rw [MemoryStorage.kvPutIdempotent]
      split <;> rfl
  | delete bucket key =>
      change isReservedKvKey key = false at hKey
      obtain ⟨rfl, hFound⟩ := h
      rw [shown_value hKey] at hFound
      have hContains : store.kv.contains (bucket, key) = true := by
        rw [Std.ExtTreeMap.contains_eq_isSome_getElem?]
        cases hEntry : store.kv[(bucket, key)]? with
        | none => exact absurd (by simp [MemoryStorage.value, hEntry]) hFound
        | some entry => rfl
      show Except.map _ (store.kvDelete bucket key).1 = _
      rw [MemoryStorage.kvDelete, if_pos hContains]
      rfl

/-- Whatever a request does is done by one call in memory that may fail. -/
theorem run_inMemory {request : Request} (hKey : isReservedKvKey request.key = false)
    {outcome : Option (TransportResult Answer)} {after : Seen}
    (h : request.Does (shown store) outcome after) :
    ∃ store', Run flakyMemory Alone request.inMemory store outcome store' ∧
      shown store' = after := by
  have hEffect : shown (MemoryStorage.handle store request.call).2 = request.effect (shown store) :=
    shown_handle request hKey
  have hDone : flakyMemory store request.call (MemoryStorage.handle store request.call).1
      (MemoryStorage.handle store request.call).2 :=
    Faulty.done (I := storage) store request.call
  have hInMemory : request.inMemory =
      .call request.call fun reply => .ret (Except.map request.answer reply) := rfl
  rw [hInMemory]
  match outcome with
  | some (.ok reply) =>
      obtain ⟨rfl, hReply⟩ := h
      refine ⟨_, ?_, hEffect⟩
      rw [← handle_answers hKey hReply]
      exact .step hDone (.finish _ _)
  | some (.error err) =>
      have hFails : ∃ err', (.error err : TransportResult request.call.Value) = .error err' :=
        ⟨err, rfl⟩
      rcases h with rfl | rfl
      · have hRefused : flakyMemory store request.call (.error err) store :=
          Faulty.refused (I := storage) store request.call hFails
        exact ⟨store, .step hRefused (.finish _ _), rfl⟩
      · have hLost : flakyMemory store request.call (.error err)
            (MemoryStorage.handle store request.call).2 :=
          Faulty.unacknowledged (I := storage) store request.call trivial hFails
        exact ⟨_, .step hLost (.finish _ _), hEffect⟩
  | none =>
      rcases h with rfl | rfl
      · exact ⟨store, .stop _ _, rfl⟩
      · exact ⟨_, .step hDone (.stop _ _), hEffect⟩

end Memory

/-! ## On the broker -/

section OnBroker

variable [Nuid] (config : NatsStorageConfig) {before after : Seen} {broker broker' : Broker}

/-- A request that has returned. -/
def Request.Returned (request : Request) (before : Seen) :
    Except TransportError Answer → Seen → Prop :=
  byOutcome (fun reply after => after = request.effect before ∧ request.Answers before reply)
    fun _ _ => True

theorem does_of_triple {request : Request} {P : Broker → Prop}
    (h : Triple faultyBroker Alone P (request.onBroker config).run
      (fun result => (sees before (request.effect before)).At (request.Returned before result))
      (sees before (request.effect before)).Inv) (hStart : P broker)
    {outcome : Option (TransportResult Answer)}
    (hRun : Run faultyBroker Alone (request.onBroker config).run broker outcome broker') :
    request.Does before outcome (seen broker') := by
  have hEnd := h hStart hRun
  match outcome with
  | some (.ok reply) => exact hEnd.2
  | some (.error err) => exact hEnd.1
  | none => exact hEnd

theorem spec_getRequest (hKey : isReservedKvKey key = false) :
    (sees before before).Spec (fun s => s = before) ((Request.get bucket key).onBroker config)
      ((Request.get bucket key).Returned before) := by
  refine .bind _ (spec_get hKey) (fun _ _ h => ⟨h.1, trivial⟩) ?_
  intro found
  refine .pure fun broker h => ⟨h.1, h.2.1, ?_⟩
  have hFound : before.value bucket key = found.map (·.value) := by
    rw [← h.2.1]
    exact h.2.2
  exact congrArg Answer.value hFound.symm

theorem spec_deleteRequest (hKey : isReservedKvKey key = false) :
    (sees before (before.delete bucket key)).Spec (fun _ => True)
      ((Request.delete bucket key).onBroker config)
      ((Request.delete bucket key).Returned before) := by
  refine .bind _ (spec_delete config hKey) (fun _ _ h => h) ?_
  intro _
  exact .pure fun _ h => ⟨h.1, h.2.1, rfl, h.2.2⟩

/-! ### Puts -/

/-- What is seen, and what is known of the put. -/
structure Prepared (bucket key idempotencyKey : Str) (before : Seen) (broker : Broker) : Prop where
  seen : seen broker = before
  inv : Inv bucket key idempotencyKey broker
  undisturbed : Advanced bucket key idempotencyKey (broker.logOf (streamName bucket)) →
    Published bucket key idempotencyKey (broker.logOf (streamName bucket))

theorem logOf_noteCall {call : NatsCall} {ledgerKey : Str} (h : NoteCall ledgerKey call)
    (broker : Broker) (bucket : Str) :
    (Broker.handle broker call).2.logOf (streamName bucket) = broker.logOf (streamName bucket) := by
  cases h with
  | quiet hQuiet => exact (handle_isQuiet hQuiet).logOf _
  | note payload options =>
      show (broker.publish _ _ _ _ _).2.logOf _ = _
      rcases publish_cases broker Ledger.stream (Ledger.ledgerSubject ledgerKey) [] payload options
        with ⟨err, hEq, -⟩ | ⟨sequence, -, hEq⟩ | ⟨stream, -, -, hEq⟩
      · rw [hEq]
      · rw [hEq]
      · rw [hEq]
        show (broker.setStream Ledger.stream (stream.append (Ledger.ledgerSubject ledgerKey) []
          payload)).logOf (streamName bucket) = _
        rw [Broker.logOf_setStream, if_neg (Ne.symm ledger_ne_streamName)]

/-- Whether the put has been applied is found out, and nothing else is changed. -/
theorem triple_anyAppliedRevision (hKey : isReservedKvKey key = false) :
    Triple faultyBroker Alone (Prepared bucket key idempotencyKey before)
      (anyAppliedRevision config bucket key idempotencyKey).run
      (fun result => (sees before after).At (byOutcome (fun found s => s = before ∧
        (found.isSome = true ↔ before.applied bucket key idempotencyKey)) (fun _ _ => True) result))
      (sees before after).Inv := by
  intro broker outcome broker' hStart hRun
  let Same : Broker → Prop := fun b =>
    seen b = before ∧ b.logOf (streamName bucket) = broker.logOf (streamName bucket)
  have hKept : ∀ ⦃call b reply b'⦄, NoteCall (writebackLedgerKey bucket key idempotencyKey) call →
      Same b → faultyBroker b call reply b' → Same b' := by
    intro call b reply b' hNote hSame hCall
    have hHandled : Same (Broker.handle b call).2 :=
      ⟨(seen_sideways hNote.sideways b).trans hSame.1,
        (logOf_noteCall hNote b bucket).trans hSame.2⟩
    rcases hCall.inv with ⟨-, rfl⟩ | ⟨-, rfl | ⟨-, rfl⟩⟩
    · exact hHandled
    · exact hSame
    · exact hHandled
  have hSame : Triple faultyBroker Alone Same (anyAppliedRevision config bucket key
      idempotencyKey).run (fun _ => Same) Same :=
    .calls (notes_anyAppliedRevision config) (stable_alone _) (fun _ h => h) hKept
  have hEvidence := @spec_anyAppliedRevision bucket key idempotencyKey _ config
  have hBoth := hSame.both (Triple.alone hEvidence)
  have hEnd := hBoth ⟨⟨hStart.seen, rfl⟩, hStart.inv, trivial⟩ hRun
  have hApplied : before.applied bucket key idempotencyKey ↔
      Published bucket key idempotencyKey (broker.logOf (streamName bucket)) := by
    rw [← hStart.seen]
    exact seen_applied hKey broker
  match outcome with
  | none => exact Or.inl hEnd.1.1
  | some (.error err) => exact ⟨Or.inl hEnd.1.1, trivial⟩
  | some (.ok none) =>
      obtain ⟨⟨hSeen, hLog⟩, -, hUnpublished⟩ := hEnd
      change ¬ Published _ _ _ _ at hUnpublished
      rw [hLog] at hUnpublished
      refine ⟨Or.inl hSeen, hSeen, ?_⟩
      rw [hApplied]
      exact iff_of_false (by simp) hUnpublished
  | some (.ok (some revision)) =>
      obtain ⟨⟨hSeen, hLog⟩, -, hEvidence⟩ := hEnd
      change Evidence _ _ _ _ at hEvidence
      rw [hLog] at hEvidence
      refine ⟨Or.inl hSeen, hSeen, ?_⟩
      rw [hApplied]
      exact iff_of_true rfl (hEvidence.elim id hStart.undisturbed)

/-- A put stores its value, unless it has been applied before. -/
theorem triple_putRequest (hKey : isReservedKvKey key = false) (bytes : Bytes) :
    Triple faultyBroker Alone (Prepared bucket key idempotencyKey before)
      ((Request.put bucket key bytes idempotencyKey).onBroker config).run
      (fun result => (sees before
        ((Request.put bucket key bytes idempotencyKey).effect before)).At
          ((Request.put bucket key bytes idempotencyKey).Returned before result))
      (sees before ((Request.put bucket key bytes idempotencyKey).effect before)).Inv := by
  generalize hAfter : (Request.put bucket key bytes idempotencyKey).effect before = after
  have hPut : Triple faultyBroker Alone (Prepared bucket key idempotencyKey before)
      (putIdempotent config bucket key bytes idempotencyKey).run
      (fun result => (sees before after).At
        (byOutcome (fun _ s => s = after) (fun _ _ => True) result)) (sees before after).Inv := by
    rw [putIdempotent_eq]
    refine Triple.bindExcept _ (triple_anyAppliedRevision config hKey) (fun _ => stable_alone _)
      (fun _ _ h => h) (fun _ _ h => h.1) ?_
    intro found
    cases found with
    | some revision =>
        refine Assertions.Spec.pure (A := sees before after) ?_
        rintro broker ⟨hOne, hSeen, hFound⟩
        have hSame : after = before := by
          rw [← hAfter]
          exact if_pos (hFound.mp rfl)
        exact ⟨hOne, hSeen.trans hSame.symm⟩
    | none =>
        refine Assertions.Spec.assume (A := sees before after)
          (ψ := ¬ before.applied bucket key idempotencyKey) ?_ ?_
        · rintro broker ⟨-, -, hFound⟩ hApplied
          cases hFound.mpr hApplied
        · intro hNew
          have hStored : before.put bucket key bytes idempotencyKey = after := by
            rw [← hAfter]
            exact (if_neg hNew).symm
          subst hStored
          refine (spec_putNew config hKey bytes).weaken (fun _ h => ⟨h.1, h.2.1⟩) ?_
          intro result broker h
          cases result with
          | ok sequence => exact h
          | error err => exact h
  refine Triple.bindExcept _ hPut (fun _ => stable_alone _) (fun _ _ h => h) (fun _ _ h => h.1) ?_
  intro _
  refine Assertions.Spec.pure (A := sees before after) fun broker h => ⟨h.1, ?_, rfl⟩
  rw [hAfter]
  exact h.2

theorem triple_putAppliedRequest (hKey : isReservedKvKey key = false) :
    Triple faultyBroker Alone (Prepared bucket key idempotencyKey before)
      ((Request.putApplied bucket key idempotencyKey).onBroker config).run
      (fun result => (sees before before).At
        ((Request.putApplied bucket key idempotencyKey).Returned before result))
      (sees before before).Inv := by
  have hLook : Triple faultyBroker Alone (Prepared bucket key idempotencyKey before)
      (putApplied config bucket key idempotencyKey).run
      (fun result => (sees before before).At (byOutcome (fun applied s => s = before ∧
        (applied = true ↔ before.applied bucket key idempotencyKey)) (fun _ _ => True) result))
      (sees before before).Inv := by
    refine Triple.bindExcept _ (triple_anyAppliedRevision config hKey) (fun _ => stable_alone _)
      (fun _ _ h => h) (fun _ _ h => h.1) ?_
    intro found
    exact Assertions.Spec.pure (A := sees before before) fun _ h => h
  refine Triple.bindExcept _ hLook (fun _ => stable_alone _) (fun _ _ h => h) (fun _ _ h => h.1) ?_
  intro applied
  exact Assertions.Spec.pure (A := sees before before) fun _ h => ⟨h.1, h.2.1, applied, rfl, h.2.2⟩

/-! ### What stays true of the other puts -/

/-- A call that keeps what is known of this put. -/
def Spares (bucket key idempotencyKey : Str) (call : NatsCall) : Prop :=
  ∀ broker, Inv bucket key idempotencyKey broker →
    Inv bucket key idempotencyKey (Broker.handle broker call).2

theorem triple_of_spares {α : Type} {p : NatsM α}
    (h : Issues (Spares bucket key idempotencyKey) p) :
    Triple faultyBroker Alone (Inv bucket key idempotencyKey) p.run
      (fun _ => Inv bucket key idempotencyKey) (Inv bucket key idempotencyKey) := by
  refine Triple.calls h (stable_alone _) (fun _ h => h) ?_
  intro call b reply b' hSpares hInv hCall
  rcases hCall.inv with ⟨-, rfl⟩ | ⟨-, rfl | ⟨-, rfl⟩⟩
  · exact hSpares b hInv
  · exact hInv
  · exact hSpares b hInv

theorem spares_quiet {call : NatsCall} (hQuiet : call.quiet = true) :
    Spares bucket key idempotencyKey call := by
  intro broker hInv
  have hAt : At bucket key idempotencyKey .truth broker := ⟨hInv, trivial⟩
  exact (inv_quiet hQuiet hAt).1

/-- A message of another put or of a delete. -/
theorem spares_publish {name storeSubject : Str} {headers : Headers} {payload : Payload}
    {options : PublishOptions}
    (hStrange : name = streamName bucket → ∀ sequence, Strange bucket key idempotencyKey
      ⟨storeSubject, sequence, headers, payload⟩)
    (hLedger : name = Ledger.stream →
      storeSubject ≠ Ledger.ledgerSubject (writebackLedgerKey bucket key idempotencyKey)) :
    Spares bucket key idempotencyKey (.publish name storeSubject headers payload options) := by
  intro broker hInv
  show Inv _ _ _ (broker.publish _ _ _ _ _).2
  rcases publish_cases broker name storeSubject headers payload options
    with ⟨err, hEq, -⟩ | ⟨sequence, -, hEq⟩ | ⟨stream, hStream, -, hEq⟩
  · rw [hEq]
    exact hInv
  · rw [hEq]
    exact hInv
  · rw [hEq]
    have hStored : Inv bucket key idempotencyKey
        (broker.setStream name (stream.append storeSubject headers payload)) := by
      by_cases hName : name = streamName bucket
      · subst hName
        have hForeign := Foreign.publish storeSubject headers payload hStream (hStrange rfl _)
        exact (stable_at .truth hForeign ⟨hInv, trivial⟩).1
      · have hStream' := (hInv.wellFormed _ _ hStream).append storeSubject headers payload
        have hWell : (broker.setStream name
            (stream.append storeSubject headers payload)).WellFormed :=
          hInv.wellFormed.setStream hStream'
        have hLog : (broker.setStream name (stream.append storeSubject headers payload)).logOf
            (streamName bucket) = broker.logOf (streamName bucket) := by
          rw [Broker.logOf_setStream, if_neg (Ne.symm hName)]
        refine ⟨hWell, by rw [hLog]; exact hInv.sound, ?_⟩
        intro message hMem hSubject
        rw [hLog]
        rw [Broker.logOf_setStream] at hMem
        by_cases hNoted : Ledger.stream = name
        · subst hNoted
          rw [if_pos rfl] at hMem
          rcases List.mem_append.mp hMem with hOld | hNew
          · refine hInv.ledger message ?_ hSubject
            rw [Broker.logOf_of_some hStream]
            exact hOld
          · rw [List.mem_singleton.mp hNew] at hSubject
            exact absurd hSubject (hLedger rfl)
        · rw [if_neg hNoted] at hMem
          exact hInv.ledger message hMem hSubject
    exact ⟨hStored.wellFormed, hStored.sound, hStored.ledger⟩

omit [Nuid] in
/-- Markers of one kind have subjects apart, as their idempotency keys are. -/
theorem markerSubject_injective {bucket kind other idempotencyKey : Str}
    (h : subject bucket (kind ++ '.' :: hexEncode (Text.asBytes other)) =
      subject bucket (kind ++ '.' :: hexEncode (Text.asBytes idempotencyKey))) :
    other = idempotencyKey := by
  have hHex := (List.cons.inj (List.append_cancel_left (subject_injective h))).2
  exact Text.asBytes_injective (hexEncode_injective hHex)

omit [Nuid] in
theorem markerSubjects_apart (bucket other idempotencyKey : Str) :
    writebackMarkerSubject bucket other ≠ appliedMarkerSubject bucket idempotencyKey := by
  intro h
  have hEqual := subject_injective h
  have hChar : some 'w' = some 'a' := congrArg (fun s : Str => s[10]?) hEqual
  exact absurd hChar (by decide)

/-- What a put issues besides its message is of no concern to a put under another key. -/
theorem spares_sideCall {otherBucket otherKey other : Str} (hOther : other ≠ idempotencyKey)
    {call : NatsCall} (h : SideCall bucket key idempotencyKey call) :
    Spares otherBucket otherKey other call := by
  cases h with
  | noting hNoting =>
      cases hNoting with
      | quiet hQuiet => exact spares_quiet hQuiet
      | note payload options =>
          refine spares_publish (fun hName => absurd hName ledger_ne_streamName) ?_
          intro _ hSubject
          have hKeys := Ledger.ledgerSubject_injective hSubject
          have hWrites := @Ledger.Write.ledgerKey_injective ⟨.kv, bucket, key, idempotencyKey⟩
            ⟨.kv, otherBucket, otherKey, other⟩ hKeys
          exact hOther (congrArg Ledger.Write.idempotencyKey hWrites).symm
  | applyMarker options =>
      refine spares_publish ?_ fun hName => absurd hName.symm ledger_ne_streamName
      intro hName sequence
      obtain rfl := streamName_injective hName
      refine ⟨fun h => hOther (markerSubject_injective h).symm, markerSubjects_apart _ _ _, ?_⟩
      rw [carries, Bool.and_eq_false_iff]
      exact Or.inr rfl
  | appliedMarker options =>
      refine spares_publish ?_ fun hName => absurd hName.symm ledger_ne_streamName
      intro hName sequence
      obtain rfl := streamName_injective hName
      refine ⟨(markerSubjects_apart _ _ _).symm, fun h =>
        hOther (markerSubject_injective h).symm, ?_⟩
      rw [carries, Bool.and_eq_false_iff]
      exact Or.inr rfl

/-- A message of a key that carries no idempotency key of this put. -/
theorem spares_keyMessage {otherBucket otherKey other : Str} (hKey : isReservedKvKey key = false)
    {headers : Headers} (hHeaders : headersContainIdempotencyKey headers other = false)
    (payload : Payload) (options : PublishOptions) :
    Spares otherBucket otherKey other
      (.publish (streamName bucket) (subject bucket key) headers payload options) := by
  refine spares_publish ?_ fun hName => absurd hName.symm ledger_ne_streamName
  intro hName sequence
  obtain rfl := streamName_injective hName
  refine ⟨(writebackMarkerSubject_ne_subject hKey).symm,
    (appliedMarkerSubject_ne_subject hKey).symm, ?_⟩
  rw [carries, Bool.and_eq_false_iff]
  exact Or.inr hHeaders

omit [Nuid] in
theorem issues_putIdempotent {Allowed : NatsCall → Prop} (bytes : Bytes)
    (hSide : ∀ call, SideCall bucket key idempotencyKey call → Allowed call)
    (hStore : ∀ options, Allowed (.publish (streamName bucket) (subject bucket key)
      [(writebackIdempotencyHeader, idempotencyKey)] (.bytes bytes) options)) :
    Issues Allowed (putIdempotent config bucket key bytes idempotencyKey) := by
  have hQuiet {α : Type} {p : NatsM α} (h : IsQuiet p) : Issues Allowed p :=
    (side_quiet h).weaken hSide
  rw [putIdempotent_eq]
  refine .bind ((notes_anyAppliedRevision config).weaken fun call h => hSide call (.noting h)) ?_
  intro found
  cases found with
  | some revision => exact .pure _
  | none =>
      refine .bind (hQuiet (quiet_ensureBucket config bucket)) fun _ => ?_
      refine .bind (hQuiet (.ensureDuplicateWindow config _)) fun _ => ?_
      refine .bind ((side_ensureApplyMarker config).weaken hSide) fun _ => ?_
      refine .bind (.retryPublish (hSide _ (.noting (.quiet rfl))) (hStore _)) fun _ => ?_
      refine .bind ((side_recordAppliedMarker config).weaken hSide) fun _ => ?_
      refine .bind ((side_recordApplied config).weaken hSide) fun _ => ?_
      exact .pure _

omit [Nuid] in
theorem issues_deleteRevisionOnce {Allowed : NatsCall → Prop}
    (hQuiet : ∀ call : NatsCall, call.quiet = true → Allowed call)
    (hDelete : ∀ options, Allowed (.publish (streamName bucket) (subject bucket key)
      [(operationHeader, operationDelete)] (.bytes []) options)) (revision : Nat) :
    Issues Allowed (deleteRevisionOnce config bucket key revision) := by
  refine .inspect (.retryIo (.perform (hDelete _)) _) ?_
  intro result
  cases result with
  | ok _ => exact .pure _
  | error err =>
      refine .bind (Ledger.quiet_get.issues hQuiet) ?_
      intro entry
      cases entry with
      | none => exact .pure _
      | some entry =>
          dsimp only
          split
          · exact .pure _
          · exact .throw _

omit [Nuid] in
theorem issues_delete {Allowed : NatsCall → Prop}
    (hQuiet : ∀ call : NatsCall, call.quiet = true → Allowed call)
    (hDelete : ∀ options, Allowed (.publish (streamName bucket) (subject bucket key)
      [(operationHeader, operationDelete)] (.bytes []) options)) :
    Issues Allowed (delete config bucket key) := by
  unfold delete retryPlainKvDelete
  generalize min (config.retries + 1) (2 ^ 64 - 1) = attempts
  suffices hRounds : ∀ left, Issues Allowed (plainKvDeleteRounds
      (do return (← get bucket key).map (·.revision)) (deleteRevisionOnce config bucket key)
      attempts left) from hRounds attempts
  intro left
  induction left with
  | zero => exact .throw _
  | succ left ih =>
      refine .bind (.bind (Ledger.quiet_get.issues hQuiet) fun _ => .pure _) ?_
      intro current
      cases current with
      | none => exact .throw _
      | some revision =>
          refine .bind (issues_deleteRevisionOnce config hQuiet hDelete revision) ?_
          intro outcome
          cases outcome with
          | deleted => exact .pure _
          | missing => exact .throw _
          | revisionChanged =>
              by_cases hLast : left = 0
              · simp only [hLast, if_true]
                exact .throw _
              · simp only [hLast, if_false]
                exact ih

end OnBroker

/-! ## Runs -/

section Runs

variable [Nuid] [Serde] {target : Str → Str × Str} {broker broker' : Broker}
  {outcome : Option (TransportResult Answer)}

/-- The keys of the broker show what is held in memory, and what is known of every put holds. -/
structure Represents (target : Str → Str × Str) (broker : Broker) (store : MemoryStorage) :
    Prop where
  seen : seen broker = shown store
  inv : ∀ i, Inv (target i).1 (target i).2 i broker

/-- One request to the broker, with any of its calls refused or unacknowledged, and maybe
cut off. -/
structure BrokerStep (target : Str → Str × Str) (broker : Broker) (event : Asked)
    (broker' : Broker) : Prop where
  named : isReservedKvKey event.request.key = false
  orderly : event.request.Orderly target broker
  run : ∃ config,
    Run faultyBroker Alone (event.request.onBroker config).run broker event.outcome broker'

/-- The same request in memory. -/
def MemoryStep (store : MemoryStorage) (event : Asked) (store' : MemoryStorage) : Prop :=
  Run flakyMemory Alone event.request.inMemory store event.outcome store'

omit [Serde] in
theorem does_request (config : NatsStorageConfig) {request : Request}
    (hKey : isReservedKvKey request.key = false) (hOrderly : request.Orderly target broker)
    (hInv : ∀ i, Inv (target i).1 (target i).2 i broker)
    (hRun : Run faultyBroker Alone (request.onBroker config).run broker outcome broker') :
    request.Does (seen broker) outcome (seen broker') := by
  cases request with
  | get bucket key =>
      exact does_of_triple config (spec_getRequest config hKey) ⟨Or.inl rfl, rfl⟩ hRun
  | delete bucket key =>
      exact does_of_triple config (spec_deleteRequest config hKey) ⟨Or.inl rfl, trivial⟩ hRun
  | put bucket key bytes idempotencyKey =>
      have hOwn := hInv idempotencyKey
      rw [hOrderly.1] at hOwn
      exact does_of_triple config (triple_putRequest config hKey bytes)
        ⟨rfl, hOwn, hOrderly.2⟩ hRun
  | putApplied bucket key idempotencyKey =>
      have hOwn := hInv idempotencyKey
      rw [hOrderly.1] at hOwn
      exact does_of_triple config (triple_putAppliedRequest config hKey)
        ⟨rfl, hOwn, hOrderly.2⟩ hRun

omit [Serde] in
theorem triple_inv (config : NatsStorageConfig) {request : Request}
    (hKey : isReservedKvKey request.key = false) (hOrderly : request.Orderly target broker)
    (i : Str) :
    Triple faultyBroker Alone (Inv (target i).1 (target i).2 i) (request.onBroker config).run
      (fun _ => Inv (target i).1 (target i).2 i) (Inv (target i).1 (target i).2 i) := by
  cases request with
  | get bucket key =>
      refine triple_of_spares (.bind (Ledger.quiet_get.issues fun _ => spares_quiet) fun _ => ?_)
      exact .pure _
  | delete bucket key =>
      refine triple_of_spares (.bind (issues_delete config (fun _ => spares_quiet) ?_)
        fun _ => .pure _)
      exact spares_keyMessage hKey (headers_delete i) _
  | put bucket key bytes idempotencyKey =>
      by_cases hOwn : i = idempotencyKey
      · subst hOwn
        rw [hOrderly.1]
        have hPut : Spec (.truth : Fact bucket key i)
            ((Request.put bucket key bytes i).onBroker config) fun _ => .truth :=
          .bind _ (spec_putIdempotent config hKey bytes) (fun _ _ h => h)
            fun _ => .pure fun _ h => h
        exact (Triple.alone hPut).weaken (fun _ h => ⟨h, trivial⟩) (fun _ _ h => h.1) fun _ h => h
      · have hHeaders : headersContainIdempotencyKey
            [(writebackIdempotencyHeader, idempotencyKey)] i = false := by
          rw [← Bool.not_eq_true, headers_put]
          exact hOwn
        refine triple_of_spares (.bind (issues_putIdempotent config bytes
          (fun _ => spares_sideCall hOwn) ?_) fun _ => .pure _)
        exact spares_keyMessage hKey hHeaders _
  | putApplied bucket key idempotencyKey =>
      by_cases hOwn : i = idempotencyKey
      · subst hOwn
        rw [hOrderly.1]
        have hLook : Spec (.truth : Fact bucket key i)
            ((Request.putApplied bucket key i).onBroker config) fun _ => .truth :=
          .bind (fun _ => .truth)
            ((spec_putApplied config).weaken (fun _ h => h) fun _ _ _ => trivial)
            (fun _ _ h => h) fun _ => .pure fun _ h => h
        exact (Triple.alone hLook).weaken (fun _ h => ⟨h, trivial⟩) (fun _ _ h => h.1) fun _ h => h
      · have hNotes : Issues (Spares (target i).1 (target i).2 i)
            (anyAppliedRevision config bucket key idempotencyKey) :=
          (notes_anyAppliedRevision config).weaken fun _ h => spares_sideCall hOwn (.noting h)
        exact triple_of_spares (.bind (.bind hNotes fun _ => .pure _) fun _ => .pure _)

/-- Every request to the broker is one in memory. -/
theorem step_in_memory {store : MemoryStorage} {event : Asked} (h : Represents target broker store)
    (hStep : BrokerStep target broker event broker') :
    ∃ store', MemoryStep store event store' ∧ Represents target broker' store' := by
  obtain ⟨config, hRun⟩ := hStep.run
  have hDoes := does_request config hStep.named hStep.orderly h.inv hRun
  rw [h.seen] at hDoes
  obtain ⟨store', hMemory, hShown⟩ := run_inMemory hStep.named hDoes
  refine ⟨store', hMemory, hShown.symm, fun i => ?_⟩
  have hEnd := triple_inv config hStep.named hStep.orderly i (h.inv i) hRun
  cases hOutcome : event.outcome with
  | none =>
      rw [hOutcome] at hEnd
      exact hEnd
  | some result =>
      rw [hOutcome] at hEnd
      exact hEnd

/-- Whatever calls are refused, unacknowledged or never made, a run of requests to the broker
is one to the storage in memory: with the same answers, and the same keys at its end. -/
theorem kv_refines_memory {store : MemoryStorage} {events : List Asked}
    (hStart : Represents target broker store)
    (run : Trace (BrokerStep target) broker events broker') :
    ∃ store', Trace MemoryStep store events store' ∧ Represents target broker' store' := by
  have hStep : ∀ ⦃b event b' s⦄, Represents target b s → BrokerStep target b event b' →
      ∃ s', MemoryStep s event s' ∧ Represents target b' s' :=
    fun _ _ _ _ h hOne => step_in_memory h hOne
  exact Trace.simulate hStep hStart run

end Runs

/-! A put that is cut off right after its message is stored, made again, and read back. -/

section Example

attribute [local instance] countingNuid MemoryStorage.nullSerde

theorem represents_empty (target : Str → Str × Str) :
    Represents target emptyBroker MemoryStorage.new where
  seen := by
    refine Seen.ext ?_ ?_
    · funext bucket key
      show (if _ then none else none) = if _ then none else none
      rfl
    · funext bucket key idempotencyKey
      refine propext (and_congr_right fun _ => ?_)
      refine iff_of_false ?_ (by simp [MemoryStorage.applied, MemoryStorage.new])
      rintro ⟨message, hMem, -⟩
      cases hMem
  inv i := by
    refine Untouched.inv ⟨?_, ?_, ?_⟩
    · intro name stream hStream
      cases hStream
    · intro message hMem
      cases hMem
    · intro message hMem
      cases hMem

def putAgain : Request := .put ['b'] ['k'] [1] ['x']

def cutOff : Broker :=
  stateAfter Broker.handle 16 (putAgain.onBroker ⟨1, 64, 2⟩).run emptyBroker

def answered (request : Request) (broker : Broker) : TransportResult Answer × Broker :=
  eval Broker.handle (request.onBroker ⟨1, 64, 2⟩).run broker

def madeAgain : Broker := (answered putAgain cutOff).2

theorem repeated_put_in_memory :
    ∃ store', Trace MemoryStep MemoryStorage.new
        [⟨putAgain, none⟩, ⟨putAgain, some (.ok .done)⟩,
          ⟨.get ['b'] ['k'], some (.ok (.value (some (.bytes [1]))))⟩] store' ∧
      Represents (fun _ => (['b'], ['k'])) (answered (.get ['b'] ['k']) madeAgain).2 store' := by
  have hCut : BrokerStep (fun _ => (['b'], ['k'])) emptyBroker ⟨putAgain, none⟩ cutOff := by
    refine ⟨by decide, ⟨rfl, ?_⟩, ⟨1, 64, 2⟩, run_stateAfter Faulty.done 16 _ emptyBroker⟩
    rintro ⟨marker, hMem, -⟩
    cases hMem
  have hStored : Published ['b'] ['k'] ['x'] (cutOff.logOf (streamName ['b'])) := by
    have hCount : 0 < (cutOff.logOf (streamName ['b'])).countP (carries ['b'] ['k'] ['x']) := by
      decide
    exact List.countP_pos_iff.mp hCount
  have hPut : (answered putAgain cutOff).1 = .ok .done := by rfl
  have hAgain : BrokerStep (fun _ => (['b'], ['k'])) cutOff ⟨putAgain, some (.ok .done)⟩
      madeAgain := by
    refine ⟨by decide, ⟨rfl, fun _ => hStored⟩, ⟨1, 64, 2⟩, ?_⟩
    rw [← hPut]
    exact run_eval Faulty.done _ cutOff
  have hGet : (answered (.get ['b'] ['k']) madeAgain).1 = .ok (.value (some (.bytes [1]))) := by rfl
  have hRead : BrokerStep (fun _ => (['b'], ['k'])) madeAgain
      ⟨.get ['b'] ['k'], some (.ok (.value (some (.bytes [1]))))⟩
      (answered (.get ['b'] ['k']) madeAgain).2 := by
    refine ⟨by decide, trivial, ⟨1, 64, 2⟩, ?_⟩
    rw [← hGet]
    exact run_eval Faulty.done _ madeAgain
  have hRun : Trace (BrokerStep fun _ => (['b'], ['k'])) emptyBroker
      [⟨putAgain, none⟩, ⟨putAgain, some (.ok .done)⟩,
        ⟨.get ['b'] ['k'], some (.ok (.value (some (.bytes [1]))))⟩]
      (answered (.get ['b'] ['k']) madeAgain).2 :=
    .step (.step (.step (.nil emptyBroker) hCut) hAgain) hRead
  exact kv_refines_memory (represents_empty _) hRun

end Example

end EventFs.Transport.Nats.Kv
