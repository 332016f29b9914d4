import EventFs.Transport.Nats.QuietPrograms

/-!
# Assertions that other clients keep

The rules for the programs of the client, for any family of assertions about the broker
that survive what other clients do and calls that leave their subject alone: sequencing,
calls that only look, and a publish with its retries.
-/

namespace EventFs.Transport.Nats

open Library Protocol Program

/-- A family of assertions about the broker, kept by what others do and by idle calls. -/
structure Assertions [Nuid] (φ : Type) where
  others : Broker → Broker → Prop
  idle : NatsCall → Prop
  Inv : Broker → Prop
  At : φ → Broker → Prop
  inv : ∀ {fact broker}, At fact broker → Inv broker
  stable : ∀ fact, Stable others (At fact)
  kept : ∀ {fact call broker}, idle call → At fact broker → At fact (Broker.handle broker call).2

variable [Nuid] {φ α β : Type} {A : Assertions φ} {before : φ}

/-- From an assertion, the program ends in the one its result stands for, and keeps the
invariant at every point. -/
def Assertions.Spec (A : Assertions φ) (before : φ) (p : NatsM α)
    (after : Except TransportError α → φ) : Prop :=
  Triple faultyBroker A.others (A.At before) p.run (fun result => A.At (after result)) A.Inv

namespace Assertions.Spec

theorem pure {a : α} {after : Except TransportError α → φ}
    (h : ∀ broker, A.At before broker → A.At (after (.ok a)) broker) :
    A.Spec before (Pure.pure a) after :=
  .ret (A.stable before) h fun _ => A.inv

theorem throw {err : TransportError} {after : Except TransportError α → φ}
    (h : ∀ broker, A.At before broker → A.At (after (.error err)) broker) :
    A.Spec before (MonadExcept.throw err) after :=
  .ret (A.stable before) h fun _ => A.inv

theorem bind {p : NatsM α} {f : α → NatsM β} (between : Except TransportError α → φ)
    {after : Except TransportError β → φ} (hFirst : A.Spec before p between)
    (hError : ∀ err broker, A.At (between (.error err)) broker →
      A.At (after (.error err)) broker)
    (hSecond : ∀ a, A.Spec (between (.ok a)) (f a) after) : A.Spec before (p >>= f) after :=
  Triple.bindExcept _ hFirst (fun err => A.stable (between (.error err))) hError
    (fun _ _ => A.inv) hSecond

theorem weaken {p : NatsM α} {before' : φ} {after after' : Except TransportError α → φ}
    (h : A.Spec before p after) (hBefore : ∀ broker, A.At before' broker → A.At before broker)
    (hAfter : ∀ result broker, A.At (after result) broker → A.At (after' result) broker) :
    A.Spec before' p after' :=
  Triple.weaken h hBefore hAfter fun _ h => h

/-- A consequence of the assertion that does not depend on the broker may be used. -/
theorem assume {p : NatsM α} {after : Except TransportError α → φ} {ψ : Prop}
    (hψ : ∀ broker, A.At before broker → ψ) (h : ψ → A.Spec before p after) :
    A.Spec before p after :=
  Triple.assume hψ h

/-- Where one of several assertions holds, each is enough. -/
theorem any {ι : Type} {p : NatsM α} {after : Except TransportError α → φ} (cases : ι → φ)
    (hCases : ∀ broker, A.At before broker → ∃ i, A.At (cases i) broker)
    (h : ∀ i, A.Spec (cases i) p after) : A.Spec before p after :=
  (Triple.exists h).weaken hCases (fun _ _ h => h) fun _ h => h

/-- Looking at the outcome of a program that may fail. -/
theorem inspect {p : NatsM α} {f : Except TransportError α → NatsM β}
    (between : Except TransportError α → φ) {after : Except TransportError β → φ}
    (hFirst : A.Spec before p between)
    (hSecond : ∀ result, A.Spec (between result) (f result) after) :
    A.Spec before (ExceptT.lift p.run >>= f) after := by
  have hRun : (ExceptT.lift p.run >>= f).run = p.run >>= fun result => (f result).run :=
    ExceptT.run_bind_lift _ _
  show Triple _ _ _ (ExceptT.lift p.run >>= f).run _ _
  rw [hRun]
  exact Triple.bind _ hFirst hSecond

/-- An idle call. What its reply says about the broker may be used. -/
theorem attempt {call : NatsCall} (hIdle : A.idle call)
    {f : Except IoError call.Value → NatsM β} (between : Except IoError call.Value → φ)
    {after : Except TransportError β → φ}
    (hReply : ∀ broker, A.At before broker → A.At (between (Broker.handle broker call).1) broker)
    (hFail : ∀ err broker, err.isNotFound = false → A.At before broker →
      A.At (between (.error err)) broker)
    (hNext : ∀ reply, A.Spec (between reply) (f reply) after) :
    A.Spec before (Nats.attempt call >>= f) after := by
  have hRun : (Nats.attempt call >>= f).run =
      Program.perform (I := nats) call >>= fun reply => (f reply).run :=
    ExceptT.run_bind_lift _ _
  show Triple _ _ _ (Nats.attempt call >>= f).run _ _
  rw [hRun]
  refine Triple.bind (fun reply => A.At (between reply)) ?_ hNext
  refine Triple.perform (A.stable before) (fun reply => A.stable (between reply))
    (fun _ => A.inv) (fun _ _ => A.inv) ?_
  intro broker reply broker' hAt hCall
  rcases hCall.inv with ⟨rfl, rfl⟩ | ⟨⟨-, err, rfl, hErr⟩, rfl | ⟨-, rfl⟩⟩
  · exact A.kept hIdle (hReply broker hAt)
  · exact hFail err _ hErr hAt
  · exact hFail err _ hErr (A.kept hIdle hAt)

/-- A call of which "not found" is an answer; `failed` holds after any other error. -/
theorem lookup {call : NatsCall} (hIdle : A.idle call) (between : Option call.Value → φ)
    (failed : φ)
    (hFound : ∀ broker value, A.At before broker → (Broker.handle broker call).1 = .ok value →
      A.At (between (some value)) broker)
    (hMissing : ∀ broker, A.At before broker →
      (Broker.handle broker call).1 = .error .notFound → A.At (between none) broker)
    (hFailed : ∀ broker, A.At before broker → A.At failed broker) :
    A.Spec before (Nats.lookup call) fun
      | .ok found => between found
      | .error _ => failed := by
  refine .attempt hIdle (byOutcome (fun value => between (some value))
    fun err => if err.isNotFound then between none else failed) ?_ ?_ ?_
  · intro broker hAt
    cases hReply : (Broker.handle broker call).1 with
    | ok value => exact hFound broker value hAt hReply
    | error err =>
        by_cases hErr : err.isNotFound = true
        · obtain rfl := handle_notFound hReply hErr
          exact hMissing broker hAt hReply
        · simp only [byOutcome, hErr]
          exact hFailed broker hAt
  · intro err broker hErr hAt
    simp only [byOutcome, hErr]
    exact hFailed broker hAt
  · intro reply
    cases reply with
    | ok value => exact .pure fun _ h => h
    | error err =>
        by_cases hErr : err.isNotFound = true
        · simp only [byOutcome, hErr, if_true]
          exact .pure fun _ h => h
        · simp only [byOutcome, hErr]
          exact .throw fun _ h => h

/-- A call that keeps an assertion when the broker acts on it. -/
theorem perform {call : NatsCall}
    (h : ∀ broker, A.At before broker → A.At before (Broker.handle broker call).2) :
    A.Spec before (Nats.perform call) fun _ => before := by
  show Triple _ _ _ (Nats.attempt call >>= _).run _ _
  rw [show (Nats.attempt call >>= _).run = _ from ExceptT.run_bind_lift _ _]
  refine Triple.bind (fun _ => A.At before) ?_ ?_
  · refine Triple.perform (A.stable before) (fun _ => A.stable before) (fun _ => A.inv)
      (fun _ _ => A.inv) ?_
    intro broker reply broker' hAt hCall
    rcases hCall.inv with ⟨-, rfl⟩ | ⟨-, rfl | ⟨-, rfl⟩⟩
    · exact h broker hAt
    · exact hAt
    · exact h broker hAt
  · intro reply
    cases reply with
    | ok _ => exact .ret (A.stable before) (fun _ h => h) fun _ => A.inv
    | error err => exact .ret (A.stable before) (fun _ h => h) fun _ => A.inv

theorem retryIo {p : NatsM α} (h : A.Spec before p fun _ => before) (retries : Nat) :
    A.Spec before (Nats.retryIo p retries) fun _ => before := by
  induction retries with
  | zero => exact h
  | succ retries ih =>
      refine .inspect (fun _ => before) h ?_
      intro result
      cases result with
      | ok value => exact .pure fun _ h => h
      | error err => exact ih

/-- A call that is acknowledged has done its part, and one that fails may have. -/
theorem performTo {call : NatsCall} {after failed : φ}
    (hDone : ∀ broker value, A.At before broker → (Broker.handle broker call).1 = .ok value →
      A.At after (Broker.handle broker call).2)
    (hFailed : ∀ broker, A.At before broker →
      A.At failed broker ∧ A.At failed (Broker.handle broker call).2) :
    A.Spec before (Nats.perform call) (byOutcome (fun _ => after) fun _ => failed) := by
  show Triple _ _ _ (Nats.attempt call >>= _).run _ _
  rw [show (Nats.attempt call >>= _).run = _ from ExceptT.run_bind_lift _ _]
  refine Triple.bind (fun reply => A.At (byOutcome (fun _ => after) (fun _ => failed) reply)) ?_ ?_
  · refine Triple.perform (A.stable before) (fun reply => A.stable _) (fun _ => A.inv)
      (fun _ _ => A.inv) ?_
    intro broker reply broker' hAt hCall
    rcases hCall.inv with ⟨rfl, rfl⟩ | ⟨⟨-, err, rfl, -⟩, rfl | ⟨-, rfl⟩⟩
    · cases hReply : (Broker.handle broker call).1 with
      | ok value => exact hDone broker value hAt hReply
      | error err => exact (hFailed broker hAt).2
    · exact (hFailed _ hAt).1
    · exact (hFailed broker hAt).2
  · intro reply
    cases reply with
    | ok _ => exact .ret (A.stable after) (fun _ h => h) fun _ => A.inv
    | error err => exact .ret (A.stable failed) (fun _ h => h) fun _ => A.inv

/-- What one attempt leads to, several do. -/
theorem retryIoTo {p : NatsM α} {after : φ}
    (h : A.Spec before p (byOutcome (fun _ => after) fun _ => before)) (retries : Nat) :
    A.Spec before (Nats.retryIo p retries) (byOutcome (fun _ => after) fun _ => before) := by
  induction retries with
  | zero => exact h
  | succ retries ih =>
      refine .inspect _ h ?_
      intro result
      cases result with
      | ok value => exact .pure fun _ h => h
      | error err => exact ih

/-- Whatever is asserted before a program of idle calls holds after it. -/
theorem of_calls {p : NatsM α} (h : p.run.Calls A.idle) (fact : φ) :
    A.Spec fact p fun _ => fact := by
  refine Triple.calls h (A.stable fact) (fun _ => A.inv) ?_
  intro call broker reply broker' hIdle hAt hCall
  rcases hCall.inv with ⟨-, rfl⟩ | ⟨-, rfl | ⟨-, rfl⟩⟩
  · exact A.kept hIdle hAt
  · exact hAt
  · exact A.kept hIdle hAt

end Assertions.Spec

/-! ## Publishing -/

namespace Assertions

omit [Nuid] in
theorem duplicateOf_congr {broker broker' : Broker} (h : broker'.recent = broker.recent)
    (name : Str) (id : Option Str) : broker'.duplicateOf name id = broker.duplicateOf name id := by
  unfold Broker.duplicateOf
  rw [h]

variable (A) in
/-- During a publish and its retries: nothing stored yet, or stored and known to the
broker as a duplicate of every further attempt. -/
def Publishing (name id : Str) (before after : φ) (broker : Broker) : Prop :=
  (A.At before broker ∧ broker.duplicateOf name (some id) = none) ∨
    (A.At after broker ∧ broker.duplicateOf name (some id) ≠ none)

variable (A) in
/-- Storing the message turns one assertion into the other. -/
def Stores (name subject : Str) (headers : Headers) (payload : Payload) (before after : φ) : Prop :=
  ∀ ⦃broker stream⦄ (recent : List (Str × Str × Nat)), A.At before broker →
    broker.streams name = some stream →
    A.At after { broker.setStream name (stream.append subject headers payload) with recent }

variable (A) in
/-- After an attempt or several: the publish may go on, and is done if it was acknowledged. -/
def Outcome {ε : Type} (name id : Str) (before after : φ) (result : Except ε Nat)
    (broker : Broker) : Prop :=
  A.Publishing name id before after broker ∧ ∀ sequence, result = .ok sequence → A.At after broker

section Publish

variable {name subject id : Str} {headers : Headers} {payload : Payload} {after : φ}
  (hOthers : ∀ ⦃broker broker'⦄, A.others broker broker' → broker'.recent = broker.recent)

theorem Publishing.inv {broker : Broker} (h : A.Publishing name id before after broker) :
    A.Inv broker := by
  rcases h with ⟨hAt, -⟩ | ⟨hAt, -⟩ <;> exact A.inv hAt

include hOthers in
theorem stable_publishing : Stable A.others (A.Publishing name id before after) := by
  intro broker broker' hStep hState
  have hRecent := duplicateOf_congr (hOthers hStep) name (some id)
  rcases hState with ⟨hBefore, hNone⟩ | ⟨hAfter, hSome⟩
  · exact Or.inl ⟨A.stable before hStep hBefore, by rw [hRecent]; exact hNone⟩
  · exact Or.inr ⟨A.stable after hStep hAfter, by rw [hRecent]; exact hSome⟩

include hOthers in
theorem stable_outcome {ε : Type} (result : Except ε Nat) :
    Stable A.others (A.Outcome name id before after result) := by
  rintro broker broker' hStep ⟨hPublishing, hAfter⟩
  exact ⟨stable_publishing hOthers hStep hPublishing,
    fun sequence hOk => A.stable after hStep (hAfter sequence hOk)⟩

/-- One attempt, when the broker acts on it. -/
theorem handle_publish (hStores : A.Stores name subject headers payload before after)
    {broker : Broker} (h : A.Publishing name id before after broker) :
    A.Outcome name id before after
      (Broker.handle broker (.publish name subject headers payload ⟨some id, none⟩)).1
      (Broker.handle broker (.publish name subject headers payload ⟨some id, none⟩)).2 := by
  show A.Outcome name id before after (broker.publish _ _ _ _ _).1 (broker.publish _ _ _ _ _).2
  rcases publish_cases broker name subject headers payload ⟨some id, none⟩
    with ⟨err, hEq, -⟩ | ⟨sequence, hDuplicate, hEq⟩ | ⟨stream, hStream, hFresh, hEq⟩
  · rw [hEq]
    exact ⟨h, fun sequence hOk => by cases hOk⟩
  · rw [hEq]
    refine ⟨h, fun _ _ => ?_⟩
    rcases h with ⟨-, hNone⟩ | ⟨hAfter, -⟩
    · exact absurd (hNone.symm.trans hDuplicate) (by simp)
    · exact hAfter
  · rw [hEq]
    have hBefore : A.At before broker := by
      rcases h with ⟨hBefore, -⟩ | ⟨-, hSome⟩
      · exact hBefore
      · exact absurd hFresh hSome
    have hAfter := hStores ((name, id, stream.lastSequence + 1) :: broker.recent) hBefore hStream
    exact ⟨Or.inr ⟨hAfter, by simp [Broker.duplicateOf]⟩, fun _ _ => hAfter⟩

include hOthers

theorem triple_attemptPublish (hStores : A.Stores name subject headers payload before after) :
    Triple faultyBroker A.others (A.Publishing name id before after)
      (Nats.perform (.publish name subject headers payload ⟨some id, none⟩)).run
      (A.Outcome name id before after) A.Inv := by
  have hRun : (Nats.perform (.publish name subject headers payload ⟨some id, none⟩)).run =
      Program.perform (I := nats) (.publish name subject headers payload ⟨some id, none⟩) >>=
        fun reply =>
          match reply with
          | .ok sequence => Pure.pure (.ok sequence)
          | .error err => Pure.pure (.error (IoError.toTransport err)) := by
    refine (ExceptT.run_bind_lift _ _).trans ?_
    congr 1
    funext reply
    cases reply <;> rfl
  rw [hRun]
  refine Triple.bind (A.Outcome name id before after) ?_ ?_
  · refine Triple.perform (stable_publishing hOthers) (fun reply => stable_outcome hOthers reply)
      (fun _ h => h.inv) (fun _ _ h => h.1.inv) ?_
    intro broker reply broker' h hCall
    have hDone := handle_publish hStores h
    rcases hCall.inv with ⟨rfl, rfl⟩ | ⟨⟨-, err, rfl, -⟩, rfl | ⟨-, rfl⟩⟩
    · exact hDone
    · exact ⟨h, fun sequence hOk => by cases hOk⟩
    · exact ⟨hDone.1, fun sequence hOk => by cases hOk⟩
  · intro reply
    cases reply with
    | ok sequence =>
        exact .ret (stable_outcome hOthers _) (fun _ h => ⟨h.1, fun s _ => h.2 sequence rfl⟩)
          fun _ h => h.1.inv
    | error err =>
        exact .ret (stable_outcome hOthers _) (fun _ h => ⟨h.1, fun s hOk => by cases hOk⟩)
          fun _ h => h.1.inv

theorem triple_retryPublish (hStores : A.Stores name subject headers payload before after)
    (retries : Nat) :
    Triple faultyBroker A.others (A.Publishing name id before after)
      (Nats.retryIo (Nats.perform (.publish name subject headers payload ⟨some id, none⟩))
        retries).run (A.Outcome name id before after) A.Inv := by
  induction retries with
  | zero => exact triple_attemptPublish hOthers hStores
  | succ retries ih =>
      show Triple _ _ _ (ExceptT.lift _ >>= _).run _ _
      rw [ExceptT.run_bind_lift]
      refine Triple.bind (A.Outcome name id before after) (triple_attemptPublish hOthers hStores) ?_
      intro result
      cases result with
      | ok sequence => exact .ret (stable_outcome hOthers _) (fun _ h => h) fun _ h => h.1.inv
      | error err => exact ih.weaken (fun _ h => h.1) (fun _ _ h => h) fun _ h => h

/-- A publish with retries stores its message at most once. -/
theorem Spec.retryPublish (hIdle : A.idle .beginPublish) (id : Str)
    (hStores : A.Stores name subject headers payload before after) {failed : φ}
    (hBefore : ∀ broker, A.At before broker → A.At failed broker)
    (hAfter : ∀ broker, A.At after broker → A.At failed broker) (retries : Nat) :
    A.Spec before (Nats.retryPublish retries name subject headers payload ⟨some id, none⟩) fun
      | .ok _ => after
      | .error _ => failed := by
  have hBegin : (Nats.retryPublish retries name subject headers payload ⟨some id, none⟩).run =
      Program.perform (I := nats) .beginPublish >>= fun reply =>
        match reply with
        | .ok _ => (Nats.retryIo (Nats.perform (.publish name subject headers payload
            ⟨some id, none⟩)) retries).run
        | .error err => Pure.pure (.error (IoError.toTransport err)) := by
    rw [Nats.retryPublish, Nats.perform, LawfulMonad.bind_assoc]
    refine (ExceptT.run_bind_lift _ _).trans ?_
    congr 1
    funext reply
    cases reply with
    | ok _ => rw [LawfulMonad.pure_bind]
    | error err => rfl
  show Triple _ _ _ (Nats.retryPublish _ _ _ _ _ _).run _ _
  rw [hBegin]
  refine Triple.bind
    (fun reply broker => A.Publishing name id before after broker ∧ reply = .ok ()) ?_ ?_
  · refine Triple.perform (A.stable before) ?_ (fun _ => A.inv) (fun _ _ h => h.1.inv) ?_
    · rintro reply broker broker' hStep ⟨h, hReply⟩
      exact ⟨stable_publishing hOthers hStep h, hReply⟩
    · intro broker reply broker' h hCall
      rcases hCall.inv with ⟨rfl, rfl⟩ | ⟨⟨hNot, -⟩, -⟩
      · have hKept : A.At before (Broker.handle broker .beginPublish).2 := A.kept hIdle h
        exact ⟨Or.inl ⟨hKept, rfl⟩, rfl⟩
      · exact absurd rfl hNot
  · intro reply
    cases reply with
    | ok _ =>
        refine (triple_retryPublish hOthers hStores retries).weaken (fun _ h => h.1) ?_ fun _ h => h
        intro result broker h
        cases result with
        | ok sequence => exact h.2 sequence rfl
        | error err =>
            rcases h.1 with ⟨hAt, -⟩ | ⟨hAt, -⟩
            · exact hBefore broker hAt
            · exact hAfter broker hAt
    | error err =>
        refine Triple.assume (fun _ h => h.2) ?_
        intro hOk
        cases hOk

end Publish

end Assertions

end EventFs.Transport.Nats
