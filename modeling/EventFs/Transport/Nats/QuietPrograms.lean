import EventFs.Transport.Nats.BrokerFacts
import EventFs.Transport.Nats.Core

/-!
# Programs that store nothing

A program is quiet when every call it may issue is: whatever it is answered, the streams
have stored after it what they had stored before.
-/

namespace EventFs.Transport.Nats

open Library Protocol

/-- An assertion for each outcome of a call. -/
def byOutcome {ε α φ : Type} (done : α → φ) (failed : ε → φ) : Except ε α → φ
  | .ok a => done a
  | .error err => failed err

/-- An assertion for each answer of a lookup. -/
def byAnswer {α φ : Type} (found : α → φ) (missing : φ) : Option α → φ
  | some a => found a
  | none => missing

variable {α β : Type}

/-! ## The calls a program may issue -/

/-- Every call the program may issue is one of these. -/
def Issues (Allowed : NatsCall → Prop) (p : NatsM α) : Prop := p.run.Calls fun call => Allowed call

namespace Issues

variable {Allowed Allowed' : NatsCall → Prop}

theorem weaken {p : NatsM α} (h : Issues Allowed p)
    (hAllowed : ∀ call, Allowed call → Allowed' call) :
    Issues Allowed' p :=
  Program.All.weaken h hAllowed fun _ _ => trivial

theorem pure (a : α) : Issues Allowed (Pure.pure a : NatsM α) := trivial

theorem throw (err : TransportError) : Issues Allowed (MonadExcept.throw err : NatsM α) := trivial

theorem inspect {p : NatsM α} {f : Except TransportError α → NatsM β} (hFirst : Issues Allowed p)
    (hSecond : ∀ result, Issues Allowed (f result)) :
    Issues Allowed (ExceptT.lift p.run >>= f) := by
  unfold Issues
  rw [ExceptT.run_bind_lift]
  exact Program.Calls.bind hFirst hSecond

theorem bind {p : NatsM α} {f : α → NatsM β} (hFirst : Issues Allowed p)
    (hSecond : ∀ a, Issues Allowed (f a)) : Issues Allowed (p >>= f) := by
  refine Program.Calls.bind hFirst ?_
  intro result
  cases result with
  | ok a => exact hSecond a
  | error err => trivial

theorem attempt {call : NatsCall} (hAllowed : Allowed call) : Issues Allowed (Nats.attempt call) :=
  ⟨hAllowed, fun _ => trivial⟩

theorem perform {call : NatsCall} (hAllowed : Allowed call) :
    Issues Allowed (Nats.perform call) := by
  refine .bind (.attempt hAllowed) ?_
  intro reply
  cases reply with
  | ok value => exact .pure value
  | error err => exact .throw _

theorem lookup {call : NatsCall} (hAllowed : Allowed call) : Issues Allowed (Nats.lookup call) := by
  refine .bind (.attempt hAllowed) ?_
  intro reply
  cases reply with
  | ok value => exact .pure _
  | error err =>
      by_cases hErr : err.isNotFound = true
      · simp only [hErr, if_true]
        exact .pure _
      · simp only [hErr]
        exact .throw _

theorem retryIo {p : NatsM α} (h : Issues Allowed p) (retries : Nat) :
    Issues Allowed (Nats.retryIo p retries) := by
  induction retries with
  | zero => exact h
  | succ retries ih =>
      refine .inspect h ?_
      intro result
      cases result with
      | ok value => exact .pure value
      | error err => exact ih

theorem retryPublish {retries : Nat} {stream subject : Str} {headers : Headers} {payload : Payload}
    {options : PublishOptions} (hBegin : Allowed .beginPublish)
    (hPublish : Allowed (.publish stream subject headers payload options)) :
    Issues Allowed (Nats.retryPublish retries stream subject headers payload options) :=
  .bind (.perform hBegin) fun _ => .retryIo (.perform hPublish) retries

end Issues

/-! ## Quiet programs -/

def IsQuiet (p : NatsM α) : Prop := p.run.Calls fun call => NatsCall.quiet call = true

namespace IsQuiet

theorem issues {p : NatsM α} (h : IsQuiet p) {Allowed : NatsCall → Prop}
    (hAllowed : ∀ call : NatsCall, call.quiet = true → Allowed call) : Issues Allowed p :=
  Issues.weaken h hAllowed

theorem pure (a : α) : IsQuiet (Pure.pure a : NatsM α) := Issues.pure a

theorem throw (err : TransportError) : IsQuiet (MonadExcept.throw err : NatsM α) :=
  Issues.throw err

theorem inspect {p : NatsM α} {f : Except TransportError α → NatsM β} (hFirst : IsQuiet p)
    (hSecond : ∀ result, IsQuiet (f result)) : IsQuiet (ExceptT.lift p.run >>= f) :=
  Issues.inspect hFirst hSecond

theorem bind {p : NatsM α} {f : α → NatsM β} (hFirst : IsQuiet p)
    (hSecond : ∀ a, IsQuiet (f a)) : IsQuiet (p >>= f) := Issues.bind hFirst hSecond

theorem attempt {call : NatsCall} (hQuiet : call.quiet = true) : IsQuiet (Nats.attempt call) :=
  Issues.attempt hQuiet

theorem perform {call : NatsCall} (hQuiet : call.quiet = true) : IsQuiet (Nats.perform call) :=
  Issues.perform hQuiet

theorem lookup {call : NatsCall} (hQuiet : call.quiet = true) : IsQuiet (Nats.lookup call) :=
  Issues.lookup hQuiet

theorem retryIo {p : NatsM α} (h : IsQuiet p) (retries : Nat) :
    IsQuiet (Nats.retryIo p retries) := Issues.retryIo h retries

theorem streamInfo (stream : Str) : IsQuiet (Nats.streamInfo stream) := by
  refine .bind (.attempt rfl) ?_
  intro reply
  cases reply with
  | ok value => exact .pure _
  | error err => exact .throw _

theorem scanFrom (stream subject : Str) (onMessage : Message → TransportResult (Option α))
    (lastSequence fuel after : Nat) :
    IsQuiet (Nats.scanFrom stream subject onMessage lastSequence fuel after) := by
  induction fuel generalizing after with
  | zero => exact .throw _
  | succ fuel ih =>
      refine .bind (.attempt rfl) ?_
      intro reply
      cases reply with
      | error err =>
          by_cases hTimeout : err.isTimeout = true
          · simp only [hTimeout, if_true]
            exact .throw _
          · simp only [hTimeout]
            exact .throw _
      | ok message =>
          rcases hMessage : onMessage message with err | found | result
          · simp only [hMessage]
            exact .throw _
          · simp only [hMessage]
            by_cases hLast : lastSequence ≤ message.sequence
            · simp only [hLast, if_true]
              exact .pure _
            · simp only [hLast]
              exact ih message.sequence
          · simp only [hMessage]
            exact .pure _

theorem scanSubjectHistoryUntil (stream subject : Str)
    (onMessage : Message → TransportResult (Option α)) :
    IsQuiet (Nats.scanSubjectHistoryUntil stream subject onMessage) := by
  refine .bind (.bind (.lookup rfl) fun _ => .pure _) ?_
  intro last
  cases last with
  | none => exact .pure _
  | some lastSequence =>
      refine .bind (.lookup rfl) ?_
      intro found
      cases found with
      | none => exact .pure _
      | some _ => exact .scanFrom _ _ _ _ _ _

variable (config : NatsStorageConfig)

theorem ensureDuplicateWindow (stream : Str) :
    IsQuiet (Nats.ensureDuplicateWindow config stream) := by
  refine .bind (.streamInfo stream) ?_
  intro info
  by_cases hWindow : info.duplicateWindow < config.streamDuplicateWindow
  · simp only [hWindow, if_true]
    exact .perform rfl
  · simp only [hWindow, if_false]
    exact .pure ()

/-- What was to be made may turn out to exist already. -/
theorem orExisting {existing : NatsM α} (h : IsQuiet existing) (err : TransportError) :
    IsQuiet (if isAlreadyExists err then existing else MonadExcept.throw err) := by
  split
  · exact h
  · exact .throw err

theorem ensureStream : IsQuiet (Ledger.ensureStream config) := by
  refine .bind (.lookup rfl) ?_
  intro found
  cases found with
  | some info => exact .ensureDuplicateWindow config _
  | none =>
      refine .inspect (.retryIo (.perform rfl) config.retries) ?_
      intro made
      cases made with
      | ok _ => exact .pure _
      | error err => exact .orExisting (.ensureDuplicateWindow config _) err

end IsQuiet

/-! ## The fuel of a scan -/

theorem next_after [Nuid] {broker broker' : Broker} {name subject : Str} {after : Nat}
    {reply : Except IoError Message}
    (hCall : faultyBroker broker (.next name subject after) reply broker') {message : Message}
    (hReply : reply = .ok message) : after < message.sequence := by
  rcases hCall.inv with ⟨hDone, -⟩ | ⟨⟨-, err, hFail, -⟩, -⟩
  · have hFound : (Broker.handle broker (.next name subject after)).1 = .ok message :=
      hDone.symm.trans hReply
    simp only [Broker.handle] at hFound
    split at hFound
    · cases hFound
    · split at hFound
      · cases hFound
      · next found hFind =>
        cases hFound
        simpa using List.find?_some hFind
  · rw [hFail] at hReply
    cases hReply

/-- What `scanFrom` does with a message it has read. -/
def scanMessage (stream subject : Str) (onMessage : Message → TransportResult (Option α))
    (lastSequence fuel : Nat) (message : Message) : NatsM (Option α) :=
  match onMessage message with
  | .error err => throw err
  | .ok (some result) => pure (some result)
  | .ok none => do
      if lastSequence ≤ message.sequence then
        return none
      scanFrom stream subject onMessage lastSequence fuel message.sequence

/-- Every message is newer than the one before, so a scan reaches the last sequence before
its fuel runs out: with more fuel it makes the same runs. -/
theorem scanFrom_fuel [Nuid] {Env : Broker → Broker → Prop} {stream subject : Str}
    {onMessage : Message → TransportResult (Option α)} {lastSequence : Nat} (fuel : Nat)
    {after : Nat} {broker broker' : Broker} {outcome : Option (TransportResult (Option α))}
    (hAfter : after ≤ lastSequence) (hFuel : lastSequence < after + fuel)
    (hRun : Program.Run faultyBroker Env
      (scanFrom stream subject onMessage lastSequence (fuel + 1) after).run broker outcome
        broker') :
    Program.Run faultyBroker Env
      (scanFrom stream subject onMessage lastSequence fuel after).run broker outcome broker' := by
  induction fuel generalizing after broker with
  | zero => omega
  | succ fuel ih =>
      refine Program.Run.call_mono ?_ hRun
      intro s reply t hCall hRest
      cases reply with
      | error err => exact hRest
      | ok message =>
          have hLater := next_after hCall rfl
          change Program.Run faultyBroker Env (scanMessage stream subject onMessage lastSequence
            (fuel + 1) message).run t outcome broker' at hRest
          change Program.Run faultyBroker Env (scanMessage stream subject onMessage lastSequence
            fuel message).run t outcome broker'
          unfold scanMessage at hRest ⊢
          rcases hMessage : onMessage message with err | found | result
          · rw [hMessage] at hRest
            exact hRest
          · rw [hMessage] at hRest
            by_cases hLast : lastSequence ≤ message.sequence
            · simp only [hLast, if_true] at hRest ⊢
              exact hRest
            · simp only [hLast, if_false] at hRest ⊢
              exact ih (by omega) (by omega) hRest
          · rw [hMessage] at hRest
            exact hRest

end EventFs.Transport.Nats
