import EventFs.Library.Threads
import EventFs.Transport.Nats.KvOnce
import EventFs.Transport.Nats.LedgerCalls
import EventFs.Transport.ReplayOnce

/-!
# What the ledger holds

Any number of clients make and look up writes, next to each other and with crashes. The
invariant accounts for what the ledger holds: a message with the key of a write for its
payload was stored by a publish of `recordApplied` for that write.
-/

namespace EventFs.Transport.Nats.Ledger

open Library Protocol Program

/-! ## Requests -/

/-- What is asked of the surfaces. -/
inductive Request
  | kvPut (bucket key : Str) (bytes : Bytes) (idempotencyKey : Str)
  | kvPutApplied (bucket key idempotencyKey : Str)
  | kvDelete (bucket key : Str)
  | objectPut (bucket object : Str) (bytes : Bytes) (idempotencyKey : Str)
  | objectPutApplied (bucket object idempotencyKey : Str)
  | objectDelete (bucket object : Str) (expectedSequence : Nat) (expectedNuid : Str)
  | objectDeleteApplied (bucket object : Str) (expectedSequence : Nat) (expectedNuid : Str)
  | publishLines (stream subject : Str) (bytes : Bytes) (idempotencySeed : Str)
  | linesApplied (stream subject : Str) (bytes : Bytes) (idempotencySeed : Str)
  | linesAppliedPrefix (stream subject : Str) (bytes : Bytes) (idempotencySeed : Str)
deriving DecidableEq, Repr

/-- The writes that a request makes or looks up. -/
def Request.writes : Request → Write → Prop
  | kvPut bucket key _ idempotencyKey, w | kvPutApplied bucket key idempotencyKey, w =>
      w = ⟨.kv, bucket, key, idempotencyKey⟩
  | objectPut bucket object _ idempotencyKey, w
  | objectPutApplied bucket object idempotencyKey, w =>
      w = ⟨.object, bucket, object, idempotencyKey⟩
  | publishLines stream subject _ seed, w | linesApplied stream subject _ seed, w
  | linesAppliedPrefix stream subject _ seed, w =>
      ∃ index, w = ⟨.stream, stream, subject, Streams.messageId seed index⟩
  | kvDelete _ _, _ | objectDelete _ _ _ _, _ | objectDeleteApplied _ _ _ _, _ => False

/-- A request and the configuration of the client that makes it. -/
structure Job where
  config : NatsStorageConfig
  request : Request
deriving DecidableEq, Repr

/-- A key under which a job may note a write. -/
def Job.keys (job : Job) (ledgerKey : Str) : Prop :=
  ∃ w, job.request.writes w ∧ ledgerKey = w.ledgerKey

def code [Serde] (job : Job) : Program nats Unit :=
  match job.request with
  | .kvPut bucket key bytes idempotencyKey =>
      Objects.Job.ended (Kv.putIdempotent job.config bucket key bytes idempotencyKey)
  | .kvPutApplied bucket key idempotencyKey =>
      Objects.Job.ended (Kv.putApplied job.config bucket key idempotencyKey)
  | .kvDelete bucket key => Objects.Job.ended (Kv.delete job.config bucket key)
  | .objectPut bucket object bytes idempotencyKey =>
      Objects.Job.ended (Objects.putIdempotent job.config bucket object bytes idempotencyKey)
  | .objectPutApplied bucket object idempotencyKey =>
      Objects.Job.ended (Objects.putApplied job.config bucket object idempotencyKey)
  | .objectDelete bucket object sequence nuid =>
      Objects.Job.ended (Objects.deleteIfSequence job.config bucket object sequence nuid)
  | .objectDeleteApplied bucket object sequence nuid =>
      Objects.Job.ended (Objects.deleteIfSequenceApplied bucket object sequence nuid)
  | .publishLines stream subject bytes seed =>
      Objects.Job.ended (Streams.publishJsonLines job.config stream subject bytes seed)
  | .linesApplied stream subject bytes seed =>
      Objects.Job.ended (Streams.publishJsonLinesApplied job.config stream subject bytes seed)
  | .linesAppliedPrefix stream subject bytes seed =>
      Objects.Job.ended (Streams.publishJsonLinesAppliedPrefix job.config stream subject bytes seed)

theorem calls_ended {α : Type} {keys : Str → Prop} {p : NatsM α} (h : Issues (Notes keys) p) :
    (Objects.Job.ended p).Calls fun call => Notes keys call :=
  Calls.bind h fun _ => trivial

/-- Whatever its calls are answered, a job notes no writes but its own. -/
theorem code_calls [Serde] (hJson : LiteralsOnly) (job : Job) :
    (code job).Calls fun call => Notes job.keys call := by
  obtain ⟨config, request⟩ := job
  cases request with
  | kvPut bucket key bytes idempotencyKey =>
      exact calls_ended (issues_putIdempotent config ⟨_, rfl, rfl⟩ bytes)
  | kvPutApplied bucket key idempotencyKey =>
      exact calls_ended (issues_putApplied config ⟨_, rfl, rfl⟩)
  | kvDelete bucket key => exact calls_ended (issues_delete config)
  | objectPut bucket object bytes idempotencyKey =>
      exact calls_ended (issues_objectPutIdempotent config ⟨_, rfl, rfl⟩ bytes)
  | objectPutApplied bucket object idempotencyKey =>
      exact calls_ended (issues_objectPutApplied config ⟨_, rfl, rfl⟩)
  | objectDelete bucket object sequence nuid =>
      exact calls_ended (issues_deleteIfSequence config sequence nuid)
  | objectDeleteApplied bucket object sequence nuid =>
      exact calls_ended (issues_deleteSuperseded sequence nuid)
  | publishLines stream subject bytes seed =>
      exact calls_ended (issues_publishJsonLines config (fun _ => ⟨_, ⟨_, rfl⟩, rfl⟩) hJson)
  | linesApplied stream subject bytes seed =>
      exact calls_ended (issues_publishJsonLinesApplied config fun _ => ⟨_, ⟨_, rfl⟩, rfl⟩)
  | linesAppliedPrefix stream subject bytes seed =>
      exact calls_ended (issues_publishJsonLinesAppliedPrefix config fun _ => ⟨_, ⟨_, rfl⟩, rfl⟩)

/-! ## What a call stores -/

section Storing

variable [Nuid] {s t : Broker} {message : Message} {subject : Str}

theorem stored_of_handle {call : NatsCall}
    (hMem : message ∈ (Broker.handle s call).2.retained stream subject) :
    message ∈ s.retained stream subject ∨
      ∃ headers options, call = .publish stream subject headers message.payload options := by
  cases hQuiet : call.quiet with
  | true =>
      rw [(handle_isQuiet hQuiet).retained] at hMem
      exact Or.inl hMem
  | false =>
      cases call with
      | publish name subject' headers payload options =>
          rcases publish_effect s name subject' headers payload options with
            hSame | ⟨-, sequence, hAppended⟩
          · rw [show (Broker.handle s (.publish name subject' headers payload options)).2 = s
              from hSame] at hMem
            exact Or.inl hMem
          · by_cases hPlace : stream = name ∧ subject = subject'
            · obtain ⟨rfl, rfl⟩ := hPlace
              rcases hAppended.mem_retained hMem with hBefore | rfl
              · exact Or.inl hBefore
              · exact Or.inr ⟨headers, options, rfl⟩
            · refine Or.inl ?_
              rw [← hAppended.retained_ne fun hName hSubject => hPlace ⟨hName, hSubject⟩]
              exact hMem
      | purgeStreamSubject name subject' =>
          rcases purge_effect s name subject' with hSame | ⟨_, -, hPurged, -⟩
          · rw [hSame] at hMem
            exact Or.inl hMem
          · exact Or.inl (hPurged.retained_subset hMem)
      | putObject bucket object description bytes =>
          rw [show (Broker.handle s (.putObject bucket object description bytes)).2 =
            (s.putObject bucket object description bytes).2 from rfl,
            retained_putObject Objects.ledger_ne_objectStream] at hMem
          exact Or.inl hMem
      | _ => cases hQuiet

theorem stored_of_call {call : NatsCall} {reply : nats.Reply call}
    (hCall : faultyBroker s call reply t) (hMem : message ∈ t.retained stream subject) :
    message ∈ s.retained stream subject ∨
      ∃ headers options, call = .publish stream subject headers message.payload options := by
  rcases hCall.inv with ⟨-, rfl⟩ | ⟨-, rfl | ⟨-, rfl⟩⟩
  · exact stored_of_handle hMem
  · exact Or.inl hMem
  · exact stored_of_handle hMem

end Storing

/-! ## Runs -/

/-- Other parties store nothing in the ledger. -/
def OtherParty (s t : Broker) : Prop :=
  ∀ subject, ∀ message ∈ t.retained stream subject, message ∈ s.retained stream subject

/-- A call that `recordApplied` makes for the write, by a job whose write it is. -/
def Recorded (calls : List (Job × NatsCall)) (w : Write) : Prop :=
  ∃ job, (job, recordCall w.ledgerKey) ∈ calls ∧ job.request.writes w

/-- Every key the ledger holds was recorded for the write whose key it is. -/
def Accounted (calls : List (Job × NatsCall)) (broker : Broker) : Prop :=
  ∀ subject, ∀ message ∈ broker.retained stream subject, ∀ w : Write,
    message.payload = .bytes (Text.asBytes w.ledgerKey) → Recorded calls w

section Runs

variable [Nuid] [Serde] {calls : List (Job × NatsCall)} {s t : Broker}

omit [Nuid] [Serde] in
theorem Recorded.append {w : Write} (h : Recorded calls w) (more : List (Job × NatsCall)) :
    Recorded (calls ++ more) w := by
  obtain ⟨job, hMem, hWrites⟩ := h
  exact ⟨job, List.mem_append_left _ hMem, hWrites⟩

omit [Nuid] [Serde] in
theorem Accounted.other (h : Accounted calls s) (hOther : OtherParty s t) : Accounted calls t :=
  fun subject message hMem => h subject message (hOther subject message hMem)

omit [Serde] in
/-- The note that a job stores has the key of one of its own writes, and the key says which. -/
theorem Accounted.call (h : Accounted calls s) {job : Job} {call : NatsCall}
    (hNotes : Notes job.keys call) {reply : nats.Reply call}
    (hCall : faultyBroker s call reply t) : Accounted (calls ++ [(job, call)]) t := by
  intro subject message hMem w hPayload
  rcases stored_of_call hCall hMem with hBefore | ⟨headers, options, hPublish⟩
  · exact (h subject message hBefore w hPayload).append _
  · rcases hNotes _ _ _ _ hPublish with ⟨key, ⟨own, hOwn, rfl⟩, hRecord⟩ | hUnlike
    · have hSame : message.payload = .bytes (Text.asBytes own.ledgerKey) := by
        rw [hPublish] at hRecord
        injection hRecord
      obtain rfl : own = w := Write.ledgerKey_injective
        (Text.asBytes_injective (Payload.bytes.inj (hSame.symm.trans hPayload)))
      refine ⟨job, List.mem_append_right _ ?_, hOwn⟩
      rw [hRecord]
      exact List.mem_singleton_self _
    · exact absurd hPayload (hUnlike w)

theorem accounted_of_interleaved (hJson : LiteralsOnly) {ι : Type} [DecidableEq ι] {start : Broker}
    (hStart : ∀ subject, start.retained stream subject = []) {calls : List (Job × NatsCall)}
    {threads : ι → Option (Thread nats Job)} {broker : Broker}
    (h : Interleaved faultyBroker OtherParty code start calls threads broker) :
    Accounted calls broker := by
  refine h.invariant (code_calls hJson) ?_ ?_ ?_
  · intro subject message hMem
    rw [hStart] at hMem
    cases hMem
  · exact fun _ _ _ _ _ _ hBefore hNotes hCall => hBefore.call hNotes hCall
  · exact fun _ _ _ hBefore hOther => hBefore.other hOther

omit [Serde] in
variable (calls) in
/-- Facts that do not depend on the broker, next to what accounts for the ledger. -/
def facts : Assertions Prop where
  others := OtherParty
  idle call := call.quiet = true
  Inv := Accounted calls
  At fact broker := Accounted calls broker ∧ fact
  inv h := h.1
  stable _ _ _ hOther h := ⟨h.1.other hOther, h.2⟩
  kept hQuiet h := by
    refine ⟨fun subject message hMem => ?_, h.2⟩
    rw [(handle_isQuiet hQuiet).retained] at hMem
    exact h.1 subject message hMem

omit [Serde] in
theorem spec_hasApplied (w : Write) :
    (facts calls).Spec True (hasApplied w.ledgerKey) fun result =>
      result = .ok true → Recorded calls w := by
  have hFound : (facts calls).Spec True
      (lookup (.getLastMessage stream (ledgerSubject w.ledgerKey)))
      (byOutcome (byAnswer (fun message => ledgerPayloadMatches w.ledgerKey message.payload = true →
        Recorded calls w) True) fun _ => True) := by
    refine (Assertions.Spec.lookup rfl (byAnswer (fun message : Message =>
      ledgerPayloadMatches w.ledgerKey message.payload = true → Recorded calls w) True) True
      ?_ (fun _ h _ => h) fun _ h => h).weaken (fun _ h => h) ?_
    · intro broker message hAt hReply
      refine ⟨hAt.1, fun hMatches => ?_⟩
      have hLast := List.mem_of_getLast? (Broker.last_ok hReply)
      exact hAt.1 _ message hLast w (by simpa [ledgerPayloadMatches] using hMatches)
    · intro result broker h
      cases result with
      | ok found => exact h
      | error err => exact h
  refine .bind _ hFound (fun _ _ h => ⟨h.1, fun hOk => by cases hOk⟩) ?_
  intro found
  cases found with
  | none => exact .pure fun _ h => ⟨h.1, fun hOk => by cases hOk⟩
  | some message =>
      refine .pure fun _ h => ⟨h.1, fun hOk => h.2 ?_⟩
      injection hOk

/-- Keys tell writes apart and subjects tell keys apart. So a write is found applied in the
ledger only once `recordApplied` has been called for it, whatever the jobs of other writes do
and wherever they are cut off. -/
theorem applied_only_if_recorded :
    (∀ kind kind' : Kind, ∀ a b c a' b' c' : Str,
      scopedKey kind.text [a, b, c] = scopedKey kind'.text [a', b', c'] →
        kind = kind' ∧ (a, b, c) = (a', b', c')) ∧
    (∀ key key' : Str, ledgerSubject key = ledgerSubject key' → key = key') ∧
    (LiteralsOnly → ∀ start : Broker, (∀ subject, start.retained stream subject = []) →
      ∀ {ι : Type} [DecidableEq ι] {calls : List (Job × NatsCall)}
        {threads : ι → Option (Thread nats Job)} {broker : Broker},
        Interleaved faultyBroker OtherParty code start calls threads broker →
          ∀ (w : Write) (broker' : Broker),
            Run faultyBroker OtherParty (hasApplied w.ledgerKey).run broker (some (.ok true))
              broker' → Recorded calls w) := by
  refine ⟨?_, fun _ _ => ledgerSubject_injective, ?_⟩
  · intro kind kind' a b c a' b' c' hKey
    have hSame : (⟨kind, a, b, c⟩ : Write) = ⟨kind', a', b', c'⟩ := Write.ledgerKey_injective hKey
    cases hSame
    exact ⟨rfl, rfl⟩
  · intro hJson start hStart ι _ calls threads broker hRuns w broker' hRun
    have hAccounted := accounted_of_interleaved hJson hStart hRuns
    exact (spec_hasApplied w ⟨hAccounted, trivial⟩ hRun).2 rfl

end Runs

/-! A put that notes itself, after which the ledger has it. -/

theorem literalSerde_literalsOnly : @LiteralsOnly literalSerde := by
  intro c rest _ hText
  have hCases : c :: rest = "null".toList ∨ c :: rest = "true".toList ∨
      c :: rest = "false".toList := by
    by_contra hNone
    rw [show @Serde.fromStr literalSerde (c :: rest) = _ from if_neg hNone] at hText
    cases hText
  rcases hCases with h | h | h <;> cases h <;> decide

def notedWrite : Write := ⟨.kv, ['b'], ['k'], ['x']⟩

def notingJob : Job := ⟨⟨1, 64, 2⟩, .kvPut ['b'] ['k'] [1] ['x']⟩

def notedBroker : Broker :=
  letI := Kv.countingNuid
  letI := literalSerde
  (eval Broker.handle (code notingJob) Kv.emptyBroker).2

theorem noted_write_recorded :
    let _ := Kv.countingNuid
    let _ := literalSerde
    ∃ (calls : List (Job × NatsCall)) (threads : Unit → Option (Thread nats Job)),
      Interleaved faultyBroker OtherParty code Kv.emptyBroker calls threads notedBroker ∧
        Recorded calls notedWrite := by
  intro _ _
  have hStarted := Interleaved.launch (B := faultyBroker) () notingJob
    (.start : Interleaved faultyBroker OtherParty code Kv.emptyBroker [] (fun _ => none)
      Kv.emptyBroker)
  obtain ⟨calls, hDone⟩ := hStarted.finish Faulty.done (Function.update_self () _ _)
  refine ⟨calls, _, hDone, ?_⟩
  have hApplied : (eval Broker.handle (hasApplied notedWrite.ledgerKey).run notedBroker).1 =
      .ok true := by decide +kernel
  have hRun : Run faultyBroker OtherParty (hasApplied notedWrite.ledgerKey).run notedBroker
      (some (eval Broker.handle (hasApplied notedWrite.ledgerKey).run notedBroker).1)
      (eval Broker.handle (hasApplied notedWrite.ledgerKey).run notedBroker).2 :=
    run_eval Faulty.done _ notedBroker
  rw [hApplied] at hRun
  exact applied_only_if_recorded.2.2 literalSerde_literalsOnly Kv.emptyBroker (fun _ => rfl) hDone
    notedWrite _ hRun

end EventFs.Transport.Nats.Ledger
