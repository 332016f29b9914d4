import EventFs.Fuse.CommitLog
import EventFs.Fuse.PendingReads
import EventFs.Transport.Nats.KvDeleteRuns
import EventFs.Transport.Nats.KvOnce

/-!
# What an unlink reports

An unlink of a KV value asks the backend to delete its key, and says "no such file" where
the delete reports the key as not found. So it says so of a file that it has removed in
the one case in which the delete does.
-/

namespace EventFs.Fuse

open Library Protocol Transport Transport.Nats Program

variable {mount mount' : Mount} {log : Log io}

/-- A storage call and a change of the mount after it. -/
theorem Logs.of_requestIo_modify {call : StorageCall} {f : Mount → Mount}
    {result : Except Errno Unit}
    (h : Logs (requestIo call >>= fun _ => modify f : Runtime Unit).run mount log result mount') :
    ∃ reply : TransportResult call.Value, log = [⟨.store call, reply⟩] ∧
      result = (reply.map fun _ => ()).mapError ioError := by
  rcases h.of_andThen with ⟨errno, rfl, hFailed⟩ | ⟨_, _, value, _, rfl, hDone, hModify⟩
  · obtain ⟨reply, rfl, hReply, -⟩ := hFailed.of_requestIo
    refine ⟨reply, rfl, ?_⟩
    cases reply with
    | ok value => cases hReply
    | error err => exact congrArg _ (Except.error.inj hReply)
  · obtain ⟨reply, rfl, hReply, -⟩ := hDone.of_requestIo
    obtain ⟨_, rfl, hSet⟩ := hModify.of_liftM
    obtain ⟨rfl, -⟩ := hSet.of_modify
    refine ⟨reply, List.append_nil _, ?_⟩
    cases reply with
    | ok value => rfl
    | error err => cases hReply

theorem Logs.of_executeUnlink {path : MountPath} {outcome : Except Errno Unit} {bucket key : Str}
    {reply : TransportResult Unit}
    (h : Logs (executeUnlink path).run mount log outcome mount')
    (hIssued : ⟨.store (.kvDelete bucket key), reply⟩ ∈ log) :
    outcome = reply.mapError ioError := by
  rcases h.of_andThen with ⟨_, -, hGate⟩ | ⟨_, _, _, _, rfl, hGate, hParse⟩
  · obtain ⟨rfl, -⟩ := hGate.of_ensureWritesAllowed
    cases hIssued
  obtain ⟨rfl, -⟩ := hGate.of_ensureWritesAllowed
  rcases hParse.of_liftErrno_andThen with ⟨_, -, -, rfl, -⟩ | ⟨parsed, -, hPlan⟩
  · cases hIssued
  rcases hPlan.of_liftErrno_andThen with ⟨_, -, -, rfl, -⟩ | ⟨action, -, hActs⟩
  · cases hIssued
  split at hActs
  case h_1 | h_2 =>
    obtain ⟨_, rfl, rfl⟩ := Logs.of_requestIo_modify hActs
    cases List.mem_singleton.mp hIssued
    cases reply <;> rfl
  case h_3 =>
    obtain ⟨_, rfl, -⟩ := Logs.of_requestIo_modify hActs
    cases List.mem_singleton.mp hIssued
  case h_4 | h_5 =>
    rcases Logs.of_andThen hActs with ⟨_, -, hThrown⟩ | ⟨_, _, _, _, -, hThrown, -⟩
    · obtain ⟨rfl, -⟩ := hThrown.of_throw
      cases hIssued
    · obtain ⟨-, hOk, -⟩ := hThrown.of_throw
      cases hOk

theorem ioError_eq_notFound {result : TransportResult Unit} :
    result.mapError ioError = .error .notFound ↔ result = .error .notFound := by
  constructor
  · intro h
    match result with
    | .error .notFound => rfl
    | .error (.io _) | .error (.json _) | .error (.invalid _) | .error (.protocol _)
    | .error .queueFull | .error (.queueLocked _) | .ok _ => cases h
  · rintro rfl
    rfl

section Unlink

variable [Nuid] {broker broker' : Broker} {events : List (Event nats Broker)}
  {config : NatsStorageConfig} {bucket key : Str} {reply : TransportResult Unit}

/-- What an unlink and its delete are expected to do and to report. -/
structure HonestUnlink (bucket key : Str) (retries : Nat) (events : List (Event nats Broker))
    (reply : TransportResult Unit) (outcome : Except Errno Unit) : Prop where
  delete : Kv.Honest bucket key retries events reply
  noSuchFile : outcome = .error .notFound → ∀ event ∈ events, ¬ Kv.Removes bucket key event

/-- For every way in which the broker answers and other clients act in between, the delete
and the unlink are honest exactly if, after the delete has removed the key, it never finds
it missing. -/
theorem unlink_honest_iff (hNumbered : broker.Numbered)
    (hDelete : Ran faultyBroker Kv.OtherClient (Kv.delete config bucket key).run broker events reply
      broker') {path : MountPath} {outcome : Except Errno Unit}
    (hUnlink : Logs (executeUnlink path).run mount log outcome mount')
    (hIssued : ⟨.store (.kvDelete bucket key), reply⟩ ∈ log) :
    HonestUnlink bucket key config.retries events reply outcome ↔
      Kv.NoLateMissing bucket key events := by
  have hHonest := Kv.delete_honest_iff hNumbered hDelete
  refine ⟨fun h => hHonest.mp h.delete, fun hLate => ⟨hHonest.mpr hLate, ?_⟩⟩
  rw [hUnlink.of_executeUnlink hIssued, ioError_eq_notFound]
  exact (Kv.notFound_honest_iff hDelete).mpr hLate

end Unlink

/-! A file that is removed once with the acknowledgement of its delete and once without. -/

section Example

attribute [local instance] Kv.countingNuid

/-- The value of `/kv/b/x` is the first message of its bucket. -/
def valueBroker : Broker :=
  Kv.emptyBroker.setStream (streamName ['b'])
    ((Stream.create ⟨[], 64, 0⟩).append (Kv.subject ['b'] ['x']) [] (.bytes [1]))

def deletedBroker : Broker := (Broker.handle valueBroker (Kv.deleteCall ['b'] ['x'] 1)).2

def answeredCall (broker : Broker) (call : NatsCall) : Event nats Broker :=
  ⟨call, (Broker.handle broker call).1, broker, (Broker.handle broker call).2⟩

def keyRead (broker : Broker) : List (Event nats Broker) :=
  [answeredCall broker (.keyValue ['b']),
    answeredCall broker (.getLastMessage (streamName ['b']) (Kv.subject ['b'] ['x']))]

def acknowledgedDelete : List (Event nats Broker) :=
  keyRead valueBroker ++ [answeredCall valueBroker (Kv.deleteCall ['b'] ['x'] 1)]

/-- The delete is stored, and no acknowledgement arrives. -/
def lostDelete : Event nats Broker :=
  ⟨Kv.deleteCall ['b'] ['x'] 1, (.error .timedOut : Except IoError Nat), valueBroker,
    deletedBroker⟩

def unacknowledgedDelete : List (Event nats Broker) :=
  keyRead valueBroker ++ [lostDelete] ++ keyRead deletedBroker

theorem numbered_valueBroker : valueBroker.Numbered := by
  intro name stream hStream
  rw [valueBroker, Broker.setStream_streams] at hStream
  split at hStream
  · obtain rfl := Option.some.inj hStream
    refine Stream.Numbered.append ⟨?_, ?_, .nil, ?_⟩ _ _ _ <;> exact List.forall_mem_nil _
  · cases hStream

theorem present_valueBroker : Kv.Present ['b'] ['x'] valueBroker :=
  ⟨⟨Kv.subject ['b'] ['x'], 1, [], .bytes [1]⟩, rfl, rfl⟩

theorem not_present_deletedBroker : ¬ Kv.Present ['b'] ['x'] deletedBroker := by
  rcases @Kv.handle_delete _ ['b'] ['x'] valueBroker 1 with ⟨⟨err, hErr⟩, -⟩ | ⟨-, hGone⟩
  · cases hErr
  · exact hGone

theorem ran_acknowledged :
    Ran faultyBroker Kv.OtherClient (Kv.delete ⟨0, 64, 0⟩ ['b'] ['x']).run valueBroker
      acknowledgedDelete (.ok ()) deletedBroker where
  answers := .call_of_eq rfl (.call_of_eq rfl (.call_of_eq rfl (.ret_of_eq rfl)))
  history := .step_of_eq rfl (Faulty.done _ _) (.step_of_eq rfl (Faulty.done _ _)
    (.step_of_eq rfl (Faulty.done _ _) (.done _)))

theorem ran_unacknowledged :
    Ran faultyBroker Kv.OtherClient (Kv.delete ⟨0, 64, 0⟩ ['b'] ['x']).run valueBroker
      unacknowledgedDelete (.error .notFound) deletedBroker where
  answers := .call_of_eq rfl (.call_of_eq rfl (.call_of_eq rfl (.call_of_eq rfl
    (.call_of_eq rfl (.ret_of_eq rfl)))))
  history := .step_of_eq rfl (Faulty.done _ _) (.step_of_eq rfl (Faulty.done _ _)
    (.step_of_eq rfl (Faulty.unacknowledged _ _ trivial ⟨nofun, .timedOut, rfl, rfl⟩)
      (.step_of_eq rfl (Faulty.done _ _) (.step_of_eq rfl (Faulty.done _ _) (.done _)))))

/-- An unlink of `/kv/b/x` whose delete gets this reply. -/
theorem logs_unlink (reply : TransportResult Unit) :
    ∃ mount', Logs (executeUnlink sourcePath).run (Mount.new ⟨8, []⟩ "events".toList 1)
      [⟨.store (.kvDelete ['b'] ['x']), reply⟩] (reply.mapError ioError) mount' := by
  cases reply with
  | ok value => exact ⟨_, Answers.call_of_eq rfl (.ret_of_eq rfl)⟩
  | error err => exact ⟨_, Answers.call_of_eq rfl (.ret_of_eq rfl)⟩

theorem acknowledged_unlink_honest :
    HonestUnlink ['b'] ['x'] 0 acknowledgedDelete (.ok ()) (.ok ()) := by
  obtain ⟨mount', hUnlink⟩ := logs_unlink (.ok ())
  refine (unlink_honest_iff numbered_valueBroker ran_acknowledged hUnlink
    (List.mem_singleton_self _)).mpr ?_
  rintro before event after hSplit hMissing
  have hAsks := Kv.answers_delete ran_acknowledged.answers
  cases hAsks.missing event.exchange (List.mem_map_of_mem (hSplit ▸ by simp)) hMissing

/-- The delete removes the file, and the unlink says that there is no such file. -/
theorem removed_file_reported_missing :
    Ran faultyBroker Kv.OtherClient (Kv.delete ⟨0, 64, 0⟩ ['b'] ['x']).run valueBroker
        unacknowledgedDelete (.error .notFound) deletedBroker ∧
      (∃ event ∈ unacknowledgedDelete, Kv.Removes ['b'] ['x'] event) ∧
      ∃ mount mount', Logs (executeUnlink sourcePath).run mount
        [⟨.store (.kvDelete ['b'] ['x']), (.error .notFound : TransportResult Unit)⟩]
        (.error .notFound) mount' := by
  obtain ⟨mount', hUnlink⟩ := logs_unlink (.error .notFound)
  refine ⟨ran_unacknowledged, ⟨lostDelete, ?_, ?_⟩, _, mount', hUnlink⟩
  · simp [unacknowledgedDelete]
  · exact ⟨present_valueBroker, not_present_deletedBroker⟩

end Example

end EventFs.Fuse
