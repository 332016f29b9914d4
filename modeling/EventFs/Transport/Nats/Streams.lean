import EventFs.Transport.Nats.Core
import EventFs.Protocol.Json

/-!
# JSON lines on the broker

A line is published under a message id made from the seed of its write and its index. It
counts as applied when the ledger has noted the id or a retained message of the subject
carries it.
-/

namespace EventFs.Transport.Nats

open Library Protocol

def natsMsgId : Str := "Nats-Msg-Id".toList

namespace Streams

/-- The agent and the area of a mailbox subject. -/
def agentMailboxSubjectParts (subject : Str) : Option (Str × Str) :=
  match subject.splitOn '.' with
  | [first, agent, area] =>
      if first = "agents".toList ∧ (area = "inbox".toList ∨ area = "outbox".toList) then
        some (agent, area)
      else none
  | _ => none

def agentMailboxParts (subject : Str) : Option (Str × Str) :=
  match agentMailboxSubjectParts subject with
  | some (agent, area) => if isReservedKvKey agent then none else some (agent, area)
  | none => none

def isReservedAgentMailboxSubject (subject : Str) : Bool :=
  ((agentMailboxSubjectParts subject).map fun parts => isReservedKvKey parts.1).getD false

def headersContainMessageId (headers : Headers) (messageId : Str) : Bool :=
  headers.get natsMsgId == some messageId

def writebackLedgerKey (stream subject messageId : Str) : Str :=
  scopedKey "stream".toList [stream, subject, messageId]

def messageId (idempotencySeed : Str) (index : Nat) : Str :=
  idempotencySeed ++ ':' :: Text.decimal index

/-- What checking lines reports, as an error of the transport. -/
def invalidLines : EventFsError → TransportError
  | .invalidJson path message _ =>
      .invalid ("invalid json at ".toList ++ path ++ ": ".toList ++ message)
  | err => .protocol err

variable (config : NatsStorageConfig) (stream subject : Str)

def ensure : NatsM Unit :=
  ensureStreamWithSubjects config stream
    [stream.map Char.toLower ++ ".>".toList, "events.".toList ++ stream]

def ensureSubject : NatsM Unit := do
  ensure config stream
  let info ← streamInfo stream
  if info.subjects.any fun candidate => subjectMatches candidate subject then
    return ()
  perform (.updateStream stream { info with subjects := info.subjects ++ [subject] })

def lineApplied (messageId : Str) : NatsM Bool := do
  let ledgerKey := writebackLedgerKey stream subject messageId
  if ← Ledger.hasApplied ledgerKey then
    return true
  let applied ← scanSubjectHistoryUntil stream subject fun message =>
    .ok (if headersContainMessageId message.headers messageId then some () else none)
  if applied.isSome then
    Ledger.recordApplied config ledgerKey
    return true
  return false

/-- The lines that are not applied yet, one after the other. -/
def publishLines (idempotencySeed : Str) : List (Str × Nat) → NatsM (List Nat)
  | [] => return []
  | (line, index) :: rest => do
      let messageId := messageId idempotencySeed index
      if ← lineApplied config stream subject messageId then
        publishLines idempotencySeed rest
      else
        let sequence ← retryPublish config.retries stream subject [(natsMsgId, messageId)]
          (.bytes (Text.asBytes line)) ⟨some messageId, none⟩
        Ledger.recordApplied config (writebackLedgerKey stream subject messageId)
        return sequence :: (← publishLines idempotencySeed rest)

/-- How many of the indices are applied before the first that is not. -/
def appliedPrefix (idempotencySeed : Str) : List Nat → NatsM Nat
  | [] => return 0
  | index :: rest => do
      if ← lineApplied config stream subject (messageId idempotencySeed index) then
        return 1 + (← appliedPrefix idempotencySeed rest)
      return 0

def allApplied (idempotencySeed : Str) : List Nat → NatsM Bool
  | [] => return true
  | index :: rest => do
      if ← lineApplied config stream subject (messageId idempotencySeed index) then
        allApplied idempotencySeed rest
      else
        return false

variable [Serde]

/-- The lines of a payload that passes its check. -/
def checkedLines (bytes : Bytes) : NatsM (List Str) := do
  match validateJsonLines subject bytes with
  | .error err => throw (invalidLines err)
  | .ok () =>
      match jsonLines subject bytes with
      | .error err => throw (invalidLines err)
      | .ok lines => return lines

def publishJsonLines (bytes : Bytes) (idempotencySeed : Str) : NatsM (List Nat) := do
  let lines ← checkedLines subject bytes
  ensureSubject config stream subject
  publishLines config stream subject idempotencySeed lines.zipIdx

def publishJsonLinesApplied (bytes : Bytes) (idempotencySeed : Str) : NatsM Bool := do
  let lines ← checkedLines subject bytes
  allApplied config stream subject idempotencySeed (List.range lines.length)

def publishJsonLinesAppliedPrefix (bytes : Bytes) (idempotencySeed : Str) : NatsM Nat := do
  let lines ← checkedLines subject bytes
  appliedPrefix config stream subject idempotencySeed (List.range lines.length)

end Streams

end EventFs.Transport.Nats
