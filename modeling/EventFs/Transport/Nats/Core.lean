import EventFs.Transport.Nats.Broker
import EventFs.Protocol.FileNames

/-!
# Calls with retries, and the write-back ledger

The parts of the NATS client that its surfaces share: retrying, widening the duplicate
window, scanning the retained messages of a subject, and the ledger stream in which
applied writes are noted.
-/

namespace EventFs.Transport

open Library Protocol

/-- `TransportError::from` on an I/O error. -/
def IoError.toTransport (err : IoError) : TransportError := .io err

namespace Nats

structure NatsStorageConfig where
  streamDuplicateWindow : Int
  kvHistory : Int
  retries : Nat
deriving DecidableEq, Repr

abbrev NatsM := ExceptT TransportError (Program nats)

/-- One call and its reply. -/
def attempt (call : NatsCall) : NatsM (Except IoError call.Value) :=
  ExceptT.lift (Program.perform (I := nats) call)

/-- A call whose failure ends the operation. -/
def perform (call : NatsCall) : NatsM call.Value := do
  match ← attempt call with
  | .ok value => return value
  | .error err => throw err.toTransport

def lookupError (err : IoError) : TransportError :=
  if err.isNotFound then .notFound else err.toTransport

/-- A call of which "not found" is an answer. -/
def lookup (call : NatsCall) : NatsM (Option call.Value) := do
  match ← attempt call with
  | .ok value => return some value
  | .error err => if err.isNotFound then return none else throw err.toTransport

def isAlreadyExists (err : TransportError) : Bool :=
  let message := err.text.map Char.toLower
  (match err with
    | .io err => err.kind == .alreadyExists
    | _ => false) ||
    Text.contains "already in use".toList message ||
    Text.contains "already exists".toList message

/-! ## `NatsCore` -/

/-- Run an operation again while it fails, at most `retries` more times. -/
def retryIo {α : Type} (operation : NatsM α) : Nat → NatsM α
  | 0 => operation
  | retries + 1 => do
      match ← (ExceptT.lift operation.run : NatsM _) with
      | .ok value => return value
      | .error _ => retryIo operation retries

/-- A publish and its retries. -/
def retryPublish (retries : Nat) (stream subject : Str) (headers : Headers) (payload : Payload)
    (options : PublishOptions) : NatsM Nat := do
  perform .beginPublish
  retryIo (perform (.publish stream subject headers payload options)) retries

def streamInfo (stream : Str) : NatsM StreamConfig := do
  match ← attempt (.streamInfo stream) with
  | .ok config => return config
  | .error err => throw (lookupError err)

def ensureDuplicateWindow (config : NatsStorageConfig) (stream : Str) : NatsM Unit := do
  let info ← streamInfo stream
  if info.duplicateWindow < config.streamDuplicateWindow then
    perform (.updateStream stream { info with duplicateWindow := config.streamDuplicateWindow })

def ensureStreamWithSubjects (config : NatsStorageConfig) (stream : Str) (subjects : List Str) :
    NatsM Unit := do
  match ← (ExceptT.lift (streamInfo stream).run : NatsM _) with
  | .ok _ => ensureDuplicateWindow config stream
  | .error .notFound =>
      match ← (ExceptT.lift (retryIo (perform (.addStream stream
          ⟨subjects, 0, config.streamDuplicateWindow⟩)) config.retries).run : NatsM _) with
      | .ok _ => return ()
      | .error err =>
          if isAlreadyExists err then ensureDuplicateWindow config stream else throw err
  | .error err => throw err

def lastSubjectSequence (stream subject : Str) : NatsM (Option Nat) := do
  return (← lookup (.getLastMessage stream subject)).map (·.sequence)

/-- Read on from the message after `after`. Sequences grow, so the loop ends before the
fuel does. -/
def scanFrom {α : Type} (stream subject : Str) (onMessage : Message → TransportResult (Option α))
    (lastSequence : Nat) : Nat → Nat → NatsM (Option α)
  | 0, _ => throw (.invalid "timed out scanning".toList)
  | fuel + 1, after => do
      match ← attempt (.next stream subject after) with
      | .error err =>
          if err.isTimeout then
            throw (.invalid ("timed out scanning ".toList ++ stream ++ ':' :: subject ++
              " before reaching retained sequence ".toList ++ Text.decimal lastSequence))
          throw err.toTransport
      | .ok message =>
          match onMessage message with
          | .error err => throw err
          | .ok (some result) => return some result
          | .ok none =>
              if lastSequence ≤ message.sequence then
                return none
              scanFrom stream subject onMessage lastSequence fuel message.sequence

def scanSubjectHistoryUntil {α : Type} (stream subject : Str)
    (onMessage : Message → TransportResult (Option α)) : NatsM (Option α) := do
  match ← lastSubjectSequence stream subject with
  | none => return none
  | some lastSequence =>
      match ← lookup (.subscribe stream subject) with
      | none => return none
      | some _ => scanFrom stream subject onMessage lastSequence (lastSequence + 1) 0

/-! ## `WritebackLedger` -/

namespace Ledger

def stream : Str := "EVENTFS_WRITEBACK".toList

def subjectPrefix : Str := "eventfs.writeback".toList

def ledgerSubject (ledgerKey : Str) : Str :=
  subjectPrefix ++ '.' :: hexEncode (Text.asBytes ledgerKey)

def ledgerPayloadMatches (ledgerKey : Str) (payload : Payload) : Bool :=
  payload == .bytes (Text.asBytes ledgerKey)

def hasApplied (ledgerKey : Str) : NatsM Bool := do
  match ← lookup (.getLastMessage stream (ledgerSubject ledgerKey)) with
  | some message => return ledgerPayloadMatches ledgerKey message.payload
  | none => return false

def ensureStream (config : NatsStorageConfig) : NatsM Unit := do
  match ← lookup (.streamInfo stream) with
  | some _ => ensureDuplicateWindow config stream
  | none =>
      match ← (ExceptT.lift (retryIo (perform (.addStream stream
          ⟨[subjectPrefix ++ ".>".toList], 0, config.streamDuplicateWindow⟩))
          config.retries).run : NatsM _) with
      | .ok _ => return ()
      | .error err =>
          if isAlreadyExists err then ensureDuplicateWindow config stream else throw err

def recordApplied (config : NatsStorageConfig) (ledgerKey : Str) : NatsM Unit := do
  ensureStream config
  let publishId := "writeback-applied:".toList ++ hexEncode (Text.asBytes ledgerKey)
  let _ ← retryPublish config.retries stream (ledgerSubject ledgerKey) []
    (.bytes (Text.asBytes ledgerKey)) ⟨some publishId, none⟩

end Ledger

def subjectMatches (pattern subject : Str) : Bool :=
  if pattern = subject ∨ pattern = ['>'] then true
  else
    match Text.stripSuffix ".>".toList pattern with
    | some pre => Text.startsWith (pre ++ ['.']) subject
    | none =>
        let patternParts := pattern.splitOn '.'
        let subjectParts := subject.splitOn '.'
        patternParts.length == subjectParts.length &&
          (patternParts.zip subjectParts).all fun (want, got) => want == ['*'] || want == got

def scopedKey (kind : Str) (parts : List Str) : Str :=
  parts.foldl (fun key part =>
    key ++ '|' :: Text.decimal (Text.asBytes part).length ++ ':' :: part) kind

end Nats

end EventFs.Transport
