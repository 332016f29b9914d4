import EventFs.Library.Program
import EventFs.Transport.Storage

/-!
# The message broker

The streams of a JetStream server as the client sees them: messages in order of their
sequence, of which a stream keeps the newest of every subject up to a limit, and one
call per request the client makes. A payload is modelled by the value it encodes.
`log` keeps what a stream ever stored, `purges` what was purged and from what; neither
can be read by a call.
-/

namespace EventFs.Transport

open Library Protocol

/-! ## Errors of the client -/

namespace IoError

def notFound : IoError := ⟨.notFound, "no message found".toList⟩

def alreadyExists : IoError := ⟨.alreadyExists, "stream name already in use".toList⟩

def timedOut : IoError := ⟨.timedOut, "timed out".toList⟩

def isNoResponders (message : Str) : Bool :=
  Text.contains "no responders".toList message || Text.contains "no-responders".toList message

def isNotFound (err : IoError) : Bool :=
  let message := err.text.map Char.toLower
  !isNoResponders message &&
    (err.kind == .notFound || Text.contains "no message found".toList message ||
      Text.contains "not found".toList message || Text.contains "404".toList message)

def isTimeout (err : IoError) : Bool :=
  err.kind == .timedOut || Text.contains "timed out".toList err.text

end IoError

namespace Nats

/-! ## Messages -/

structure KvWritebackMarker where
  operation : Str
  idempotencyKey : Str
  key : Str
deriving DecidableEq, Repr

structure ObjectWritebackIdentity where
  idempotencyKey : Str
  previousNuid : Option Str
deriving DecidableEq, Repr

/-- The description of an object: free text, or the text that encodes an identity. -/
inductive ObjectDescription
  | text (text : Str)
  | identity (identity : ObjectWritebackIdentity)
deriving DecidableEq, Repr

structure ObjectInfo where
  name : Str
  description : Option ObjectDescription
  nuid : Str
  size : Nat
  chunks : Nat
  deleted : Bool
deriving DecidableEq, Repr

inductive Payload
  | bytes (bytes : Bytes)
  | kvMarker (marker : KvWritebackMarker)
  | objectIdentity (identity : ObjectWritebackIdentity)
  | objectInfo (info : ObjectInfo)
deriving DecidableEq, Repr

abbrev Headers := List (Str × Str)

def Headers.get (headers : Headers) (name : Str) : Option Str :=
  (headers.find? fun header => header.1 == name).map (·.2)

def natsRollup : Str := "Nats-Rollup".toList

def rollupSubject : Str := "sub".toList

structure Message where
  subject : Str
  sequence : Nat
  headers : Headers
  payload : Payload
deriving DecidableEq, Repr

/-! ## Streams -/

structure StreamConfig where
  subjects : List Str
  maxMsgsPerSubject : Int
  duplicateWindow : Int
deriving DecidableEq, Repr

structure Stream where
  config : StreamConfig
  messages : List Message
  lastSequence : Nat
  log : List Message
deriving DecidableEq, Repr

/-- Remove the oldest messages of a subject. -/
def dropOldest (subject : Str) : Nat → List Message → List Message
  | 0, messages => messages
  | _ + 1, [] => []
  | count + 1, message :: rest =>
      if message.subject = subject then dropOldest subject count rest
      else message :: dropOldest subject (count + 1) rest

namespace Stream

def create (config : StreamConfig) : Stream := ⟨config, [], 0, []⟩

def ofSubject (stream : Stream) (subject : Str) : List Message :=
  stream.messages.filter fun message => message.subject == subject

def lastMessage (stream : Stream) (subject : Str) : Option Message :=
  (stream.ofSubject subject).getLast?

/-- What a new message of the subject leaves of the old ones. A rollup replaces all of
them; otherwise the oldest go once there are too many. -/
def keptBefore (stream : Stream) (subject : Str) (headers : Headers) : List Message :=
  if headers.get natsRollup = some rollupSubject then
    stream.messages.filter fun message => message.subject != subject
  else if 1 ≤ stream.config.maxMsgsPerSubject then
    dropOldest subject
      ((stream.ofSubject subject).length + 1 - stream.config.maxMsgsPerSubject.toNat)
      stream.messages
  else stream.messages

def append (stream : Stream) (subject : Str) (headers : Headers) (payload : Payload) : Stream :=
  let message : Message := ⟨subject, stream.lastSequence + 1, headers, payload⟩
  { stream with
    messages := stream.keptBefore subject headers ++ [message]
    lastSequence := stream.lastSequence + 1
    log := stream.log ++ [message] }

end Stream

/-! ## The broker -/

/-- `recent` holds the ids stored since the current publish began, with the stream and
the sequence; `issued` the nuids objects have been stored under. -/
structure Broker where
  streams : Str → Option Stream
  recent : List (Str × Str × Nat)
  issued : List Str
  purges : List (Str × Str × List Message)

namespace Broker

def setStream (broker : Broker) (name : Str) (stream : Stream) : Broker :=
  { broker with streams := Function.update broker.streams name (some stream) }

/-- The sequence under which the id has been stored since the publish began. -/
def duplicateOf (broker : Broker) (name : Str) (id : Option Str) : Option Nat :=
  match id with
  | none => none
  | some id =>
      (broker.recent.find? fun stored => stored.1 == name && stored.2.1 == id).map (·.2.2)

end Broker

/-! ## Calls -/

structure PublishOptions where
  id : Option Str
  expectedLastSubjectSequence : Option Nat
deriving DecidableEq, Repr

/-- `beginPublish` marks the start of a publish and its retries: ids stored before it
are no longer taken for duplicates. -/
inductive NatsCall
  | keyValue (bucket : Str)
  | createKeyValue (bucket : Str) (history : Int)
  | objectStore (bucket : Str)
  | createObjectStore (bucket : Str)
  | streamInfo (stream : Str)
  | updateStream (stream : Str) (config : StreamConfig)
  | addStream (stream : Str) (config : StreamConfig)
  | getLastMessage (stream subject : Str)
  | beginPublish
  | publish (stream subject : Str) (headers : Headers) (payload : Payload)
      (options : PublishOptions)
  | subscribe (stream subject : Str)
  | next (stream subject : Str) (after : Nat)
  | purgeStreamSubject (stream subject : Str)
  | putObject (bucket name : Str) (description : Option ObjectDescription) (bytes : Bytes)
deriving DecidableEq, Repr

abbrev NatsCall.Value : NatsCall → Type
  | .streamInfo _ => StreamConfig
  | .getLastMessage _ _ | .next _ _ _ => Message
  | .publish .. => Nat
  | .keyValue _ | .createKeyValue _ _ | .objectStore _ | .createObjectStore _
  | .updateStream _ _ | .addStream _ _ | .beginPublish | .subscribe _ _
  | .purgeStreamSubject _ _ | .putObject .. => Unit

def nats : Interface where
  Call := NatsCall
  Reply call := Except IoError call.Value

def streamName (bucket : Str) : Str := "KV_".toList ++ bucket

def objectStreamName (bucket : Str) : Str := "OBJ_".toList ++ bucket

def base64Digit (value : Nat) : Char :=
  "ABCDEFGHIJKLMNOPQRSTUVWXYZabcdefghijklmnopqrstuvwxyz0123456789-_".toList.getD value '='

/-- URL-safe base64 with padding. -/
def base64UrlSafe : Bytes → Str
  | a :: b :: c :: rest =>
      base64Digit (a.toNat / 4) :: base64Digit (a.toNat % 4 * 16 + b.toNat / 16) ::
        base64Digit (b.toNat % 16 * 4 + c.toNat / 64) :: base64Digit (c.toNat % 64) ::
        base64UrlSafe rest
  | [a, b] =>
      [base64Digit (a.toNat / 4), base64Digit (a.toNat % 4 * 16 + b.toNat / 16),
        base64Digit (b.toNat % 16 * 4), '=']
  | [a] => [base64Digit (a.toNat / 4), base64Digit (a.toNat % 4 * 16), '=', '=']
  | [] => []

def objectMetaSubject (bucket object : Str) : Str :=
  "$O.".toList ++ bucket ++ ".M.".toList ++ base64UrlSafe (Text.asBytes object)

def objectChunkSubject (bucket nuid : Str) : Str :=
  "$O.".toList ++ bucket ++ ".C.".toList ++ nuid

/-- The nuid of the next object, from those issued so far. -/
class Nuid where
  next : List Str → Str

namespace Broker

def publish (broker : Broker) (name subject : Str) (headers : Headers) (payload : Payload)
    (options : PublishOptions) : Except IoError Nat × Broker :=
  match broker.streams name with
  | none => (.error (.other "no responders".toList), broker)
  | some stream =>
      match broker.duplicateOf name options.id with
      | some sequence => (.ok sequence, broker)
      | none =>
          let last := ((stream.lastMessage subject).map (·.sequence)).getD 0
          if options.expectedLastSubjectSequence.any fun expected => expected != last then
            (.error (.other "wrong last sequence".toList), broker)
          else
            let sequence := stream.lastSequence + 1
            let broker := broker.setStream name (stream.append subject headers payload)
            (.ok sequence,
              { broker with
                recent := match options.id with
                  | none => broker.recent
                  | some id => (name, id, sequence) :: broker.recent })

/-- Storing an object: chunks under a new nuid, then its metadata, which replaces the
metadata of the object before it. -/
def putObject [Nuid] (broker : Broker) (bucket object : Str)
    (description : Option ObjectDescription) (bytes : Bytes) : Except IoError Unit × Broker :=
  match broker.streams (objectStreamName bucket) with
  | none => (.error (.other "no responders".toList), broker)
  | some stream =>
      let nuid := Nuid.next broker.issued
      let info : ObjectInfo := ⟨object, description, nuid, bytes.length, 1, false⟩
      let stream := stream.append (objectMetaSubject bucket object) [(natsRollup, rollupSubject)]
        (.objectInfo info)
      (.ok (),
        { broker.setStream (objectStreamName bucket) stream with
          issued := nuid :: broker.issued })

def createStream (broker : Broker) (name : Str) (config : StreamConfig) :
    Except IoError Unit × Broker :=
  match broker.streams name with
  | some _ => (.error .alreadyExists, broker)
  | none => (.ok (), broker.setStream name (.create config))

variable [Nuid]

def handle : Program.Handler nats Broker
  | broker, .keyValue bucket =>
      match broker.streams (streamName bucket) with
      | none => (.error .notFound, broker)
      | some stream =>
          if stream.config.maxMsgsPerSubject < 1 then
            (.error (.other "bucket not valid key-value store".toList), broker)
          else (.ok (), broker)
  | broker, .createKeyValue bucket history =>
      broker.createStream (streamName bucket)
        ⟨["$KV.".toList ++ bucket ++ ".>".toList], if 0 < history then history else 1, 0⟩
  | broker, .objectStore bucket =>
      match broker.streams (objectStreamName bucket) with
      | none => (.error .notFound, broker)
      | some _ => (.ok (), broker)
  | broker, .createObjectStore bucket =>
      broker.createStream (objectStreamName bucket)
        ⟨["$O.".toList ++ bucket ++ ".C.>".toList, "$O.".toList ++ bucket ++ ".M.>".toList], 0, 0⟩
  | broker, .streamInfo name =>
      match broker.streams name with
      | none => (.error .notFound, broker)
      | some stream => (.ok stream.config, broker)
  | broker, .updateStream name config =>
      match broker.streams name with
      | none => (.error .notFound, broker)
      | some stream => (.ok (), broker.setStream name { stream with config })
  | broker, .addStream name config => broker.createStream name config
  | broker, .getLastMessage name subject =>
      match (broker.streams name).bind (·.lastMessage subject) with
      | none => (.error .notFound, broker)
      | some message => (.ok message, broker)
  | broker, .beginPublish => (.ok (), { broker with recent := [] })
  | broker, .publish name subject headers payload options =>
      broker.publish name subject headers payload options
  | broker, .subscribe name _ =>
      match broker.streams name with
      | none => (.error .notFound, broker)
      | some _ => (.ok (), broker)
  | broker, .next name subject after =>
      match broker.streams name with
      | none => (.error .timedOut, broker)
      | some stream =>
          match (stream.ofSubject subject).find? fun message => after < message.sequence with
          | none => (.error .timedOut, broker)
          | some message => (.ok message, broker)
  | broker, .purgeStreamSubject name subject =>
      match broker.streams name with
      | none => (.error .notFound, broker)
      | some stream =>
          (.ok (),
            { broker.setStream name
                { stream with
                  messages := stream.messages.filter fun message => message.subject != subject }
              with purges := (name, subject, stream.messages) :: broker.purges })
  | broker, .putObject bucket object description bytes =>
      broker.putObject bucket object description bytes

end Broker

end Nats

end EventFs.Transport
