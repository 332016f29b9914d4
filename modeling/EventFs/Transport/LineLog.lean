import EventFs.Transport.Storage
import EventFs.Protocol.Json

/-!
# Streams as logs of identified lines

What the mount relies on when it publishes JSON lines: a stream is a log, every published
line carries the identity of its write and its place in it, and a line whose identity is
in the log is not stored again. A publish may stop after any of its lines. Nothing but
streams is stored here.
-/

namespace EventFs.Transport

open Library Protocol

/-- The idempotency key of the write a line belongs to and the index of the line in it. -/
abbrev LineId := Str × Nat

structure LoggedLine where
  sequence : Nat
  subject : Str
  payload : Bytes
  id : Option LineId
deriving DecidableEq, Repr

structure LineLog where
  streams : Std.ExtTreeMap Str (List LoggedLine)

namespace LineLog

def new : LineLog := ⟨∅⟩

def messages (log : LineLog) (stream : Str) : List LoggedLine := log.streams.getD stream []

/-- The lines of one subject, in order. -/
def ofSubject (log : LineLog) (stream subject : Str) : List LoggedLine :=
  (log.messages stream).filter fun line => line.subject == subject

def nextSequence (lines : List LoggedLine) : Nat :=
  match lines.getLast? with
  | some line => line.sequence + 1
  | none => 1

def append (log : LineLog) (stream subject : Str) (payload : Bytes) (id : Option LineId) :
    LineLog :=
  ⟨log.streams.insert stream
    (log.messages stream ++ [⟨nextSequence (log.messages stream), subject, payload, id⟩])⟩

/-- The line with this identity has been stored. -/
def lineApplied (log : LineLog) (stream subject : Str) (id : LineId) : Bool :=
  (log.ofSubject stream subject).any fun line => line.id == some id

def ensure (log : LineLog) (stream : Str) : LineLog := ⟨log.streams.insertIfNew stream []⟩

/-- Store the lines that are not in the log yet, each under its index. -/
def publishLines (log : LineLog) (stream subject key : Str) (lines : List (Str × Nat)) :
    LineLog × List Nat :=
  lines.foldl (fun (log, sequences) (line, index) =>
    if log.lineApplied stream subject (key, index) then (log, sequences)
    else
      (log.append stream subject (Text.asBytes line) (some (key, index)),
        sequences ++ [nextSequence (log.messages stream)])) (log, [])

section Json

variable [Serde]

def publishJsonLines (log : LineLog) (stream subject : Str) (bytes : Bytes) (key : Str) :
    TransportResult (List Nat) × LineLog :=
  match validateJsonLines subject bytes, jsonLines subject bytes with
  | .error err, _ => (.error (.protocol err), log)
  | .ok _, .error err => (.error (.protocol err), log)
  | .ok _, .ok lines =>
      let (log, sequences) := (log.ensure stream).publishLines stream subject key lines.zipIdx
      (.ok sequences, log)

def publishJsonLinesApplied (log : LineLog) (stream subject : Str) (bytes : Bytes) (key : Str) :
    TransportResult Bool :=
  match validateJsonLines subject bytes, jsonLines subject bytes with
  | .error err, _ => .error (.protocol err)
  | .ok _, .error err => .error (.protocol err)
  | .ok _, .ok lines =>
      .ok ((List.range lines.length).all fun index => log.lineApplied stream subject (key, index))

def publishJsonLinesAppliedPrefix (log : LineLog) (stream subject : Str) (bytes : Bytes)
    (key : Str) : TransportResult Nat :=
  match validateJsonLines subject bytes, jsonLines subject bytes with
  | .error err, _ => .error (.protocol err)
  | .ok _, .error err => .error (.protocol err)
  | .ok _, .ok lines =>
      .ok ((List.range lines.length).takeWhile fun index =>
        log.lineApplied stream subject (key, index)).length

end Json

def listStreamMessages (log : LineLog) (stream : Str) : TransportResult (List DirectoryEntry) :=
  match log.streams[stream]? with
  | none => .error .notFound
  | some lines =>
      .ok (lines.map fun line => ⟨Text.decimal line.sequence ++ ".json".toList, .file⟩)

def listStreamSubjects (log : LineLog) (stream : Str) : TransportResult (List DirectoryEntry) :=
  match log.streams[stream]? with
  | none => .error .notFound
  | some lines =>
      .ok ((Std.ExtTreeSet.ofList (lines.map (·.subject))).toList.map fun subject =>
        ⟨streamSubjectFileNameFromStr subject, .file⟩)

def streamMessage (log : LineLog) (stream : Str) (sequence : Nat) :
    TransportResult StreamMessageView :=
  match (log.messages stream).find? fun line => line.sequence == sequence with
  | some line => .ok ⟨stream, line.sequence, line.subject, line.payload⟩
  | none => .error .notFound

variable [Serde]

def handle : Program.Handler storage LineLog
  | log, .publishJsonLines stream subject bytes key => log.publishJsonLines stream subject bytes key
  | log, .publishJsonLinesApplied stream subject bytes key =>
      (log.publishJsonLinesApplied stream subject bytes key, log)
  | log, .publishJsonLinesAppliedPrefix stream subject bytes key =>
      (log.publishJsonLinesAppliedPrefix stream subject bytes key, log)
  | log, .listStreams => (.ok log.streams.keys, log)
  | log, .ensureStream stream => (.ok (), log.ensure stream)
  | log, .listStreamMessages stream => (log.listStreamMessages stream, log)
  | log, .listStreamSubjects stream => (log.listStreamSubjects stream, log)
  | log, .streamMessage stream sequence => (log.streamMessage stream sequence, log)
  | log, .watchEvents => (.ok [], log)
  | log, _ => (.error .notFound, log)

/-! ## Logs -/

/-- Sequences grow and are `u64`. -/
def Ordered (lines : List LoggedLine) : Prop :=
  lines.Pairwise (fun left right => left.sequence < right.sequence) ∧
    ∀ line ∈ lines, line.sequence < 2 ^ 64

def Valid (log : LineLog) : Prop := ∀ stream, Ordered (log.messages stream)

end LineLog

end EventFs.Transport
